import CandleAuction.Proofs.Bids
import CandleAuction.Proofs.Overflow
import CandleAuction.Proofs.Packing
import CandleAuction.Query

/-!
# When a round closes

The entropy picks an instant of the snuff window, and every instant of it can be
picked. A drawn round was closed after its deadline, so the time of its close
fits and lies between the bounds that are shown for it. Without a snuff window
the close is the deadline, and no bid of the ledger is late.
-/

namespace CandleAuction

theorem Word.exists_leading (number : UInt64) : ∃ word : Word, word.leading = number := by
  have size : (Bytes.bigEndian 8 number.toNat ++ List.replicate 24 0).length = 32 := by simp
  refine ⟨⟨⟨(Bytes.bigEndian 8 number.toNat ++ List.replicate 24 0).toArray, size⟩⟩, ?_⟩
  rw [leading, toList, Vector.toList_mk, List.toList_toArray,
    List.take_left' (Bytes.length_bigEndian 8 _), Bytes.ofBigEndian_bigEndian,
    Nat.mod_eq_of_lt (show _ < 256 ^ 8 from number.toNat_lt), UInt64.ofNat_toNat]

namespace Settings

variable {s : Settings} {opening length : UInt64}

/-- Every instant of the snuff window is the close for some entropy. -/
theorem Window.exists_entropy (window : s.Window opening length) (valid : s.Valid) {instant : Nat}
    (reached : opening.toNat ≤ instant) (within : instant ≤ s.duration.toNat) :
    ∃ entropy offset, s.closeOffset entropy = .ok offset ∧ offset.toNat = instant := by
  have ends := window.ends
  have number : (UInt64.ofNat (instant - opening.toNat)).toNat = instant - opening.toNat := by
    have fits := length.toNat_lt
    exact UInt64.toNat_ofNat_of_lt' (by simp only [UInt64.size]; omega)
  obtain ⟨entropy, leading⟩ := Word.exists_leading (UInt64.ofNat (instant - opening.toNat))
  obtain ⟨offset, drawn, total, -⟩ := window.closeOffset valid entropy
  refine ⟨entropy, offset, drawn, ?_⟩
  rw [total, leading, number, Nat.mod_eq_of_lt (by omega)]
  omega

theorem Window.opening_of_percent (window : s.Window opening length) (none : s.snuffPercent = 0) :
    opening.toNat = s.duration.toNat := by
  have share := window.share
  have ends := window.ends
  rw [none, UInt8.toNat_zero, Nat.mul_zero, Nat.zero_div] at share
  omega

end Settings

namespace Auction

variable {r : Auction} {bids : Ledger} {close : UInt32} {opening length : UInt64}

theorem Bounded.closeBounds (fits : r.Bounded) (window : r.settings.Window opening length)
    (resolved : r.closeOffset = some close) (within : close.toNat ≤ r.settings.duration.toNat) :
    ∃ earliest latest instant, r.closeBounds = .ok ⟨earliest, latest, some instant⟩ ∧
      earliest.toNat = r.startTime.toNat + opening.toNat ∧
      latest.toNat = r.startTime.toNat + r.settings.duration.toNat ∧
      instant.toNat = r.startTime.toNat + close.toNat := by
  have ends := window.ends
  unfold Bounded at fits
  have first := UInt64.toNat_ofNat_of_lt' (n := r.startTime.toNat + opening.toNat) (by omega)
  have last := UInt64.toNat_ofNat_of_lt' fits
  have instant := UInt64.toNat_ofNat_of_lt' (n := r.startTime.toNat + close.toNat) (by omega)
  refine ⟨_, _, _, ?_, first, last, instant⟩
  have offset : close.toUInt64.toNat = close.toNat := UInt32.toNat_toUInt64 close
  simp only [Auction.closeBounds, closeWindow, closeTime, resolved, window.starts,
    exactAdd_eq_ok.mpr first, deadline_eq_ok.mpr last, bind, Except.bind, pure, Except.pure,
    exactAdd_eq_ok.mpr (instant.trans (congrArg _ offset.symm)), Functor.map, Except.map]

theorem Sound.eligible (sound : r.Sound bids) {position : Nat} {bid : Bid}
    (entered : bids[position]? = some bid) (late : r.settings.duration.toNat ≤ close.toNat) :
    bid.eligible close = true := by
  have timely := (sound position bid entered).timely
  rw [Bid.eligible, decide_eq_true_eq, UInt32.lt_iff_toNat_lt]
  omega

end Auction

namespace Run

variable {g : Genesis} {settlementGas : UInt64} {start h : House} {past : List Served}

/-- For valid settings a close instant is drawn from every entropy without a fault. It is the
exact sum of the opening of the snuff window and a draw, which fits, so it lies between the
opening and the deadline, and there is no instant between them that no entropy picks. In every
state that a run leads to, the bounds shown for a drawn round fit and hold its close, and
without a snuff window every bid of its ledger is eligible. -/
theorem close_lies_in_window (founded : g.found settlementGas = .ok start)
    (run : Run start past h) :
    (∀ s : Settings, s.problem? = none → ∃ opening length,
      s.windowStart = .ok opening ∧ s.windowLength = .ok length ∧
      opening.toNat + length.toNat = s.duration.toNat ∧
      (∀ entropy, ∃ offset, s.closeOffset entropy = .ok offset ∧
        offset.toNat = opening.toNat + entropy.leading.toNat % (length.toNat + 1) ∧
        opening.toNat + entropy.leading.toNat % (length.toNat + 1) < UInt32.size ∧
        opening.toNat ≤ offset.toNat ∧ offset.toNat ≤ s.duration.toNat) ∧
      ∀ instant : Nat, opening.toNat ≤ instant → instant ≤ s.duration.toNat →
        ∃ entropy offset, s.closeOffset entropy = .ok offset ∧ offset.toNat = instant) ∧
    ∀ id r entropy, h.auction? id = some r → r.entropy = some entropy →
      ∃ close earliest latest instant, r.closeOffset = some close ∧
        r.settings.closeOffset entropy = .ok close ∧
        h.closeBounds? id = .ok (some ⟨earliest, latest, some instant⟩) ∧
        instant.toNat = r.startTime.toNat + close.toNat ∧
        earliest ≤ instant ∧ instant ≤ latest ∧
        (r.settings.snuffPercent = 0 → ∀ (position : Nat) (bid : Bid),
          (h.ledger id)[position]? = some bid → bid.eligible close = true) := by
  constructor
  · intro s accepted
    have valid := Settings.problem?_eq_none_iff.mp accepted
    have short := valid.duration_lt
    obtain ⟨opening, length, window⟩ := valid.exists_window
    refine ⟨opening, length, window.starts, window.lasts, window.ends, fun entropy => ?_,
      fun instant => window.exists_entropy valid⟩
    obtain ⟨offset, drawn, total, le⟩ := window.closeOffset valid entropy
    exact ⟨offset, drawn, total, by omega, by omega, le⟩
  · intro id r entropy found drawn
    have round := (run.coherent (Genesis.coherent_of_found founded)).rounds id r found
    have sound := run.sound (Genesis.orderly_of_found founded)
      (Genesis.each_of_found founded fun _ => Auction.sound_empty) id r found
    have fits : r.Bounded := run.bounded founded id r found fun running => by
      simp [(round.running running).1] at drawn
    obtain ⟨opening, length, window⟩ := round.valid.exists_window
    obtain ⟨close, picks, resolved⟩ := round.resolved.exists_close drawn
    obtain ⟨offset, again, total, le⟩ := window.closeOffset round.valid entropy
    cases picks.symm.trans again
    obtain ⟨earliest, latest, instant, shown, first, last, exact⟩ :=
      fits.closeBounds window resolved le
    refine ⟨close, earliest, latest, instant, resolved, picks, ?_, exact, ?_, ?_, ?_⟩
    · rw [House.closeBounds?, found]
      simp only [shown, Functor.map, Except.map]
    · rw [UInt64.le_iff_toNat_le]
      omega
    · rw [UInt64.le_iff_toNat_le]
      omega
    · intro none position bid entered
      have whole := window.opening_of_percent none
      exact sound.eligible entered (by omega)

end Run

/-! A round without a snuff window, whose last bid came in its last second. -/

namespace Sample

def suddenGenesis : Genesis :=
  .withSettings { Settings.standard with maxWinners := 1, snuffPercent := 0 }

def suddenOpened : House := (suddenGenesis.firstRound 0).apply suddenGenesis.house

def lastSecond : List Request :=
  [request 4 259199 5000 (.placeBid 1 5000), request 6 259200 0 (.snuff 1),
    request 3 259210 0 (.fulfillRandomness 7 word)]

def suddenDrawn : House := suddenOpened.serve lastSecond

def suddenRound : Auction :=
  { round with
    settings := suddenGenesis.settings
    closeOffset := some 259200
    proceeds := 5000 }

theorem sudden_founded : suddenGenesis.found 0 = .ok suddenOpened := rfl

end Sample

/-- That round closes when its deadline has come, in time for its last bid. -/
theorem Run.close_lies_in_window_sudden :
    (∃ entropy offset, Sample.suddenRound.settings.closeOffset entropy = .ok offset ∧
      offset.toNat = 259200) ∧
    ∃ close earliest latest instant, Sample.suddenRound.closeOffset = some close ∧
      Sample.suddenDrawn.closeBounds? 1 = .ok (some ⟨earliest, latest, some instant⟩) ∧
      earliest ≤ instant ∧ instant ≤ latest ∧
      Bid.eligible ⟨.fill 4, 259199, 5000, false⟩ close = true := by
  have run : Run Sample.suddenOpened (Sample.suddenOpened.served Sample.lastSecond)
      Sample.suddenDrawn := House.run_serve (List.all_eq_true.mp rfl)
  obtain ⟨windows, rounds⟩ := Run.close_lies_in_window Sample.sudden_founded run
  obtain ⟨opening, length, -, -, ends, -, covered⟩ :=
    windows Sample.suddenRound.settings (by decide)
  obtain ⟨close, earliest, latest, instant, resolved, -, shown, -, least, most, eligible⟩ :=
    rounds 1 Sample.suddenRound Sample.word rfl rfl
  have ends : opening.toNat + length.toNat = 259200 := ends
  exact ⟨covered 259200 (by omega) (Nat.le_refl _), close, earliest, latest, instant, resolved,
    shown, least, most, eligible rfl 0 _ rfl⟩

end CandleAuction
