import CandleAuction.Proofs.Conservation
import CandleAuction.Proofs.Rules.Refusals

/-!
# What a ledger holds

Every bid of a ledger would be taken by its round as it stands: raising a bid
adds another multiple of the precision, and its new time is in the duration,
too. The bids sum to a word, and to the proceeds as long as nothing is paid out.
-/

namespace CandleAuction

/-- The calls that take value out of the proceeds of a round. -/
def Call.paysOut : Call → Bool
  | withdrawBid .. | claimSnuffBounty _ | claimProposalBounty _ | transferProceeds _ => true
  | _ => false

namespace Auction

/-- A bid that a round may have in its ledger. -/
structure Accepts (r : Auction) (bid : Bid) : Prop where
  enough : r.minBid ≤ bid.amount
  positive : bid.amount ≠ 0
  multiple : r.settings.bidPrecision.toNat ∣ bid.amount.toNat
  timely : bid.timestamp.toNat < r.settings.duration.toNat

variable {r : Auction} {bids : Ledger} {ctx : Context} {call : Call} {change : Change}
  {outcome : Outcome} {bid : Bid} {amount : UInt64} {timestamp : UInt32}

theorem Accepts.of_origin {r' : Auction} (accepts : r.Accepts bid) (same : r'.origin = r.origin) :
    r'.Accepts bid := by
  have minBid : r'.minBid = r.minBid := (congrArg Auction.minBid same :)
  have settings : r'.settings = r.settings := (congrArg Auction.settings same :)
  exact ⟨minBid ▸ accepts.enough, accepts.positive, settings ▸ accepts.multiple,
    settings ▸ accepts.timely⟩

theorem accepts_revise : (change.revise r).Accepts bid ↔ r.Accepts bid :=
  ⟨fun accepts => accepts.of_origin Change.origin_revise.symm,
    fun accepts => accepts.of_origin Change.origin_revise⟩

theorem OpenAt.timely {now : UInt64} (isOpen : r.OpenAt now)
    (timed : timestamp.toNat = now.toNat - r.startTime.toNat) :
    timestamp.toNat < r.settings.duration.toNat := by
  have started := UInt64.le_iff_toNat_le.mp isOpen.started
  have ahead := isOpen.ahead
  omega

/-- Every bid of the ledger is one that the round may have. -/
def Sound (r : Auction) (bids : Ledger) : Prop :=
  ∀ (position : Nat) (bid : Bid), bids[position]? = some bid → r.Accepts bid

theorem Sound.push (sound : r.Sound bids) (accepts : r.Accepts bid) : r.Sound (bids.push bid) := by
  intro position other found
  rw [Array.getElem?_push] at found
  split at found
  · cases found
    exact accepts
  · exact sound position other found

theorem Sound.modify (sound : r.Sound bids) {position : Nat} {change : Bid → Bid}
    (accepts : ∀ bid, bids[position]? = some bid → r.Accepts (change bid)) :
    r.Sound (bids.modify position change) := by
  intro other bid found
  rw [Array.getElem?_modify] at found
  split at found
  · rename_i same
    subst same
    obtain ⟨before, entered, rfl⟩ := Option.map_eq_some_iff.mp found
    exact accepts before entered
  · exact sound other bid found

/-- Every allowed change keeps a ledger sound. -/
theorem Sound.allow (sound : r.Sound bids) (allowed : r.Allows bids ctx call change outcome) :
    (change.revise r).Sound (change.enter bids) := by
  suffices r.Sound (change.enter bids) from
    fun position bid found => accepts_revise.mpr (this position bid found)
  cases allowed with
  | placed g =>
      exact sound.push ⟨g.enough, UInt64.pos_iff_ne_zero.mp g.precise.positive,
        g.precise.multiple, g.isOpen.timely g.timed⟩
  | raised g =>
      refine sound.modify fun bid found => ?_
      cases g.found.symm.trans found
      have accepts := sound _ _ found
      refine ⟨?_, ?_, ?_, g.isOpen.timely g.timed⟩
      · have enough := UInt64.le_iff_toNat_le.mp accepts.enough
        rw [UInt64.le_iff_toNat_le, g.raised]
        omega
      · rw [← UInt64.pos_iff_ne_zero, g.raised]
        exact Nat.add_pos_right _ g.precise.positive
      · rw [g.raised]
        exact Nat.dvd_add accepts.multiple g.precise.multiple
  | claimed | withdrawn =>
      refine sound.modify fun bid found => ?_
      have accepts := sound _ _ found
      exact ⟨accepts.enough, accepts.positive, accepts.multiple, accepts.timely⟩
  | _ => exact sound

theorem sound_empty : r.Sound #[] := by
  intro position bid found
  simp at found

end Auction

theorem Run.sound {start h : House} {past : List Served} (run : Run start past h)
    (orderly : start.Orderly) (initial : start.Each Auction.Sound) : h.Each Auction.Sound := by
  refine run.each (motive := fun _ => Auction.Sound) orderly initial
    (fun _ _ => Auction.sound_empty) ?_
  intro past s id r r' bids' _ _ moves sound
  cases moves with
  | rest _ => exact sound
  | change _ _ allowed _ => exact sound.allow allowed

theorem Served.taken_of_not_paysOut {s : Served} {id : UInt64} (unpaid : ¬ s.Does Call.paysOut id) :
    s.taken id = 0 := by
  rw [taken]
  cases accepted : s.outcome? with
  | none => rfl
  | some outcome =>
      rw [Option.elim_some]
      by_cases named : s.request.call.round? = some id
      · have idle : s.request.call.paysOut ≠ true := fun pays =>
          unpaid ⟨House.addressee?_of_round? named, pays, by rw [accepted]; rfl⟩
        revert idle
        cases s.request.call <;> simp [Call.paysOut, House.taken]
      · exact House.taken_eq_zero named

theorem takenFrom_eq_zero {id : UInt64} {past : List Served}
    (unpaid : ∀ s ∈ past, ¬ s.Does Call.paysOut id) : takenFrom id past = 0 := by
  refine List.sum_eq_zero fun amount listed => ?_
  obtain ⟨s, member, rfl⟩ := List.mem_map.mp listed
  exact Served.taken_of_not_paysOut (unpaid s member)

namespace Run

variable {g : Genesis} {settlementGas : UInt64} {start h : House} {past : List Served}

/-- In every run the settings of a round are valid and its ledger fits the index width, holds
only bids that the round may have, and sums to a word: to the proceeds, as long as nothing has
been paid out. So no bid is ever too late for its timestamp, every position can be packed, and
the total of the winners is exact. -/
theorem ledgers_sound (founded : g.found settlementGas = .ok start) (run : Run start past h) :
    (∀ id r, h.auction? id = some r →
      r.settings.problem? = none ∧ (h.ledger id).size ≤ r.settings.indexWidth.capacity ∧
      (∀ (position : Nat) (bid : Bid), (h.ledger id)[position]? = some bid →
        r.Accepts bid ∧ position ≤ r.settings.indexWidth.maxIndex.toNat) ∧
      (h.ledger id).worth < 2 ^ 64 ∧
      ((∀ s ∈ past, ¬ s.Does Call.paysOut id) → r.proceeds.toNat = (h.ledger id).worth) ∧
      ∀ close maxWinners, ((h.ledger id).winnerSet close maxWinners).total.toNat =
        Entry.worth ((h.ledger id).winningEntries close maxWinners)) ∧
    ∀ ctx c call, (h.dispatch ctx c call).result ≠ .error (.rejected .timestampOverflow) := by
  have initial := Genesis.coherent_of_found founded
  have coherent := run.coherent initial
  constructor
  · intro id r found
    have round := coherent.rounds id r found
    have sound := run.sound initial.toOrderly
      (Genesis.each_of_found founded fun _ => Auction.sound_empty) id r found
    refine ⟨Settings.problem?_eq_none_iff.mpr round.valid, round.room, ?_, round.fits, ?_, ?_⟩
    · intro position bid entered
      have inside := (Array.getElem?_eq_some_iff.mp entered).1
      exact ⟨sound position bid entered,
        Nat.le_of_lt_succ (Nat.lt_of_lt_of_le inside round.room)⟩
    · intro unpaid
      have sum := run.proceeds_add_takenFrom founded found
      rwa [takenFrom_eq_zero unpaid] at sum
    · intro close maxWinners
      exact Ledger.winnerSet_total (Nat.lt_of_le_of_lt
        (Ledger.worth_winningEntries_le _ close maxWinners) round.fits)
  · intro ctx c call late
    cases ((House.trips_of_dispatch (.inr rfl) late).unproposed coherent).1

/-- Nothing has been paid out of the sample round yet when its winner is proposed. -/
theorem ledgers_sound_proposed :
    Sample.genesis.found 0 = .ok Sample.opened ∧ Run Sample.opened Sample.past Sample.proposed ∧
      Sample.proposed.auction? 1 = some Sample.proposedRound ∧
      (∀ s ∈ Sample.past, ¬ s.Does Call.paysOut 1) ∧ (Sample.proposed.ledger 1).worth = 8000 ∧
      ∀ (position : Nat) (bid : Bid), (Sample.proposed.ledger 1)[position]? = some bid →
        Sample.proposedRound.Accepts bid := by
  obtain ⟨rounds, -⟩ := ledgers_sound Sample.founded Sample.run_proposed
  obtain ⟨-, -, bids, -, pooled, -⟩ := rounds 1 Sample.proposedRound rfl
  have unpaid : ∀ s ∈ Sample.past, ¬ s.Does Call.paysOut 1 := by
    have calls : ∀ s ∈ Sample.past, s.request.call.paysOut = false := by decide
    rintro s member ⟨-, pays, -⟩
    cases (calls s member).symm.trans pays
  exact ⟨Sample.founded, Sample.run_proposed, rfl, unpaid, (pooled unpaid).symm,
    fun position bid found => (bids position bid found).1⟩

end Run

end CandleAuction
