import CandleAuction.Rules.Bidding

/-!
# When a bid is taken

Each rule of bidding permits a call under conditions that are read here as
facts about the round, its ledger and the caller, with amounts and times as
unbounded numbers. The conditions are exact: under them the rule permits the call.
-/

namespace CandleAuction

open Ruling

/-- Whether the clock neither starts nor ends the phase. -/
def Phase.timeless : Phase → Bool
  | .waitingClose | .endedWithoutBids => true
  | .created | .running | .winnersProposed | .finalized => false

namespace Auction

variable {r : Auction} {now : UInt64}

theorem deadline_eq_ok {deadline : UInt64} :
    r.deadline = .ok deadline ↔
      deadline.toNat = r.startTime.toNat + r.settings.duration.toNat := exactAdd_eq_ok

/-- Only a running round and a live proposal are read against the clock. -/
theorem phaseAt_eq_ok {phase : Phase} :
    r.phaseAt now = .ok phase ↔
      match r.phase with
      | .running => (if now < r.startTime then .created else .running) = phase
      | .winnersProposed => ∃ deadline, r.challengeDeadline = .ok deadline ∧
          (if deadline.any (· < now) then .finalized else .winnersProposed) = phase
      | stored => stored = phase := by
  unfold phaseAt
  cases r.phase with
  | winnersProposed =>
      cases r.challengeDeadline with
      | error fault => simp [bind, Except.bind]
      | ok deadline => cases deadline <;> simp [bind, Except.bind, pure, Except.pure]
  | _ => simp

theorem phaseAt_eq_running :
    r.phaseAt now = .ok .running ↔ r.phase = .running ∧ r.startTime ≤ now := by
  rw [phaseAt_eq_ok]
  cases r.phase with
  | running => by_cases early : now < r.startTime <;> simp_all
  | winnersProposed =>
      simp only [reduceCtorEq, false_and, iff_false, not_exists, not_and]
      intro deadline _
      split <;> simp
  | _ => simp

theorem phaseAt_eq_of_timeless {phase : Phase} (timeless : phase.timeless = true) :
    r.phaseAt now = .ok phase ↔ r.phase = phase := by
  rw [phaseAt_eq_ok]
  cases r.phase with
  | running =>
      constructor
      · rintro rfl
        split at timeless <;> cases timeless
      · rintro rfl
        cases timeless
  | winnersProposed =>
      constructor
      · rintro ⟨deadline, _, rfl⟩
        split at timeless <;> cases timeless
      · rintro rfl
        cases timeless
  | _ => rfl

theorem phaseAt_eq_waitingClose :
    r.phaseAt now = .ok .waitingClose ↔ r.phase = .waitingClose := phaseAt_eq_of_timeless rfl

theorem phaseAt_eq_endedWithoutBids :
    r.phaseAt now = .ok .endedWithoutBids ↔ r.phase = .endedWithoutBids :=
  phaseAt_eq_of_timeless rfl

theorem phaseAt_eq_finalized :
    r.phaseAt now = .ok .finalized ↔ r.phase = .finalized ∨
      r.phase = .winnersProposed ∧
        ∃ deadline, r.challengeDeadline = .ok (some deadline) ∧ deadline < now := by
  rw [phaseAt_eq_ok]
  cases r.phase with
  | running => by_cases early : now < r.startTime <;> simp [early]
  | winnersProposed =>
      simp only [reduceCtorEq, false_or, true_and]
      constructor
      · intro accepted
        rcases accepted with ⟨deadline, window, final⟩
        cases deadline with
        | none => simp at final
        | some deadline =>
            by_cases past : deadline < now
            · exact ⟨deadline, window, past⟩
            · simp [past] at final
      · intro conditions
        rcases conditions with ⟨deadline, window, past⟩
        exact ⟨some deadline, window, by simp [past]⟩
  | _ => simp

theorem phaseAt_eq_winnersProposed :
    r.phaseAt now = .ok .winnersProposed ↔ r.phase = .winnersProposed ∧
      ∃ deadline, r.challengeDeadline = .ok deadline ∧ ∀ last ∈ deadline, now ≤ last := by
  rw [phaseAt_eq_ok]
  cases r.phase with
  | running => by_cases early : now < r.startTime <;> simp [early]
  | winnersProposed =>
      simp only [true_and]
      refine exists_congr fun deadline => and_congr_right fun _ => ?_
      cases deadline with
      | none => simp
      | some last => by_cases past : last < now <;> simp_all
  | _ => simp

theorem requirePhase_eq_ok {expected : Phase} {u : Unit} :
    r.requirePhase now expected = .ok u ↔ r.phaseAt now = .ok expected := by
  simp [requirePhase, bind_eq_ok]

/-- Bids are taken: the round has started and its deadline lies ahead. -/
structure OpenAt (r : Auction) (now : UInt64) : Prop where
  running : r.phase = .running
  started : r.startTime ≤ now
  ahead : now.toNat < r.startTime.toNat + r.settings.duration.toNat
  fits : r.startTime.toNat + r.settings.duration.toNat < UInt64.size

theorem requireOpen_eq_ok {u : Unit} : r.requireOpen now = .ok u ↔ r.OpenAt now := by
  simp only [requireOpen, bind_eq_ok, lift_eq_ok]
  constructor
  · intro accepted
    rcases accepted with ⟨phase, effective, permitted⟩
    cases phase with
    | running =>
        obtain ⟨running, started⟩ := phaseAt_eq_running.mp effective
        obtain ⟨deadline, sum, ahead⟩ := bind_eq_ok.mp permitted
        rw [lift_eq_ok, deadline_eq_ok] at sum
        rw [ensure_eq_ok, UInt64.lt_iff_toNat_lt] at ahead
        exact ⟨running, started, sum ▸ ahead, sum ▸ deadline.toNat_lt⟩
    | _ => simp [reject] at permitted
  · intro conditions
    rcases conditions with ⟨running, started, ahead, fits⟩
    refine ⟨.running, phaseAt_eq_running.mpr ⟨running, started⟩, bind_eq_ok.mpr ?_⟩
    have sum := UInt64.toNat_ofNat_of_lt' fits
    refine ⟨_, lift_eq_ok.mpr (deadline_eq_ok.mpr sum), ensure_eq_ok.mpr ?_⟩
    rw [UInt64.lt_iff_toNat_lt, sum]
    exact ahead

theorem relativeTime_eq_ok {timestamp : UInt32} :
    r.relativeTime now = .ok timestamp ↔
      timestamp.toNat = now.toNat - r.startTime.toNat := by
  have bound := timestamp.toNat_lt
  simp only [relativeTime, saturatingSub_toNat]
  split
  · rename_i fits
    rw [Except.ok.injEq, ← UInt32.toNat_inj, UInt64.toNat_toUInt32, saturatingSub_toNat,
      Nat.mod_eq_of_lt fits]
    exact eq_comm
  · rename_i large
    simp only [reject, reduceCtorEq, false_iff]
    simp only [UInt32.size] at large
    omega

end Auction

/-- An amount that may be bid or added: a positive multiple of the precision. -/
structure Settings.Precise (s : Settings) (amount : UInt64) : Prop where
  positive : 0 < amount.toNat
  unit : 0 < s.bidPrecision.toNat
  multiple : s.bidPrecision.toNat ∣ amount.toNat

theorem UInt64.pos_iff_ne_zero {x : UInt64} : 0 < x.toNat ↔ x ≠ 0 := by
  rw [Nat.pos_iff_ne_zero, ne_eq, ← UInt64.toNat_zero, UInt64.toNat_inj]

theorem Settings.requirePrecision_eq_ok {s : Settings} {amount : UInt64} {u : Unit} :
    s.requirePrecision amount = .ok u ↔ s.Precise amount := by
  simp only [requirePrecision, bind_eq_ok, ensure_eq_ok, lift_eq_ok, exactMod, exists_const]
  constructor
  · intro accepted
    rcases accepted with ⟨nonzero, rest, remainder, exact⟩
    split at remainder
    · cases remainder
    · rename_i unit
      cases remainder
      refine ⟨UInt64.pos_iff_ne_zero.mpr nonzero, UInt64.pos_iff_ne_zero.mpr unit, ?_⟩
      rw [← UInt64.toNat_inj, UInt64.toNat_mod] at exact
      exact Nat.dvd_of_mod_eq_zero exact
  · intro conditions
    rcases conditions with ⟨positive, unit, multiple⟩
    refine ⟨UInt64.pos_iff_ne_zero.mp positive, amount % s.bidPrecision, ?_, ?_⟩
    · rw [if_neg (UInt64.pos_iff_ne_zero.mp unit)]
    · rw [← UInt64.toNat_inj, UInt64.toNat_mod]
      exact Nat.mod_eq_zero_of_dvd multiple

namespace Auction

/-- A round takes a new bid. -/
structure TakesBid (r : Auction) (bids : Ledger) (ctx : Context) (amount : UInt64)
    (timestamp : UInt32) (proceeds : UInt64) : Prop where
  isOpen : r.OpenAt ctx.now
  value : ctx.value = amount
  precise : r.settings.Precise amount
  enough : r.minBid ≤ amount
  room : bids.size < r.settings.indexWidth.capacity
  timed : timestamp.toNat = ctx.now.toNat - r.startTime.toNat
  pooled : proceeds.toNat = r.proceeds.toNat + amount.toNat

/-- A round takes an addition to a bid. -/
structure TakesRaise (r : Auction) (bids : Ledger) (ctx : Context) (index : UInt32)
    (added : UInt64) (bid : Bid) (amount : UInt64) (timestamp : UInt32) (proceeds : UInt64) :
    Prop where
  isOpen : r.OpenAt ctx.now
  value : ctx.value = added
  precise : r.settings.Precise added
  found : bids[index.toNat]? = some bid
  owner : bid.bidder = ctx.sender
  raised : amount.toNat = bid.amount.toNat + added.toNat
  timed : timestamp.toNat = ctx.now.toNat - r.startTime.toNat
  pooled : proceeds.toNat = r.proceeds.toNat + added.toNat

end Auction

namespace House

variable {h : House} {ctx : Context} {id : UInt64} {plan : Plan}

theorem requireAuction_eq_ok {r : Auction} :
    h.requireAuction id = .ok r ↔ h.auction? id = some r := demand_eq_ok

theorem placeBid_eq_ok {amount : UInt64} :
    h.placeBid ctx id amount = .ok plan ↔
      ∃ r timestamp proceeds, h.auction? id = some r ∧
        r.TakesBid (h.ledger id) ctx amount timestamp proceeds ∧
        plan = .change
          (.placed id (h.ledger id).size ⟨ctx.sender, timestamp, amount, false⟩ proceeds)
          (.bidPlaced (UInt32.ofNat (h.ledger id).size)) := by
  simp only [placeBid, bind_eq_ok, requireAuction_eq_ok, Auction.requireOpen_eq_ok,
    Context.requireValue, ensure_eq_ok, Settings.requirePrecision_eq_ok, exists_const,
    Auction.relativeTime_eq_ok, demand_eq_ok, checkedAdd_eq_some, pure, Except.pure,
    Except.ok.injEq]
  constructor
  · intro accepted
    rcases accepted with
      ⟨r, found, isOpen, value, precise, enough, room, timestamp, timed, proceeds, pooled, rfl⟩
    exact ⟨r, timestamp, proceeds, found,
      ⟨isOpen, value, precise, enough, room, timed, pooled⟩, rfl⟩
  · intro conditions
    rcases conditions with ⟨r, timestamp, proceeds, found, g, rfl⟩
    exact ⟨r, found, g.isOpen, g.value, g.precise, g.enough, g.room, timestamp, g.timed, proceeds,
      g.pooled, rfl⟩

theorem increaseBid_eq_ok {index : UInt32} {added : UInt64} :
    h.increaseBid ctx id index added = .ok plan ↔
      ∃ r bid amount timestamp proceeds, h.auction? id = some r ∧
        r.TakesRaise (h.ledger id) ctx index added bid amount timestamp proceeds ∧
        plan = .change (.raised id index amount timestamp proceeds) (.bidIncreased amount) := by
  simp only [increaseBid, bind_eq_ok, requireAuction_eq_ok, Auction.requireOpen_eq_ok,
    Context.requireValue, ensure_eq_ok, Settings.requirePrecision_eq_ok, exists_const, bid?,
    Auction.relativeTime_eq_ok, demand_eq_ok, checkedAdd_eq_some, pure, Except.pure,
    Except.ok.injEq]
  constructor
  · intro accepted
    rcases accepted with
      ⟨r, found, isOpen, value, precise, bid, entry, owner, amount, raised, proceeds, pooled,
        timestamp, timed, rfl⟩
    exact ⟨r, bid, amount, timestamp, proceeds, found,
      ⟨isOpen, value, precise, entry, owner, raised, timed, pooled⟩, rfl⟩
  · intro conditions
    rcases conditions with ⟨r, bid, amount, timestamp, proceeds, found, g, rfl⟩
    exact ⟨r, found, g.isOpen, g.value, g.precise, bid, g.found, g.owner, amount, g.raised,
      proceeds, g.pooled, timestamp, g.timed, rfl⟩

end House

end CandleAuction
