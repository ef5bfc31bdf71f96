import CandleAuction.Proofs.Settings
import CandleAuction.Proofs.Solvency

/-!
# When a rule faults

A rule stops the program only where a deadline does not fit into a word: that of
a round which still takes bids, or that of a live proposal's challenge window.
Every other sum, product and remainder of a rule fits, as the settings are valid
and the rounds coherent.
-/

namespace CandleAuction

open Ruling

variable {fault : Fault} {now : UInt64}

namespace Auction

variable {r : Auction}

/-- A live proposal whose challenge window ends after the last time there is. -/
def Endless (r : Auction) : Prop :=
  r.phase = .winnersProposed ∧ ∃ p ∈ r.proposal,
    UInt64.size ≤ p.timestamp.toNat + r.settings.fraudPeriod.toNat

/-- The deadline of a round fits into a word. -/
def Bounded (r : Auction) : Prop :=
  r.startTime.toNat + r.settings.duration.toNat < UInt64.size

/-- A round that takes bids although its deadline comes after the last time there is. -/
def Unbounded (r : Auction) (now : UInt64) : Prop :=
  r.phaseAt now = .ok .running ∧ UInt64.size ≤ r.startTime.toNat + r.settings.duration.toNat

theorem Bounded.draw (fits : r.Bounded) (valid : r.settings.Valid) (word : Word) :
    ∃ offset closeTime, r.settings.closeOffset word = .ok offset ∧
      exactAdd r.startTime offset.toUInt64 = .ok closeTime := by
  obtain ⟨opening, offset, -, drawn, -, within⟩ := valid.closeOffset word
  have sum := UInt64.toNat_ofNat_of_lt' (n := r.startTime.toNat + offset.toUInt64.toNat)
    (by rw [UInt32.toNat_toUInt64]; unfold Bounded at fits; omega)
  exact ⟨offset, _, drawn, exactAdd_eq_ok.mpr sum⟩

theorem phaseAt_eq_error : r.phaseAt now = .error fault ↔ fault = .addition ∧ r.Endless := by
  unfold phaseAt Endless challengeDeadline
  cases stored : r.phase with
  | winnersProposed =>
      cases r.proposal with
      | none => simp [bind, Except.bind, pure, Except.pure]
      | some p =>
          cases sum : exactAdd p.timestamp r.settings.fraudPeriod with
          | error cause =>
              obtain ⟨rfl, large⟩ := exactAdd_eq_error.mp sum
              simp [sum, bind, Except.bind, large, eq_comm]
          | ok deadline =>
              have fits := exactAdd_eq_ok.mp sum ▸ deadline.toNat_lt
              simpa [sum, bind, Except.bind, pure, Except.pure] using fun _ => fits
  | _ => simp

theorem deadline_eq_error :
    r.deadline = .error fault ↔
      fault = .addition ∧ UInt64.size ≤ r.startTime.toNat + r.settings.duration.toNat :=
  exactAdd_eq_error

theorem requirePhase_eq_fault {expected : Phase} :
    r.requirePhase now expected = .error (.fault fault) ↔ fault = .addition ∧ r.Endless := by
  simp [requirePhase, bind_eq_error, phaseAt_eq_error]

theorem requireOpen_eq_fault :
    r.requireOpen now = .error (.fault fault) ↔
      fault = .addition ∧ (r.Endless ∨ r.Unbounded now) := by
  simp only [requireOpen, bind_eq_error, lift_eq_error, phaseAt_eq_error, Halt.fault.injEq,
    exists_eq_right, lift_eq_ok, and_or_left]
  refine or_congr_right ⟨?_, ?_⟩
  · rintro ⟨phase, effective, stopped⟩
    cases phase with
    | running =>
        simp [bind_eq_error, deadline_eq_error] at stopped
        exact ⟨stopped.1, effective, stopped.2⟩
    | _ => cases stopped
  · rintro ⟨rfl, effective, large⟩
    exact ⟨.running, effective, by simp [bind_eq_error, deadline_eq_error, large]⟩

theorem requireChallengeable_eq_fault :
    r.requireChallengeable now = .error (.fault fault) ↔ fault = .addition ∧ r.Endless := by
  simp only [requireChallengeable, bind_eq_error, lift_eq_error, phaseAt_eq_error,
    Halt.fault.injEq, exists_eq_right, lift_eq_ok, or_iff_left_iff_imp]
  rintro ⟨phase, -, stopped⟩
  cases phase <;> cases stopped

theorem relativeTime_ne_fault : r.relativeTime now ≠ .error (.fault fault) := by
  unfold relativeTime
  dsimp only
  split <;> simp [reject]

end Auction

theorem Settings.Valid.requirePrecision_ne_fault {s : Settings} {amount : UInt64}
    (valid : s.Valid) : s.requirePrecision amount ≠ .error (.fault fault) := by
  simp [requirePrecision, bind_eq_error, exactMod, valid.precision_ne]

namespace House

variable {h : House} {ctx : Context} {id : UInt64} {encoding : List UInt8}

theorem requireFreeSlot_eq_fault :
    h.requireFreeSlot now id = .error (.fault fault) ↔
      fault = .addition ∧ ∃ previous ∈ h.previous? id, previous.Endless := by
  unfold requireFreeSlot
  cases h.previous? id <;> simp [bind_eq_error, Auction.phaseAt_eq_error]

theorem requireAuction_ne_fault : h.requireAuction id ≠ .error (.fault fault) := by
  simp [requireAuction]

theorem requireAuction_bind_eq_fault {α : Type} {next : Auction → Ruling α}
    {cause : Auction → Prop}
    (stops : ∀ r, h.auction? id = some r →
      (next r = .error (.fault fault) ↔ fault = .addition ∧ cause r)) :
    (h.requireAuction id >>= next) = .error (.fault fault) ↔
      fault = .addition ∧ ∃ r, h.auction? id = some r ∧ cause r := by
  simp only [bind_eq_error, requireAuction_ne_fault, requireAuction_eq_ok, false_or]
  constructor
  · rintro ⟨r, found, stopped⟩
    obtain ⟨rfl, reason⟩ := (stops r found).mp stopped
    exact ⟨rfl, r, found, reason⟩
  · rintro ⟨rfl, r, found, reason⟩
    exact ⟨r, found, (stops r found).mpr ⟨rfl, reason⟩⟩

theorem payout_ne_fault {recipient : Address} {fromProceeds fromDeposit : UInt64} :
    h.payout id recipient fromProceeds fromDeposit ≠ .error (.fault fault) := by
  simp [payout, bind_eq_error, requireAuction, pure, Except.pure]

theorem finalized_eq_fault :
    h.finalized now id = .error (.fault fault) ↔
      fault = .addition ∧ ∃ r, h.auction? id = some r ∧ r.Endless := by
  refine requireAuction_bind_eq_fault fun r _ => ?_
  simp only [bind_eq_error, Auction.requirePhase_eq_fault, or_iff_left_iff_imp]
  simp [pure, Except.pure]

theorem finalWinners_eq_fault :
    h.finalWinners now id encoding = .error (.fault fault) ↔
      fault = .addition ∧ ∃ r, h.auction? id = some r ∧ r.Endless := by
  simp only [finalWinners, bind_eq_error, finalized_eq_fault, or_iff_left_iff_imp]
  simp

/-- A bid stops in the checks that both rules of bidding open with, or nowhere. -/
theorem bidding_eq_fault {α : Type} {amount : UInt64} {next : Auction → Ruling α}
    (coherent : h.Coherent) (runs : ∀ r, next r ≠ .error (.fault fault)) :
    (do
      let r ← h.requireAuction id
      r.requireOpen ctx.now
      ctx.requireValue amount
      r.settings.requirePrecision amount
      next r) = .error (.fault fault) ↔
      fault = .addition ∧ ∃ r, h.auction? id = some r ∧ (r.Endless ∨ r.Unbounded ctx.now) := by
  refine requireAuction_bind_eq_fault fun r found => ?_
  have valid := (coherent.rounds id r found).valid
  simp only [bind_eq_error, Auction.requireOpen_eq_fault, or_iff_left_iff_imp]
  simp [Context.requireValue, valid.requirePrecision_ne_fault, runs r]

theorem placeBid_eq_fault {amount : UInt64} (coherent : h.Coherent) :
    h.placeBid ctx id amount = .error (.fault fault) ↔
      fault = .addition ∧ ∃ r, h.auction? id = some r ∧ (r.Endless ∨ r.Unbounded ctx.now) :=
  bidding_eq_fault coherent fun r => by
    simp [bind_eq_error, Auction.relativeTime_ne_fault, pure, Except.pure]

theorem increaseBid_eq_fault {index : UInt32} {added : UInt64} (coherent : h.Coherent) :
    h.increaseBid ctx id index added = .error (.fault fault) ↔
      fault = .addition ∧ ∃ r, h.auction? id = some r ∧ (r.Endless ∨ r.Unbounded ctx.now) :=
  bidding_eq_fault coherent fun r => by
    simp [bind_eq_error, Auction.relativeTime_ne_fault, pure, Except.pure]

/-- Once its own round may be closed, a closing reads the phase of the round before. -/
theorem snuff_eq_fault {settlementGas : UInt64} :
    h.snuff ctx settlementGas id = .error (.fault fault) ↔
      fault = .addition ∧ ∃ r, h.auction? id = some r ∧ (r.Endless ∨ r.Unbounded ctx.now ∨
        r.Closes ctx.now ∧ ∃ previous ∈ h.previous? id, previous.Endless) := by
  refine requireAuction_bind_eq_fault fun r _ => ?_
  simp only [bind_eq_error, Auction.requirePhase_eq_fault, Auction.requirePhase_eq_ok,
    lift_eq_error, lift_eq_ok, Auction.deadline_eq_error, requireFreeSlot_eq_fault,
    Halt.fault.injEq, exists_eq_right, ensure_eq_error, ensure_eq_ok, reduceCtorEq, and_false,
    exists_const, false_or]
  constructor
  · rintro (⟨rfl, endless⟩ | ⟨running, ⟨rfl, large⟩ | ⟨deadline, sum, ended, stopped⟩⟩)
    · exact ⟨rfl, .inl endless⟩
    · exact ⟨rfl, .inr (.inl ⟨running, large⟩)⟩
    · rcases stopped with ⟨rfl, preceding⟩ | ⟨_, -, stopped⟩
      · obtain ⟨stored, started⟩ := Auction.phaseAt_eq_running.mp running
        rw [UInt64.le_iff_toNat_le, Auction.deadline_eq_ok.mp sum] at ended
        exact ⟨rfl, .inr (.inr ⟨⟨stored, started, ended⟩, preceding⟩)⟩
      · split at stopped <;> cases stopped
  · rintro ⟨rfl, endless | ⟨running, large⟩ | ⟨closes, preceding⟩⟩
    · exact .inl ⟨rfl, endless⟩
    · exact .inr ⟨running, .inl ⟨rfl, large⟩⟩
    · have sum := UInt64.toNat_ofNat_of_lt' (Nat.lt_of_le_of_lt closes.ended ctx.now.toNat_lt)
      refine .inr ⟨Auction.phaseAt_eq_running.mpr ⟨closes.running, closes.started⟩, .inr
        ⟨_, Auction.deadline_eq_ok.mpr sum, ?_, .inl ⟨rfl, preceding⟩⟩⟩
      rw [UInt64.le_iff_toNat_le, sum]
      exact closes.ended

theorem fulfillRandomness_ne_fault {request : UInt64} {word : Word} (coherent : h.Coherent)
    (closed : h.Each fun r _ => r.phase ≠ .running → r.Bounded) :
    h.fulfillRandomness ctx request word ≠ .error (.fault fault) := by
  simp only [fulfillRandomness, ne_eq, bind_eq_error, requireAuction_ne_fault,
    requireAuction_eq_ok, lift_eq_error, lift_eq_ok, ensure_eq_error, ensure_eq_ok,
    demand_eq_error, reduceCtorEq, and_false, false_or, exists_const, not_exists, not_and, not_or]
  intro _ id _ r found waiting _
  have fits : r.Bounded := closed id r found (by simp [waiting.1])
  obtain ⟨close, closeTime, drawn, timed⟩ := fits.draw (coherent.rounds id r found).valid word
  refine ⟨by simp [drawn], fun offset same => ?_⟩
  cases drawn.symm.trans same
  split
  · rw [timed]
    intro stopped
    cases stopped
  · intro stopped
    cases stopped

theorem proposeWinners_eq_fault {posted : Word} {total : UInt64} :
    h.proposeWinners ctx id encoding posted total = .error (.fault fault) ↔
      fault = .addition ∧ ∃ r, h.auction? id = some r ∧ r.Endless := by
  refine requireAuction_bind_eq_fault fun r _ => ?_
  simp only [bind_eq_error, Auction.requirePhase_eq_fault, or_iff_left_iff_imp]
  simp [pure, Except.pure]

theorem challenge_eq_fault {claimed : Word} {disputed : UInt32} :
    h.challenge ctx id encoding claimed disputed = .error (.fault fault) ↔
      fault = .addition ∧ ∃ r, h.auction? id = some r ∧ r.Endless := by
  refine requireAuction_bind_eq_fault fun r _ => ?_
  simp only [bind_eq_error, Auction.requireChallengeable_eq_fault, or_iff_left_iff_imp]
  simp [pure, Except.pure]

theorem claimWinningBid_eq_fault {position : UInt32} :
    h.claimWinningBid ctx id encoding position = .error (.fault fault) ↔
      fault = .addition ∧ ∃ r, h.auction? id = some r ∧ r.Endless := by
  simp only [claimWinningBid, bind_eq_error, finalWinners_eq_fault, requireAuction_ne_fault,
    or_iff_left_iff_imp]
  simp [pure, Except.pure]

theorem withdrawBid_eq_fault {index : UInt32} :
    h.withdrawBid ctx id encoding index = .error (.fault fault) ↔
      fault = .addition ∧ ∃ r, h.auction? id = some r ∧ r.Endless := by
  simp only [withdrawBid, bind_eq_error, finalWinners_eq_fault, payout_ne_fault,
    or_iff_left_iff_imp]
  simp [pure, Except.pure]

theorem claimSnuffBounty_eq_fault :
    h.claimSnuffBounty ctx id = .error (.fault fault) ↔
      fault = .addition ∧ ∃ r, h.auction? id = some r ∧ r.Endless := by
  simp only [claimSnuffBounty, bind_eq_error, finalized_eq_fault, payout_ne_fault,
    or_iff_left_iff_imp]
  simp [pure, Except.pure]

/-- What is paid to the proposer is no more than the balance that it has been added to. -/
theorem claimProposalBounty_eq_fault :
    h.claimProposalBounty ctx id = .error (.fault fault) ↔
      fault = .addition ∧ ∃ r, h.auction? id = some r ∧ r.Endless := by
  simp only [claimProposalBounty, bind_eq_error, finalized_eq_fault, payout_ne_fault,
    payout_eq_ok, lift_eq_error, exactAdd_eq_error, or_iff_left_iff_imp]
  simp only [ensure_eq_error, reduceCtorEq, and_false, false_or, pure, Except.pure, exists_false,
    or_false, forall_exists_index, and_imp]
  intro _ _ _ _ payout r _ pays cause _ large
  have credited := pays.credited
  have fits := payout.balance.toNat_lt
  simp only [UInt64.size] at large
  omega

theorem transferProceeds_eq_fault (coherent : h.Coherent) :
    h.transferProceeds ctx id = .error (.fault fault) ↔
      fault = .addition ∧ ∃ r, h.auction? id = some r ∧ r.Endless := by
  simp only [transferProceeds, bind_eq_error, finalized_eq_fault, payout_ne_fault, Prod.exists,
    finalized_eq_ok, lift_eq_error, exactAdd_eq_error, or_iff_left_iff_imp]
  simp only [ensure_eq_error, reduceCtorEq, and_false, false_or, pure, Except.pure, exists_false,
    or_false, forall_exists_index, and_imp]
  intro r p found settles _ _ cause _ large
  have covered := (coherent.rounds id r found).bounties_le settles.live
  have fits := p.total.toNat_lt
  simp only [UInt64.size] at large
  omega

theorem updateSettings_ne_fault {settings : Settings} :
    h.updateSettings ctx settings ≠ .error (.fault fault) := by
  unfold updateSettings
  cases settings.problem? <;> simp [bind_eq_error, reject, pure, Except.pure]

end House

/-- The round whose deadline decides about a bid or a closing. -/
def Call.bidding? : Call → Option UInt64
  | placeBid id _ | increaseBid id .. | snuff id => some id
  | _ => none

/-- The phases that a call is decided by: that of the round it names and, for a closing, that of
the round before. -/
inductive House.Reads (h : House) (now : UInt64) : Call → Auction → Prop
  | named {call id r} : call.round? = some id → h.auction? id = some r → Reads h now call r
  | preceding {id r previous} :
      h.auction? id = some r → r.Closes now → h.previous? id = some previous →
      Reads h now (.snuff id) previous

/-- The calls that stop the program: the end of bidding, the end of a challenge window or the
number of the next round would have to be larger than every word. -/
inductive House.Stops (h : House) (ctx : Context) (c : Collaborators) : Call → Prop
  | bidding {call id r} :
      call.bidding? = some id → h.auction? id = some r → r.Unbounded ctx.now →
      Stops h ctx c call
  | window {call r} : h.Reads ctx.now call r → r.Endless → Stops h ctx c call
  | numbers {id r} :
      h.auction? id = some r → r.Closes ctx.now → h.FreeSlot ctx.now id →
      ((h.ledger id).isEmpty = true ∨
        ∃ request, c.request (Seed.randomness id r.startTime) = .ok request) →
      h.nextId.toNat + 1 = UInt64.size →
      Stops h ctx c (.snuff id)

/-- A plan stops after it has been permitted and its question been answered. -/
def Plan.Stops (plan : Plan) (c : Collaborators) (fault : Fault) : Prop :=
  match plan with
  | .act effect => effect.result = .error fault
  | .ask inquiry next => ∃ answer, c.answer inquiry = .ok answer ∧
      (next answer).result = .error fault

@[simp]
theorem Plan.not_stops_change {change : Change} {outcome : Outcome} {c : Collaborators} :
    ¬ (Plan.change change outcome).Stops c fault := nofun

namespace House

variable {h : House} {ctx : Context} {c : Collaborators} {call : Call} {id : UInt64}

theorem dispatch_eq_fault :
    (h.dispatch ctx c call).result = .error (.fault fault) ↔
      h.plan ctx c.settlementGas call = .error (.fault fault) ∨
        ∃ plan, h.plan ctx c.settlementGas call = .ok plan ∧ plan.Stops c fault := by
  have performed : ∀ {effect asked}, (h.perform ctx effect asked).result =
      .error (.fault fault) ↔ effect.result = .error fault := by
    intro effect asked
    simp only [perform]
    cases effect.result <;> simp [exactly]
  cases planned : h.plan ctx c.settlementGas call with
  | error halt => simp [dispatch, planned]
  | ok plan =>
      cases plan with
      | act effect => simp [dispatch, planned, performed, Plan.Stops]
      | ask inquiry next =>
          cases answered : c.answer inquiry with
          | error error =>
              rw [dispatch_of_declined planned answered]
              simp [Plan.Stops, answered, reject]
          | ok answer =>
              rw [dispatch_of_ask planned answered]
              simp [Plan.Stops, answered, performed]

/-- The end of a live challenge window is needed by every call that names the round. -/
theorem plan_of_endless {settlementGas : UInt64} {r : Auction} (coherent : h.Coherent)
    (about : call.round? = some id) (found : h.auction? id = some r) (endless : r.Endless) :
    h.plan ctx settlementGas call = .error (.fault .addition) := by
  have reads : ∃ r, h.auction? id = some r ∧ r.Endless := ⟨r, found, endless⟩
  cases call <;> cases about
  case placeBid => exact (placeBid_eq_fault coherent).mpr ⟨rfl, r, found, .inl endless⟩
  case increaseBid => exact (increaseBid_eq_fault coherent).mpr ⟨rfl, r, found, .inl endless⟩
  case snuff => exact snuff_eq_fault.mpr ⟨rfl, r, found, .inl endless⟩
  case proposeWinners => exact proposeWinners_eq_fault.mpr ⟨rfl, reads⟩
  case challenge => exact challenge_eq_fault.mpr ⟨rfl, reads⟩
  case claimWinningBid => exact claimWinningBid_eq_fault.mpr ⟨rfl, reads⟩
  case withdrawBid => exact withdrawBid_eq_fault.mpr ⟨rfl, reads⟩
  case claimSnuffBounty => exact claimSnuffBounty_eq_fault.mpr ⟨rfl, reads⟩
  case claimProposalBounty => exact claimProposalBounty_eq_fault.mpr ⟨rfl, reads⟩
  case transferProceeds => exact (transferProceeds_eq_fault coherent).mpr ⟨rfl, reads⟩

theorem plan_of_unbounded {settlementGas : UInt64} {r : Auction} (coherent : h.Coherent)
    (about : call.bidding? = some id) (found : h.auction? id = some r)
    (unbounded : r.Unbounded ctx.now) :
    h.plan ctx settlementGas call = .error (.fault .addition) := by
  cases call <;> cases about
  case placeBid => exact (placeBid_eq_fault coherent).mpr ⟨rfl, r, found, .inr unbounded⟩
  case increaseBid => exact (increaseBid_eq_fault coherent).mpr ⟨rfl, r, found, .inr unbounded⟩
  case snuff => exact snuff_eq_fault.mpr ⟨rfl, r, found, .inr (.inl unbounded)⟩

theorem stops_of_plan {settlementGas : UInt64} (coherent : h.Coherent)
    (closed : h.Each fun r _ => r.phase ≠ .running → r.Bounded)
    (stopped : h.plan ctx settlementGas call = .error (.fault fault)) :
    fault = .addition ∧ h.Stops ctx c call := by
  have window : ∀ {id}, call.round? = some id →
      (fault = .addition ∧ ∃ r, h.auction? id = some r ∧ r.Endless) →
      fault = .addition ∧ h.Stops ctx c call := by
    rintro id about ⟨cause, r, found, endless⟩
    exact ⟨cause, .window (.named about found) endless⟩
  have bidding : ∀ {id}, call.bidding? = some id → call.round? = some id →
      (fault = .addition ∧ ∃ r, h.auction? id = some r ∧ (r.Endless ∨ r.Unbounded ctx.now)) →
      fault = .addition ∧ h.Stops ctx c call := by
    rintro id timed about ⟨cause, r, found, endless | unbounded⟩
    · exact ⟨cause, .window (.named about found) endless⟩
    · exact ⟨cause, .bidding timed found unbounded⟩
  cases call with
  | placeBid => exact bidding rfl rfl ((placeBid_eq_fault coherent).mp stopped)
  | increaseBid => exact bidding rfl rfl ((increaseBid_eq_fault coherent).mp stopped)
  | snuff =>
      obtain ⟨cause, r, found, endless | unbounded | ⟨closes, previous, preceding, endless⟩⟩ :=
        snuff_eq_fault.mp stopped
      · exact ⟨cause, .window (.named rfl found) endless⟩
      · exact ⟨cause, .bidding rfl found unbounded⟩
      · exact ⟨cause, .window (.preceding found closes preceding) endless⟩
  | fulfillRandomness => exact absurd stopped (fulfillRandomness_ne_fault coherent closed)
  | proposeWinners => exact window rfl (proposeWinners_eq_fault.mp stopped)
  | challenge => exact window rfl (challenge_eq_fault.mp stopped)
  | claimWinningBid => exact window rfl (claimWinningBid_eq_fault.mp stopped)
  | withdrawBid => exact window rfl (withdrawBid_eq_fault.mp stopped)
  | claimSnuffBounty => exact window rfl (claimSnuffBounty_eq_fault.mp stopped)
  | claimProposalBounty => exact window rfl (claimProposalBounty_eq_fault.mp stopped)
  | transferProceeds => exact window rfl ((transferProceeds_eq_fault coherent).mp stopped)
  | updateSettings => exact absurd stopped updateSettings_ne_fault

theorem closeAndReopen_eq_fault {settlementGas : UInt64} {request : Option UInt64} :
    (h.closeAndReopen ctx settlementGas id request).result = .error fault ↔
      fault = .addition ∧ h.nextId.toNat + 1 = UInt64.size := by
  have last := h.nextId.toNat_lt
  unfold closeAndReopen
  dsimp only
  split
  · rename_i stopped
    obtain ⟨rfl, large⟩ := exactAdd_eq_error.mp stopped
    rw [UInt64.toNat_one] at large
    simp only [UInt64.size] at large ⊢
    simp only [Except.error.injEq, eq_comm (b := fault), iff_self_and]
    omega
  · rename_i nextId sum
    have fits := exactAdd_eq_ok.mp sum ▸ nextId.toNat_lt
    rw [UInt64.toNat_one] at fits
    simp only [reduceCtorEq, false_iff, not_and, UInt64.size]
    omega

theorem stops_closing_iff {settlementGas : UInt64} {inquiry : Inquiry} {word : Word}
    (asks : inquiry = .randomness word) :
    (if (h.ledger id).isEmpty then Plan.act (h.closeAndReopen ctx settlementGas id none)
      else .ask inquiry fun request => h.closeAndReopen ctx settlementGas id (some request)).Stops
        c fault ↔
      ((h.ledger id).isEmpty = true ∨ ∃ request, c.request word = .ok request) ∧
        fault = .addition ∧ h.nextId.toNat + 1 = UInt64.size := by
  subst asks
  cases (h.ledger id).isEmpty <;>
    simp [Plan.Stops, closeAndReopen_eq_fault, Collaborators.answer]

theorem stops_of_planned {plan : Plan}
    (counted : h.Each fun r _ => r.claimedWinners.toNat + 1 < UInt32.size)
    (planned : h.plan ctx c.settlementGas call = .ok plan) (stopped : plan.Stops c fault) :
    fault = .addition ∧ h.Stops ctx c call := by
  cases call with
  | snuff id =>
      obtain ⟨r, found, closes, free, rfl⟩ := snuff_eq_ok.mp planned
      obtain ⟨answered, cause, last⟩ := (stops_closing_iff rfl).mp stopped
      exact ⟨cause, .numbers found closes free answered last⟩
  | claimWinningBid =>
      obtain ⟨r, _, _, _, _, _, found, -, rfl⟩ := claimWinningBid_eq_ok.mp planned
      obtain ⟨item, -, stopped⟩ := stopped
      have count : (UInt32.ofNat (r.claimedWinners.toNat + 1)).toNat = r.claimedWinners.toNat + 1 :=
        UInt32.toNat_ofNat_of_lt' (counted _ r found)
      rw [exactSucc_eq_ok.mpr count] at stopped
      cases stopped
  | placeBid =>
      obtain ⟨_, _, _, -, -, rfl⟩ := placeBid_eq_ok.mp planned
      cases stopped
  | increaseBid =>
      obtain ⟨_, _, _, _, _, -, -, rfl⟩ := increaseBid_eq_ok.mp planned
      cases stopped
  | fulfillRandomness =>
      obtain ⟨_, _, _, _, -, -, -, -, rfl⟩ := fulfillRandomness_eq_ok.mp planned
      cases stopped
  | proposeWinners =>
      obtain ⟨_, _, _, -, -, rfl⟩ := proposeWinners_eq_ok.mp planned
      cases stopped
  | challenge =>
      obtain ⟨_, _, _, _, _, _, _, -, -, -, rfl⟩ := challenge_eq_ok.mp planned
      cases stopped
  | withdrawBid =>
      obtain ⟨_, _, _, _, _, _, -, -, -, rfl⟩ := withdrawBid_eq_ok.mp planned
      cases stopped
  | claimSnuffBounty =>
      obtain ⟨_, _, _, _, -, -, -, -, -, rfl⟩ := claimSnuffBounty_eq_ok.mp planned
      cases stopped
  | claimProposalBounty =>
      obtain ⟨_, _, _, _, -, -, -, -, -, rfl⟩ := claimProposalBounty_eq_ok.mp planned
      cases stopped
  | transferProceeds =>
      obtain ⟨_, _, _, _, -, -, -, -, -, rfl⟩ := transferProceeds_eq_ok.mp planned
      cases stopped
  | updateSettings =>
      obtain ⟨-, -, rfl⟩ := updateSettings_eq_ok.mp planned
      cases stopped

theorem dispatch_stops_iff (coherent : h.Coherent)
    (closed : h.Each fun r _ => r.phase ≠ .running → r.Bounded)
    (counted : h.Each fun r _ => r.claimedWinners.toNat + 1 < UInt32.size) :
    (h.dispatch ctx c call).result = .error (.fault fault) ↔
      fault = .addition ∧ h.Stops ctx c call := by
  rw [dispatch_eq_fault]
  constructor
  · rintro (stopped | ⟨plan, planned, stopped⟩)
    · exact stops_of_plan coherent closed stopped
    · exact stops_of_planned counted planned stopped
  · rintro ⟨rfl, stops⟩
    cases stops with
    | bidding about found unbounded => exact .inl (plan_of_unbounded coherent about found unbounded)
    | window reads endless =>
        cases reads with
        | named about found => exact .inl (plan_of_endless coherent about found endless)
        | preceding found closes preceding =>
            exact .inl (snuff_eq_fault.mpr
              ⟨rfl, _, found, .inr (.inr ⟨closes, _, preceding, endless⟩)⟩)
    | numbers found closes free answered last =>
        exact .inr ⟨_, snuff_eq_ok.mpr ⟨_, found, closes, free, rfl⟩,
          (stops_closing_iff rfl).mpr ⟨answered, rfl, last⟩⟩

end House

end CandleAuction
