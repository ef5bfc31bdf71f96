import CandleAuction.Proofs.History
import CandleAuction.Proofs.Ranking.Cleared

/-!
# What settlement touches

A final round changes by settlement only, and settlement moves money, flags
and the count of items. The record that decides the winners, the terms of the
proposal and the bids up to their settlement flags stay as they are, and so
does the phase at every time: a round that is final stays final.
-/

namespace CandleAuction

/-- What was proposed, without what has been paid since. -/
def Proposal.terms (p : Proposal) : Proposal :=
  { p with snuffBountyClaimed := false, proposalBountyClaimed := false }

namespace Call

/-- The calls that hand out items and money of a final round. -/
def settles : Call → Bool
  | claimWinningBid .. | withdrawBid .. | claimSnuffBounty _ | claimProposalBounty _
  | transferProceeds _ => true
  | _ => false

theorem exists_round_of_settles {call : Call} (settles : call.settles = true) :
    ∃ id, call.round? = some id := by
  cases call <;> first | exact ⟨_, rfl⟩ | cases settles

end Call

namespace Auction

variable {r r' r'' : Auction} {bids : Ledger} {ctx : Context} {call : Call} {change : Change}
  {outcome : Outcome} {now later : UInt64} {p : Proposal}

/-- The record without what proposals and settlement may still change. -/
def frozen (r : Auction) : Auction :=
  { r with
    phase := .waitingClose
    proposal := none
    proceeds := 0
    fundsMoved := false
    claimedWinners := 0 }

theorem eq_of_frozen (same : r'.frozen = r.frozen) :
    r'.settings = r.settings ∧ r'.entropy = r.entropy ∧ r'.closeOffset = r.closeOffset :=
  ⟨(congrArg Auction.settings same :), (congrArg Auction.entropy same :),
    (congrArg Auction.closeOffset same :)⟩

structure Settled (r r' : Auction) : Prop where
  frozen : r'.frozen = r.frozen
  phase : r'.phase = r.phase
  terms : r'.proposal.map Proposal.terms = r.proposal.map Proposal.terms

theorem Settled.refl : r.Settled r := ⟨rfl, rfl, rfl⟩

theorem Settled.symm (settled : r.Settled r') : r'.Settled r :=
  ⟨settled.frozen.symm, settled.phase.symm, settled.terms.symm⟩

theorem Settled.trans (first : r.Settled r') (second : r'.Settled r'') : r.Settled r'' :=
  ⟨second.frozen.trans first.frozen, second.phase.trans first.phase,
    second.terms.trans first.terms⟩

theorem Settled.live (settled : r.Settled r') (live : r.proposal = some p) :
    ∃ p', r'.proposal = some p' ∧ p'.terms = p.terms := by
  have terms := settled.terms
  rw [live, Option.map_some, Option.map_eq_some_iff] at terms
  exact terms

theorem Settled.challengeDeadline (settled : r.Settled r') :
    r'.challengeDeadline = r.challengeDeadline := by
  have terms := settled.terms
  unfold Auction.challengeDeadline
  rw [(eq_of_frozen settled.frozen).1]
  cases live : r.proposal with
  | none =>
      rw [live, Option.map_none, Option.map_eq_none_iff] at terms
      rw [terms]
  | some p =>
      obtain ⟨p', live', same⟩ := settled.live live
      have timestamp : p'.timestamp = p.timestamp := (congrArg Proposal.timestamp same :)
      rw [live']
      simp only [timestamp]

theorem Settled.phaseAt (settled : r.Settled r') : r'.phaseAt now = r.phaseAt now := by
  have started : r'.startTime = r.startTime := (congrArg Auction.startTime settled.frozen :)
  rw [Auction.phaseAt, Auction.phaseAt, settled.phase, settled.challengeDeadline, started]

theorem final_mono (final : r.phaseAt now = .ok .finalized) (le : now ≤ later) :
    r.phaseAt later = .ok .finalized := by
  rw [phaseAt_eq_finalized] at final ⊢
  refine final.imp_right fun ⟨proposed, deadline, window, passed⟩ => ?_
  exact ⟨proposed, deadline, window, UInt64.lt_of_lt_of_le passed le⟩

theorem Allows.settles (allowed : r.Allows bids ctx call change outcome)
    (final : r.phaseAt ctx.now = .ok .finalized) : call.settles = true := by
  have stored : r.phase = .finalized ∨ r.phase = .winnersProposed :=
    (phaseAt_eq_finalized.mp final).imp_right And.left
  cases allowed with
  | placed g => simp [g.isOpen.running] at stored
  | raised g => simp [g.isOpen.running] at stored
  | closed closes _ => simp [closes.running] at stored
  | drawn g => simp [g.waiting] at stored
  | proposed g => simp [g.waiting] at stored
  | overturned g => simp [g.inTime] at final
  | _ => rfl

theorem Allows.settles_eq_false (allowed : r.Allows bids ctx call change outcome)
    (notFinal : r.phaseAt ctx.now ≠ .ok .finalized) : call.settles = false := by
  cases allowed with
  | claimed g => exact absurd g.final notFinal
  | withdrawn g _ => exact absurd g.final notFinal
  | snuffBountyPaid g _ _ => exact absurd g.final notFinal
  | proposalBountyPaid g _ _ _ => exact absurd g.final notFinal
  | proceedsMoved g _ _ _ => exact absurd g.final notFinal
  | _ => rfl

theorem Allows.settled (allowed : r.Allows bids ctx call change outcome)
    (final : r.phaseAt ctx.now = .ok .finalized) :
    r.Settled (change.revise r) ∧ (change.enter bids).cleared = bids.cleared := by
  have settles := allowed.settles final
  cases allowed with
  | placed | raised | closed | drawn | proposed | overturned => cases settles
  | claimed | withdrawn => exact ⟨⟨rfl, rfl, rfl⟩, Ledger.cleared_modify_processed⟩
  | snuffBountyPaid | proposalBountyPaid =>
      refine ⟨⟨rfl, rfl, ?_⟩, rfl⟩
      rw [Change.revise, Option.map_map]
      rfl
  | proceedsMoved => exact ⟨⟨rfl, rfl, rfl⟩, rfl⟩

end Auction

namespace Run

variable {start h : House} {past : List Served} {id now : UInt64} {r : Auction}

/-- From the time at which a round is final, it is only settled. -/
theorem settled (run : Run start past h) (orderly : start.Orderly)
    (found : start.auction? id = some r) (final : r.phaseAt now = .ok .finalized)
    (after : ∀ s ∈ past, now ≤ s.now) :
    ∃ r', h.auction? id = some r' ∧ r.Settled r' ∧
      (h.ledger id).cleared = (start.ledger id).cleared ∧
      ∀ s ∈ past, s.round? = some id → s.outcome?.isSome = true →
        s.request.call.settles = true := by
  have followed := run.follow (motive := fun past r' bids' => (∀ s ∈ past, now ≤ s.now) →
    r.Settled r' ∧ bids'.cleared = (start.ledger id).cleared ∧
      ∀ s ∈ past, s.round? = some id → s.outcome?.isSome = true →
        s.request.call.settles = true)
    orderly found (fun _ => ⟨.refl, rfl, List.forall_mem_nil _⟩) (by
      intro past s r' r'' bids'' _ _ moves holds after
      rw [List.forall_mem_cons] at after
      obtain ⟨settled, cleared, settling⟩ := holds after.2
      rw [List.forall_mem_cons]
      cases moves with
      | rest still =>
          refine ⟨settled, cleared, fun about accepted => ?_, settling⟩
          simp [still about] at accepted
      | change _ _ allowed =>
          have final : r'.phaseAt s.now = .ok .finalized := by
            rw [settled.phaseAt]
            exact Auction.final_mono final after.1
          obtain ⟨step, kept⟩ := allowed.settled final
          exact ⟨settled.trans step, kept.trans cleared, fun _ _ => allowed.settles final,
            settling⟩)
  obtain ⟨r', found', holds⟩ := followed
  exact ⟨r', found', holds after⟩

end Run

end CandleAuction
