import CandleAuction.Proofs.History

/-!
# Bidding commutes with other rounds

A bid reads and writes its own round only. Any other call but a closing reads
and writes the round it is about, and parts of the house that no bid touches.
So a bid and a call about another round can be served in either order: each is
answered as if the other had not been made, and the houses after both agree.
-/

namespace CandleAuction

open Std (ExtTreeMap)

/-- The round that a bid or a raise is for. -/
def Call.bidsOn? : Call → Option UInt64
  | placeBid id _ | increaseBid id .. => some id
  | _ => none

/-- The house beside its rounds. -/
def House.outer (h : House) : House := { h with auctions := ∅, ledgers := ∅ }

namespace House.SameRound

variable {h h' : House} {id other : UInt64} {index : UInt32} {bid : Bid}

theorem updateAuction (same : h.SameRound h' id) (change : Auction → Auction) :
    (h.updateAuction other change).SameRound (h'.updateAuction other change) id := by
  refine ⟨?_, same.bids⟩
  rw [auction?_updateAuction, auction?_updateAuction]
  by_cases here : other = id
  · rw [if_pos here, if_pos here, here, same.record]
  · rw [if_neg here, if_neg here, same.record]

theorem appendBid (same : h.SameRound h' id) :
    (h.appendBid other bid).SameRound (h'.appendBid other bid) id := by
  refine ⟨same.record, ?_⟩
  simp only [House.appendBid, ExtTreeMap.getElem?_alter, Std.LawfulEqCmp.compare_eq_iff_eq]
  by_cases here : other = id
  · rw [if_pos here, if_pos here, here, same.bids]
  · rw [if_neg here, if_neg here, same.bids]

theorem updateBid (same : h.SameRound h' id) (change : Bid → Bid) :
    (h.updateBid other index change).SameRound (h'.updateBid other index change) id := by
  refine ⟨same.record, ?_⟩
  simp only [House.updateBid, ExtTreeMap.getElem?_modify, Std.LawfulEqCmp.compare_eq_iff_eq]
  by_cases here : other = id
  · rw [if_pos here, if_pos here, here, same.bids]
  · rw [if_neg here, if_neg here, same.bids]

theorem setBalance {address : Address} {amount : UInt64} (same : h.SameRound h' id) :
    (h.setBalance address amount).SameRound (h'.setBalance address amount) id :=
  ⟨same.record, same.bids⟩

theorem pay {payout : Payout} (same : h.SameRound h' id) :
    (h.pay other payout).SameRound (h'.pay other payout) id :=
  (same.updateAuction _).setBalance

theorem openRound {round : Auction} {nextId : UInt64} (same : h.SameRound h' id) :
    (h.openRound round nextId).SameRound (h'.openRound round nextId) id := by
  constructor
  · simp only [House.auction?, House.openRound, ExtTreeMap.getElem?_insert]
    rw [show h'.auctions[id]? = h.auctions[id]? from same.record]
  · simp only [House.openRound, ExtTreeMap.getElem?_insert]
    rw [same.bids]

theorem apply (same : h.SameRound h' id) (change : Change) :
    (change.apply h).SameRound (change.apply h') id := by
  cases change with
  | placed => exact (same.updateAuction _).appendBid
  | raised => exact (same.updateAuction _).updateBid _
  | closed _ _ request =>
      cases request with
      | none => exact same.updateAuction _
      | some request => exact ⟨(same.updateAuction _).record, same.bids⟩
  | opened => exact same.openRound
  | drawn | proposed => exact same.updateAuction _
  | overturned => exact (same.updateAuction _).setBalance
  | claimed => exact (same.updateBid _).updateAuction _
  | withdrawn => exact same.pay.updateBid _
  | snuffBountyPaid | proposalBountyPaid | proceedsMoved => exact same.pay.updateAuction _
  | configured => exact ⟨same.record, same.bids⟩

end House.SameRound

theorem House.eq_of_sameRound {h h' : House} (rounds : ∀ id, h.SameRound h' id)
    (outer : h'.outer = h.outer) : h' = h := by
  have auctions : h'.auctions = h.auctions :=
    ExtTreeMap.ext_getElem? fun id => (rounds id).record
  have ledgers : h'.ledgers = h.ledgers := ExtTreeMap.ext_getElem? fun id => (rounds id).bids
  cases h
  cases h'
  cases auctions
  cases ledgers
  simpa [House.outer] using outer

namespace Change

variable {h h' : House} {change bid other : Change}

theorem outer_apply : (change.apply h).outer = (change.apply h.outer).outer := by
  cases change with
  | closed _ _ request => cases request <;> rfl
  | _ => rfl

theorem outer_apply_congr (same : h'.outer = h.outer) :
    (change.apply h').outer = (change.apply h).outer := by
  rw [outer_apply, same, ← outer_apply]

/-- A change to one round that keeps the rest of the house commutes with a change elsewhere. -/
theorem apply_comm (keeps : ∀ h, (bid.apply h).outer = h.outer) (unopened : bid.opens? = none)
    (unopened' : other.opens? = none)
    (apart : ∀ id, bid.round? = some id → other.round? ≠ some id) :
    other.apply (bid.apply h) = bid.apply (other.apply h) := by
  refine House.eq_of_sameRound (fun id => ?_) ?_
  · by_cases here : bid.round? = some id
    · have spared : ∀ h : House, h.SameRound (other.apply h) id := fun h =>
        sameRound_apply (apart id here) (by simp [unopened'])
      exact ((spared h).apply bid).symm.trans (spared _)
    · have spared : ∀ h : House, h.SameRound (bid.apply h) id := fun h =>
        sameRound_apply here (by simp [unopened])
      exact (spared _).symm.trans ((spared h).apply other)
  · rw [keeps, outer_apply_congr (keeps h)]

end Change

namespace House

variable {h h' : House} {ctx : Context} {c : Collaborators} {call : Call} {settlementGas : UInt64}
  {id : UInt64}

theorem plan_bid_congr (bids : call.bidsOn? = some id) (same : h.SameRound h' id) :
    h'.plan ctx settlementGas call = h.plan ctx settlementGas call := by
  cases call with
  | placeBid =>
      cases bids
      simp only [plan, placeBid, requireAuction, same.record, same.ledger]
  | increaseBid =>
      cases bids
      simp only [plan, increaseBid, requireAuction, bid?, same.record, same.ledger]
  | _ => cases bids

theorem finalized_congr {now : UInt64} (same : h.SameRound h' id) :
    h'.finalized now id = h.finalized now id := by
  simp only [finalized, requireAuction, same.record]

theorem finalWinners_congr {now : UInt64} {encoding : List UInt8} (same : h.SameRound h' id) :
    h'.finalWinners now id encoding = h.finalWinners now id encoding := by
  simp only [finalWinners, finalized_congr same]

theorem payout_congr {recipient : Address} {fromProceeds fromDeposit : UInt64}
    (same : h.SameRound h' id) (balances : h'.balances = h.balances) :
    h'.payout id recipient fromProceeds fromDeposit =
      h.payout id recipient fromProceeds fromDeposit := by
  simp only [payout, requireAuction, balance, same.record, balances]

/-- A call other than a closing is planned from the round that it is about and the house
beside the rounds. -/
theorem plan_congr (unsnuffed : ∀ round, call ≠ .snuff round) (outer : h'.outer = h.outer)
    (same : ∀ id, h.addressee? call = some id → h.SameRound h' id) :
    h'.plan ctx settlementGas call = h.plan ctx settlementGas call := by
  have requests : h'.requests = h.requests := (congrArg House.requests outer :)
  have balances : h'.balances = h.balances := (congrArg House.balances outer :)
  have admin : h'.admin = h.admin := (congrArg House.admin outer :)
  have beneficiary : h'.beneficiary = h.beneficiary := (congrArg House.beneficiary outer :)
  have oracle : h'.oracle = h.oracle := (congrArg House.oracle outer :)
  cases call with
  | placeBid id => exact plan_bid_congr rfl (same id rfl)
  | increaseBid id => exact plan_bid_congr rfl (same id rfl)
  | snuff id => exact absurd rfl (unsnuffed id)
  | fulfillRandomness request word =>
      simp only [plan, fulfillRandomness, oracle, requests]
      cases known : h.requests[request]? with
      | none => rfl
      | some id =>
          have same := same id known
          have demanded : Ruling.demand (some id) (.unknownRequest request) = pure id := rfl
          simp only [demanded, pure_bind, requireAuction, same.record]
  | proposeWinners id =>
      have same := same id rfl
      simp only [plan, proposeWinners, requireAuction, same.record]
  | challenge id =>
      have same := same id rfl
      simp only [plan, challenge, requireAuction, balance, same.record, same.ledger, balances]
  | claimWinningBid id =>
      have same := same id rfl
      simp only [plan, claimWinningBid, finalWinners_congr same, requireAuction, bid?, same.record,
        same.ledger]
  | withdrawBid id =>
      have same := same id rfl
      simp only [plan, withdrawBid, finalWinners_congr same, bid?, same.ledger,
        payout_congr same balances]
  | claimSnuffBounty id =>
      have same := same id rfl
      simp only [plan, claimSnuffBounty, finalized_congr same, payout_congr same balances]
  | claimProposalBounty id =>
      have same := same id rfl
      simp only [plan, claimProposalBounty, finalized_congr same, payout_congr same balances]
  | transferProceeds id =>
      have same := same id rfl
      simp only [plan, transferProceeds, finalized_congr same, payout_congr same balances,
        beneficiary]
  | updateSettings settings => simp only [plan, updateSettings, admin]

/-- The changes that a call carries out. -/
def changes (h : House) (ctx : Context) (c : Collaborators) (call : Call) : List Change :=
  match h.plan ctx c.settlementGas call with
  | .error _ => []
  | .ok (.act effect) => effect.changes
  | .ok (.ask inquiry next) =>
      match c.answer inquiry with
      | .error _ => []
      | .ok answer => (next answer).changes

theorem dispatch_house :
    (h.dispatch ctx c call).house = (h.changes ctx c call).foldl Change.apply h := by
  unfold dispatch changes
  cases h.plan ctx c.settlementGas call with
  | error halt => rfl
  | ok plan =>
      cases plan with
      | act effect => rfl
      | ask inquiry next =>
          simp only
          cases c.answer inquiry <;> rfl

theorem changes_congr (planned : h'.plan ctx c.settlementGas call =
    h.plan ctx c.settlementGas call) : h'.changes ctx c call = h.changes ctx c call := by
  rw [changes, planned, changes]

end House

/-- What a call tells those outside the house. -/
def Receipt.seen (receipt : Receipt) :
    Ruling Outcome × Option (Inquiry × Except CollaboratorError UInt64) × List Event :=
  (receipt.result, receipt.asked, receipt.events)

namespace House

variable {h h' : House} {ctx : Context} {c : Collaborators} {call : Call} {id : UInt64}
  {change : Change} {outcome : Outcome}

theorem seen_congr (planned : h'.plan ctx c.settlementGas call =
    h.plan ctx c.settlementGas call) :
    (h'.dispatch ctx c call).seen = (h.dispatch ctx c call).seen := by
  unfold dispatch
  rw [planned]
  cases h.plan ctx c.settlementGas call with
  | error halt => rfl
  | ok plan =>
      cases plan with
      | act effect => rfl
      | ask inquiry next =>
          simp only
          cases c.answer inquiry <;> rfl

theorem eq_of_mem_changes {only : Change}
    (planned : h.plan ctx c.settlementGas call = .ok (.change only outcome))
    (member : change ∈ h.changes ctx c call) : change = only := by
  rw [changes, planned] at member
  exact List.mem_singleton.mp member

theorem mem_changes_bid (bids : call.bidsOn? = some id) (member : change ∈ h.changes ctx c call) :
    change.round? = some id ∧ change.opens? = none ∧
      ∀ h : House, (change.apply h).outer = h.outer := by
  cases planned : h.plan ctx c.settlementGas call with
  | error halt =>
      rw [changes, planned] at member
      cases member
  | ok plan =>
      cases call with
      | placeBid =>
          obtain ⟨_, _, _, -, -, rfl⟩ := placeBid_eq_ok.mp planned
          cases eq_of_mem_changes planned member
          exact ⟨bids, rfl, fun _ => rfl⟩
      | increaseBid =>
          obtain ⟨_, _, _, _, _, -, -, rfl⟩ := increaseBid_eq_ok.mp planned
          cases eq_of_mem_changes planned member
          exact ⟨bids, rfl, fun _ => rfl⟩
      | _ => cases bids

theorem mem_changes (unsnuffed : ∀ round, call ≠ .snuff round)
    (member : change ∈ h.changes ctx c call) :
    change.round? = h.addressee? call ∧ change.opens? = none := by
  cases planned : h.plan ctx c.settlementGas call with
  | error halt =>
      rw [changes, planned] at member
      cases member
  | ok plan =>
      cases call with
      | placeBid | increaseBid =>
          obtain ⟨about, unopened, -⟩ := mem_changes_bid rfl member
          exact ⟨about, unopened⟩
      | snuff id => exact absurd rfl (unsnuffed id)
      | fulfillRandomness =>
          obtain ⟨_, _, _, _, -, known, -, -, rfl⟩ := fulfillRandomness_eq_ok.mp planned
          cases eq_of_mem_changes planned member
          exact ⟨known.symm, rfl⟩
      | proposeWinners =>
          obtain ⟨_, _, _, -, -, rfl⟩ := proposeWinners_eq_ok.mp planned
          cases eq_of_mem_changes planned member
          exact ⟨rfl, rfl⟩
      | challenge =>
          obtain ⟨_, _, _, _, _, _, _, -, -, -, rfl⟩ := challenge_eq_ok.mp planned
          cases eq_of_mem_changes planned member
          exact ⟨rfl, rfl⟩
      | claimWinningBid =>
          obtain ⟨_, _, _, _, _, _, -, -, rfl⟩ := claimWinningBid_eq_ok.mp planned
          rw [changes, planned] at member
          simp only at member
          split at member
          · cases member
          · split at member
            · cases List.mem_singleton.mp member
              exact ⟨rfl, rfl⟩
            · cases member
      | withdrawBid =>
          obtain ⟨_, _, _, _, _, _, -, -, -, rfl⟩ := withdrawBid_eq_ok.mp planned
          cases eq_of_mem_changes planned member
          exact ⟨rfl, rfl⟩
      | claimSnuffBounty =>
          obtain ⟨_, _, _, _, -, -, -, -, -, rfl⟩ := claimSnuffBounty_eq_ok.mp planned
          cases eq_of_mem_changes planned member
          exact ⟨rfl, rfl⟩
      | claimProposalBounty =>
          obtain ⟨_, _, _, _, -, -, -, -, -, rfl⟩ := claimProposalBounty_eq_ok.mp planned
          cases eq_of_mem_changes planned member
          exact ⟨rfl, rfl⟩
      | transferProceeds =>
          obtain ⟨_, _, _, _, -, -, -, -, -, rfl⟩ := transferProceeds_eq_ok.mp planned
          cases eq_of_mem_changes planned member
          exact ⟨rfl, rfl⟩
      | updateSettings =>
          obtain ⟨-, -, rfl⟩ := updateSettings_eq_ok.mp planned
          cases eq_of_mem_changes planned member
          exact ⟨rfl, rfl⟩

end House

section Lists

variable {h : House} {id : UInt64} {changes bids others : List Change}

theorem House.sameRound_foldl
    (elsewhere : ∀ change ∈ changes, change.round? ≠ some id ∧ change.opens? = none) :
    h.SameRound (changes.foldl Change.apply h) id := by
  induction changes generalizing h with
  | nil => exact ⟨rfl, rfl⟩
  | cons change changes inductionHypothesis =>
      obtain ⟨⟨other, unopened⟩, rest⟩ := List.forall_mem_cons.mp elsewhere
      have first : h.SameRound (change.apply h) id :=
        Change.sameRound_apply other (by simp [unopened])
      exact first.trans (inductionHypothesis rest)

theorem House.outer_foldl
    (keeps : ∀ change ∈ changes, ∀ h : House, (change.apply h).outer = h.outer) :
    (changes.foldl Change.apply h).outer = h.outer := by
  induction changes generalizing h with
  | nil => rfl
  | cons change changes inductionHypothesis =>
      obtain ⟨first, rest⟩ := List.forall_mem_cons.mp keeps
      exact (inductionHypothesis rest).trans (first h)

theorem Change.apply_foldl_comm {bid : Change}
    (commute : ∀ other ∈ others, ∀ h : House,
      other.apply (bid.apply h) = bid.apply (other.apply h)) :
    others.foldl apply (bid.apply h) = bid.apply (others.foldl apply h) := by
  induction others generalizing h with
  | nil => rfl
  | cons other others inductionHypothesis =>
      obtain ⟨swap, rest⟩ := List.forall_mem_cons.mp commute
      rw [List.foldl_cons, List.foldl_cons, swap, inductionHypothesis rest]

theorem Change.foldl_comm
    (commute : ∀ bid ∈ bids, ∀ other ∈ others, ∀ h : House,
      other.apply (bid.apply h) = bid.apply (other.apply h)) :
    others.foldl apply (bids.foldl apply h) = bids.foldl apply (others.foldl apply h) := by
  induction bids generalizing h with
  | nil => rfl
  | cons bid bids inductionHypothesis =>
      obtain ⟨first, rest⟩ := List.forall_mem_cons.mp commute
      rw [List.foldl_cons, List.foldl_cons, inductionHypothesis rest, apply_foldl_comm first]

end Lists

namespace House

variable {h : House} {bid other : Request} {id : UInt64}

theorem serve_singleton (q : Request) :
    h.serve [q] = (h.changes q.context q.parties q.call).foldl Change.apply h := dispatch_house

theorem spared_of_apart (unsnuffed : ∀ round, other.call ≠ .snuff round)
    (apart : h.addressee? other.call ≠ some id) : h.SameRound (h.serve [other]) id := by
  rw [serve_singleton]
  refine sameRound_foldl fun change member => ?_
  obtain ⟨about, unopened⟩ := mem_changes unsnuffed member
  exact ⟨about ▸ apart, unopened⟩

theorem spared_of_bid (bids : bid.call.bidsOn? = some id) :
    (h.serve [bid]).outer = h.outer ∧ ∀ round ≠ id, h.SameRound (h.serve [bid]) round := by
  rw [serve_singleton]
  constructor
  · refine outer_foldl fun change member => ?_
    obtain ⟨-, -, keeps⟩ := mem_changes_bid bids member
    exact keeps
  · refine fun round ne => sameRound_foldl fun change member => ?_
    obtain ⟨about, unopened, -⟩ := mem_changes_bid bids member
    rw [about]
    exact ⟨fun same => ne (Option.some.inj same).symm, unopened⟩

/-- A bid and any call but a closing that is about another round can be served in either
order. Each is answered as if it came first, with the same result, the same inquiry and the
same events, and the houses after both are equal. -/
theorem bidding_commutes (bids : bid.call.bidsOn? = some id)
    (unsnuffed : ∀ round, other.call ≠ .snuff round)
    (apart : h.addressee? other.call ≠ some id) :
    (Served.receipt ⟨h.serve [other], bid⟩).seen = (Served.receipt ⟨h, bid⟩).seen ∧
      (Served.receipt ⟨h.serve [bid], other⟩).seen = (Served.receipt ⟨h, other⟩).seen ∧
      h.serve [bid, other] = h.serve [other, bid] := by
  obtain ⟨outer, elsewhere⟩ := spared_of_bid (h := h) bids
  have bidPlanned : (h.serve [other]).plan bid.context bid.parties.settlementGas bid.call = _ :=
    plan_bid_congr bids (spared_of_apart unsnuffed apart)
  have otherPlanned :
      (h.serve [bid]).plan other.context other.parties.settlementGas other.call = _ :=
    plan_congr unsnuffed outer fun round addressed =>
      elsewhere round fun same => apart (same ▸ addressed)
  refine ⟨seen_congr bidPlanned, seen_congr otherPlanned, ?_⟩
  have commute : ∀ first ∈ h.changes bid.context bid.parties bid.call,
      ∀ second ∈ h.changes other.context other.parties other.call, ∀ h : House,
        second.apply (first.apply h) = first.apply (second.apply h) := by
    intro first bidMember second member h
    obtain ⟨about, unopened, keeps⟩ := mem_changes_bid bids bidMember
    obtain ⟨about', unopened'⟩ := mem_changes unsnuffed member
    refine Change.apply_comm keeps unopened unopened' fun round same => ?_
    cases about.symm.trans same
    exact about' ▸ apart
  calc h.serve [bid, other]
      = ((h.serve [bid]).changes other.context other.parties other.call).foldl Change.apply
          (h.serve [bid]) := dispatch_house
    _ = (h.changes other.context other.parties other.call).foldl Change.apply
          ((h.changes bid.context bid.parties bid.call).foldl Change.apply h) := by
        rw [changes_congr otherPlanned, serve_singleton]
    _ = (h.changes bid.context bid.parties bid.call).foldl Change.apply
          ((h.changes other.context other.parties other.call).foldl Change.apply h) :=
        Change.foldl_comm commute
    _ = ((h.serve [other]).changes bid.context bid.parties bid.call).foldl Change.apply
          (h.serve [other]) := by rw [changes_congr bidPlanned, serve_singleton]
    _ = h.serve [other, bid] := dispatch_house.symm

end House

/-- A bid on the second sample round. -/
def Sample.rebidding : Request := request 4 270000 5000 (.placeBid 2 5000)

/-- A bid on the second round can come before or after the refund of the loser of the first. -/
theorem House.bidding_commutes_refunded :
    Sample.rebidding.call.bidsOn? = some 2 ∧ (∀ round, Sample.refunding.call ≠ .snuff round) ∧
      Sample.proposed.addressee? Sample.refunding.call ≠ some 2 ∧
      (Served.receipt ⟨Sample.proposed, Sample.rebidding⟩).result = .ok (.bidPlaced 0) ∧
      Sample.proposed.serve [Sample.rebidding, Sample.refunding] =
        Sample.proposed.serve [Sample.refunding, Sample.rebidding] := by
  have bids : Sample.rebidding.call.bidsOn? = some 2 := rfl
  have unsnuffed : ∀ round, Sample.refunding.call ≠ .snuff round := by
    intro round same
    cases same
  have apart : Sample.proposed.addressee? Sample.refunding.call ≠ some 2 := by decide
  obtain ⟨-, -, same⟩ := bidding_commutes bids unsnuffed apart
  exact ⟨bids, unsnuffed, apart, rfl, same⟩

end CandleAuction
