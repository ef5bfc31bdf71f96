import CandleAuction.Proofs.Settlement

/-!
# Nothing is paid before a round is final

While time does not run backwards, a round out of which anything has been paid
or in which anything has been settled is final, and remains so. Hence no
proposal is overturned whose bounty has been claimed.
-/

namespace CandleAuction

namespace Ledger

variable {bids : Ledger} {bid : Bid}

theorem cleared_push (fresh : bid.processed = false) (unsettled : bids.cleared = bids) :
    cleared (bids.push bid) = bids.push bid := by
  rw [cleared, Array.map_push, Bid.cleared_eq_self.mpr fresh]
  exact congrArg (·.push bid) unsettled

theorem cleared_modify {position : Nat} {change : Bid → Bid}
    (keeps : ∀ bid : Bid, bid.cleared = bid → (change bid).cleared = change bid)
    (unsettled : bids.cleared = bids) :
    cleared (bids.modify position change) = bids.modify position change := by
  refine Array.ext_getElem? fun i => ?_
  have entry : bids[i]?.map Bid.cleared = bids[i]? := by rw [← getElem?_cleared, unsettled]
  rw [getElem?_cleared, Array.getElem?_modify]
  split
  · cases found : bids[i]? with
    | none => rfl
    | some bid =>
        rw [found, Option.map_some, Option.some.injEq] at entry
        simp only [Option.map_some, keeps bid entry]
  · exact entry

end Ledger

namespace Auction

variable {r : Auction} {bids : Ledger} {ctx : Context} {call : Call} {change : Change}
  {outcome : Outcome}

/-- Nothing has been paid out of a round or settled in it. -/
structure Untouched (r : Auction) (bids : Ledger) : Prop where
  pooled : r.proceeds.toNat = bids.worth
  unmoved : r.fundsMoved = false
  uncounted : r.claimedWinners = 0
  unsettled : bids.cleared = bids
  unpaid : ∀ p, r.proposal = some p → p.terms = p

theorem Untouched.allow (untouched : r.Untouched bids)
    (allowed : r.Allows bids ctx call change outcome)
    (notFinal : r.phaseAt ctx.now ≠ .ok .finalized) :
    (change.revise r).Untouched (change.enter bids) := by
  obtain ⟨pooled, unmoved, uncounted, unsettled, unpaid⟩ := untouched
  have pending := allowed.settles_eq_false notFinal
  cases allowed with
  | placed g =>
      refine ⟨?_, unmoved, uncounted, Ledger.cleared_push rfl unsettled, unpaid⟩
      rw [Change.enter, Ledger.worth_push, Change.revise, g.pooled, pooled]
  | @raised id index added bid amount timestamp proceeds g =>
      refine ⟨?_, unmoved, uncounted, Ledger.cleared_modify ?_ unsettled, unpaid⟩
      · rw [Change.enter, Ledger.worth_raise g.found g.raised, Change.revise, g.pooled, pooled]
      · intro bid same
        rw [Bid.cleared_eq_self] at same ⊢
        exact same
  | @closed _ request _ _ _ =>
      cases request <;> exact ⟨pooled, unmoved, uncounted, unsettled, unpaid⟩
  | drawn => exact ⟨pooled, unmoved, uncounted, unsettled, unpaid⟩
  | proposed => exact ⟨pooled, unmoved, uncounted, unsettled, fun p live => by cases live; rfl⟩
  | overturned => exact ⟨pooled, unmoved, uncounted, unsettled, fun p live => by cases live⟩
  | claimed | withdrawn | snuffBountyPaid | proposalBountyPaid | proceedsMoved => cases pending

theorem untouched_nextRound {h : House} {startTime : UInt64} {fee : FeeObservation}
    {gas : UInt64} : (h.nextRound startTime fee gas).Untouched #[] where
  pooled := rfl
  unmoved := rfl
  uncounted := rfl
  unsettled := by simp [Ledger.cleared]
  unpaid := by
    intro p live
    cases live

/-- A round is untouched, or final at every time that no call is later than. -/
def Decided (past : List Served) (r : Auction) (bids : Ledger) : Prop :=
  r.Untouched bids ∨ ∀ now, (∀ s ∈ past, s.now ≤ now) → r.phaseAt now = .ok .finalized

theorem Decided.untouched {past : List Served} {now : UInt64} (decided : r.Decided past bids)
    (recent : ∀ s ∈ past, s.now ≤ now) (notFinal : r.phaseAt now ≠ .ok .finalized) :
    r.Untouched bids :=
  decided.resolve_right fun final => notFinal (final now recent)

theorem Decided.moves {past : List Served} {s : Served} {id : UInt64} {r' : Auction}
    {bids' : Ledger} (recent : ∀ earlier ∈ past, earlier.now ≤ s.now)
    (moves : s.Moves id r r' bids') (decided : r.Decided past (s.house.ledger id)) :
    r'.Decided (s :: past) bids' := by
  cases moves with
  | rest _ =>
      exact decided.imp_right fun final now after =>
        final now fun earlier member => after earlier (List.mem_cons_of_mem s member)
  | change _ _ allowed =>
      by_cases final : r.phaseAt s.now = .ok .finalized
      · have settled := (allowed.settled final).1
        refine .inr fun now after => ?_
        rw [settled.phaseAt]
        exact final_mono final (after s List.mem_cons_self)
      · exact .inl ((decided.untouched recent final).allow allowed final)

end Auction

theorem Run.decided {g : Genesis} {settlementGas : UInt64} {start h : House}
    {past : List Served} (founded : g.found settlementGas = .ok start) (run : Run start past h)
    (ordered : Chronological past) : h.Each (Auction.Decided past) := by
  have each := run.each
    (motive := fun past r bids => Chronological past → Auction.Decided past r bids)
    (Genesis.orderly_of_found founded)
    (Genesis.each_of_found founded fun _ _ => .inl Auction.untouched_nextRound)
    (fun _ _ _ => .inl Auction.untouched_nextRound)
    (fun _ _ moves decided ordered =>
      have ordered := List.pairwise_cons.mp ordered
      (decided ordered.2).moves ordered.1 moves)
  exact fun id r found => each id r found ordered

/-- The bounty of a proposal that can be overturned is unclaimed. -/
theorem Run.unclaimed {g : Genesis} {settlementGas : UInt64} {start h : House}
    {past : List Served} {id now : UInt64} {r : Auction} {p : Proposal}
    (founded : g.found settlementGas = .ok start) (run : Run start past h)
    (ordered : Chronological past) (recent : ∀ s ∈ past, s.now ≤ now)
    (found : h.auction? id = some r) (inTime : r.phaseAt now = .ok .winnersProposed)
    (live : r.proposal = some p) : p.proposalBountyClaimed = false := by
  have notFinal : r.phaseAt now ≠ .ok .finalized := by simp [inTime]
  have untouched := (run.decided founded ordered id r found).untouched recent notFinal
  exact (congrArg Proposal.proposalBountyClaimed (untouched.unpaid p live) :).symm

end CandleAuction
