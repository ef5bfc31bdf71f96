import CandleAuction.Proofs.Ranking.Cleared

/-!
# What the losers get back

A loser is owed its bid until the bid is settled. In a ledger without settled
bids the refunds and what the winners raise make up the whole.
-/

namespace CandleAuction

/-- What is still owed for a bid, given the winners. -/
def Bid.refund (winners : List UInt32) (index : UInt32) (bid : Bid) : Nat :=
  if index ∈ winners ∨ bid.processed = true then 0 else bid.amount.toNat

namespace Ledger

/-- What the losers are still owed. -/
def refunds (bids : Ledger) (winners : List UInt32) : Nat := bids.tally (Bid.refund winners)

variable {bids : Ledger} {bid : Bid} {winners : List UInt32} {index close maxWinners : UInt32}

theorem refunds_settle_loser (found : bids[index.toNat]? = some bid) (loser : index ∉ winners)
    (unprocessed : bid.processed = false) :
    refunds (bids.modify index.toNat ({ · with processed := true })) winners + bid.amount.toNat =
      bids.refunds winners := by
  have exchanged := tally_modify (Bid.refund winners) ({ · with processed := true }) found
  simpa [refunds, Bid.refund, loser, unprocessed] using exchanged

theorem refunds_settle_winner (found : bids[index.toNat]? = some bid) (winner : index ∈ winners) :
    refunds (bids.modify index.toNat ({ · with processed := true })) winners =
      bids.refunds winners := by
  have exchanged := tally_modify (Bid.refund winners) ({ · with processed := true }) found
  simpa [refunds, Bid.refund, winner] using exchanged

theorem amount_le_refunds (indexed : bids.Indexed) (found : bids[index.toNat]? = some bid)
    (loser : index ∉ winners) (unprocessed : bid.processed = false) :
    bid.amount.toNat ≤ bids.refunds winners := by
  have le := le_tally (Bid.refund winners) found indexed
  simpa [refunds, Bid.refund, loser, unprocessed] using le

theorem refunds_eq_zero (indexed : bids.Indexed)
    (settled : ∀ (index : UInt32) (bid : Bid), bids[index.toNat]? = some bid → index ∉ winners →
      bid.processed = true) : bids.refunds winners = 0 := by
  refine List.sum_eq_zero fun amount member => ?_
  obtain ⟨e, listed, rfl⟩ := List.mem_map.mp member
  have found := (entry?_eq_some.mp ((mem_entries indexed).mp listed)).2
  apply if_pos
  by_cases winner : e.index ∈ winners
  · exact .inl winner
  · exact .inr (settled e.index e.bid found winner)

theorem refunds_eq_ranked (bids : Ledger) (winners : List UInt32) (close : UInt32) :
    bids.refunds winners =
      ((bids.ranked close).map fun e => Bid.refund winners e.index e.bid).sum :=
  (ranked_perm.map _).sum_eq.symm

/-- Before any bid is settled, what is not raised by the winners is owed to the losers. -/
theorem worth_eq_winning_add_refunds (indexed : bids.Indexed) (unsettled : bids.cleared = bids) :
    bids.worth = Entry.worth (bids.winningEntries close maxWinners) +
      bids.refunds (bids.canonicalWinners close maxWinners) := by
  have split := List.take_append_drop (winnerCount bids.size maxWinners) (bids.ranked close)
  have distinct := nodup_index_ranked close indexed
  rw [worth_eq_ranked bids close, refunds_eq_ranked bids _ close]
  rw [← split] at distinct ⊢
  rw [List.map_append, List.nodup_append] at distinct
  have paid : ∀ e ∈ bids.winningEntries close maxWinners,
      Bid.refund (bids.canonicalWinners close maxWinners) e.index e.bid = 0 :=
    fun e wins => if_pos (.inl (List.mem_map_of_mem (f := Entry.index) wins))
  have owed : ∀ e ∈ (bids.ranked close).drop (winnerCount bids.size maxWinners),
      Bid.refund (bids.canonicalWinners close maxWinners) e.index e.bid = e.bid.amount.toNat := by
    intro e below
    have listed := (mem_entries indexed).mp (ranked_perm.mem_iff.mp (List.drop_subset _ _ below))
    have found := (entry?_eq_some.mp listed).2
    have unprocessed : e.bid.processed = false := by
      rw [← unsettled, getElem?_cleared, Option.map_eq_some_iff] at found
      obtain ⟨bid, -, same⟩ := found
      rw [← same]
      rfl
    have loses : e.index ∉ bids.canonicalWinners close maxWinners := fun wins =>
      distinct.2.2 _ wins _ (List.mem_map_of_mem (f := Entry.index) below) rfl
    exact if_neg (by simp [loses, unprocessed])
  rw [Entry.worth, List.map_append, List.sum_append, List.map_append, List.sum_append,
    ← Entry.worth, ← Entry.worth, ← winningEntries, List.map_congr_left owed,
    List.map_congr_left paid]
  simp [Entry.worth]

end Ledger

theorem Claim.Correct.worth_eq {c : Claim} {bids : Ledger} {close maxWinners : UInt32}
    (correct : c.Correct bids close maxWinners) (indexed : bids.Indexed)
    (unsettled : bids.cleared = bids) :
    bids.worth = c.total.toNat + bids.refunds c.winners := by
  rw [correct.total, correct.winners, ← Ledger.worth_eq_winning_add_refunds indexed unsettled]

end CandleAuction
