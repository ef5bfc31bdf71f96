import CandleAuction.Proofs.Ranking.Fraud

/-!
# Settlement does not reorder a ledger

Whether a bid has been settled plays no part in ranking. A ledger with all
settlement flags cleared has the same canonical winners, raising the same sum,
so ledgers that agree once cleared make the same claims correct.
-/

namespace CandleAuction

def Bid.cleared (bid : Bid) : Bid := { bid with processed := false }

theorem Bid.cleared_eq_self {bid : Bid} : bid.cleared = bid ↔ bid.processed = false := by
  cases bid
  simp [cleared, eq_comm]

def Entry.cleared (e : Entry) : Entry := { e with bid := e.bid.cleared }

theorem Entry.rank_cleared {close : UInt32} {a b : Entry} :
    a.cleared.rank close b.cleared = a.rank close b := rfl

theorem Entry.worth_cleared {entries : List Entry} :
    Entry.worth (entries.map Entry.cleared) = Entry.worth entries := by
  rw [worth, worth, List.map_map]
  rfl

namespace Ledger

/-- The ledger with every bid unsettled. -/
def cleared (bids : Ledger) : Ledger := bids.map Bid.cleared

variable {bids other : Ledger} {bid : Bid} {index close maxWinners : UInt32}

@[simp]
theorem size_cleared : bids.cleared.size = bids.size := Array.size_map

theorem getElem?_cleared {position : Nat} :
    bids.cleared[position]? = bids[position]?.map Bid.cleared := Array.getElem?_map

@[simp]
theorem cleared_modify_processed {position : Nat} :
    cleared (bids.modify position ({ · with processed := true })) = bids.cleared := by
  refine Array.ext_getElem? fun i => ?_
  rw [getElem?_cleared, getElem?_cleared, Array.getElem?_modify]
  split
  · rw [Option.map_map]
    rfl
  · rfl

theorem entries_cleared : bids.cleared.entries = bids.entries.map Entry.cleared := by
  rw [entries, cleared, Array.toList_map, List.zipIdx_map, entries, List.map_map, List.map_map]
  rfl

theorem winningEntries_cleared :
    bids.cleared.winningEntries close maxWinners =
      (bids.winningEntries close maxWinners).map Entry.cleared := by
  have ranked : bids.cleared.ranked close = (bids.ranked close).map Entry.cleared := by
    rw [ranked, entries_cleared]
    exact (List.map_mergeSort fun _ _ _ _ => congrArg Ordering.isLE Entry.rank_cleared.symm).symm
  rw [winningEntries, ranked, size_cleared, winningEntries, List.map_take]

theorem canonicalWinners_cleared :
    bids.cleared.canonicalWinners close maxWinners = bids.canonicalWinners close maxWinners := by
  rw [canonicalWinners, winningEntries_cleared, List.map_map]
  rfl

theorem worth_cleared : bids.cleared.worth = bids.worth := by
  rw [worth_eq_entries, entries_cleared, Entry.worth_cleared, worth_eq_entries]

theorem worth_eq_of_cleared (same : bids.cleared = other.cleared) : bids.worth = other.worth := by
  rw [← worth_cleared, same, worth_cleared]

end Ledger

/-- Ledgers that differ in settlement flags only make the same claims correct. -/
theorem Claim.Correct.of_cleared {c : Claim} {bids other : Ledger} {close maxWinners : UInt32}
    (same : other.cleared = bids.cleared) (correct : c.Correct bids close maxWinners) :
    c.Correct other close maxWinners where
  winners := by
    rw [correct.winners, ← Ledger.canonicalWinners_cleared, ← same,
      Ledger.canonicalWinners_cleared]
  total := by
    rw [correct.total, ← Entry.worth_cleared, ← Ledger.winningEntries_cleared, ← same,
      Ledger.winningEntries_cleared, Entry.worth_cleared]

end CandleAuction
