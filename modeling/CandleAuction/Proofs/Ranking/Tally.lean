import CandleAuction.Fraud
import CandleAuction.Proofs.Ranking.Order
import Mathlib.Algebra.Order.BigOperators.Group.List
import Mathlib.Algebra.Order.Ring.Nat

/-!
# Sums over a ledger

A tally adds up a value for every bid of a ledger by its position. Appending a
bid adds its value, and changing one bid exchanges one value for another. The
worth of a ledger is the tally of its amounts, as an unbounded number.
-/

namespace CandleAuction

/-- The exact sum of the amounts of some entries. -/
def Entry.worth (entries : List Entry) : Nat := (entries.map fun e => e.bid.amount.toNat).sum

namespace Ledger

def tally (value : UInt32 → Bid → Nat) (bids : Ledger) : Nat :=
  (bids.entries.map fun e => value e.index e.bid).sum

/-- The exact sum of all amounts. -/
def worth (bids : Ledger) : Nat := bids.tally fun _ bid => bid.amount.toNat

variable {value : UInt32 → Bid → Nat} {bids : Ledger} {bid : Bid}

@[simp]
theorem tally_push :
    tally value (bids.push bid) = bids.tally value + value (UInt32.ofNat bids.size) bid := by
  simp [tally, entries, List.zipIdx_append]

theorem sum_zipIdx_modify {bids : List Bid} {position : Nat} (found : bids[position]? = some bid)
    (change : Bid → Bid) (value : Nat → Bid → Nat) (start : Nat) :
    ((bids.modify position change).zipIdx start |>.map fun e => value e.2 e.1).sum +
        value (start + position) bid =
      (bids.zipIdx start |>.map fun e => value e.2 e.1).sum +
        value (start + position) (change bid) := by
  induction bids generalizing position start with
  | nil => simp at found
  | cons first rest inductionHypothesis =>
      cases position with
      | zero =>
          simp only [List.getElem?_cons_zero, Option.some.injEq] at found
          subst found
          simp only [List.modify_zero_cons, List.zipIdx_cons, List.map_cons, List.sum_cons,
            Nat.add_zero]
          omega
      | succ position =>
          have step := inductionHypothesis (by simpa using found) (start + 1)
          simp only [List.modify_succ_cons, List.zipIdx_cons, List.map_cons, List.sum_cons]
          rw [show start + (position + 1) = start + 1 + position by omega]
          omega

theorem tally_modify (value : UInt32 → Bid → Nat) {index : UInt32} (change : Bid → Bid)
    (found : bids[index.toNat]? = some bid) :
    tally value (bids.modify index.toNat change) + value index bid =
      bids.tally value + value index (change bid) := by
  have found : bids.toList[index.toNat]? = some bid := by simpa using found
  have exchanged :=
    sum_zipIdx_modify found change (fun position => value (UInt32.ofNat position)) 0
  simpa [tally, entries, Function.comp_def] using exchanged

theorem worth_push : worth (bids.push bid) = bids.worth + bid.amount.toNat := tally_push

theorem worth_raise {index : UInt32} {amount added : UInt64} {timestamp : UInt32}
    (found : bids[index.toNat]? = some bid)
    (raised : amount.toNat = bid.amount.toNat + added.toNat) :
    worth (bids.modify index.toNat ({ · with amount := amount, timestamp := timestamp })) =
      bids.worth + added.toNat := by
  have exchanged := tally_modify (fun _ bid => bid.amount.toNat)
    ({ · with amount := amount, timestamp := timestamp }) found
  simp only [raised] at exchanged
  rw [worth, worth]
  omega

theorem le_tally (value : UInt32 → Bid → Nat) {index : UInt32}
    (found : bids[index.toNat]? = some bid) (indexed : bids.Indexed) :
    value index bid ≤ bids.tally value := by
  have member : (⟨index, bid⟩ : Entry) ∈ bids.entries :=
    (mem_entries indexed).mpr (entry?_eq_some.mpr ⟨rfl, found⟩)
  exact List.single_le_sum (fun _ _ => Nat.zero_le _) _
    (List.mem_map_of_mem (f := fun e => value e.index e.bid) member)

theorem worth_eq_entries : bids.worth = Entry.worth bids.entries := rfl

theorem worth_eq_ranked (bids : Ledger) (close : UInt32) :
    bids.worth = Entry.worth (bids.ranked close) :=
  (ranked_perm.map _).sum_eq.symm

theorem worth_winningEntries_le (bids : Ledger) (close maxWinners : UInt32) :
    Entry.worth (bids.winningEntries close maxWinners) ≤ bids.worth := by
  rw [worth_eq_ranked bids close]
  exact (winningEntries_sublist.map _).sum_le_sum fun _ _ => Nat.zero_le _

end Ledger

theorem foldlM_checkedAdd_eq_some {entries : List Entry} {start total : UInt64} :
    entries.foldlM (fun sum entry => checkedAdd sum entry.bid.amount) start = some total ↔
      total.toNat = start.toNat + Entry.worth entries := by
  induction entries generalizing start with
  | nil =>
      simp only [List.foldlM_nil, Entry.worth, List.map_nil, List.sum_nil, Nat.add_zero]
      rw [UInt64.toNat_inj]
      exact ⟨fun equal => (Option.some.inj equal).symm, fun equal => equal ▸ rfl⟩
  | cons entry rest inductionHypothesis =>
      simp only [List.foldlM_cons, Option.bind_eq_bind, Option.bind_eq_some_iff,
        inductionHypothesis, checkedAdd_eq_some, Entry.worth, List.map_cons, List.sum_cons]
      constructor
      · rintro ⟨sum, added, total⟩
        omega
      · intro total
        have fits := total ▸ UInt64.toNat_lt _
        refine ⟨UInt64.ofNat (start.toNat + entry.bid.amount.toNat), ?_, ?_⟩
        · exact UInt64.toNat_ofNat_of_lt' (by simp only [UInt64.size]; omega)
        · rw [UInt64.toNat_ofNat_of_lt' (by simp only [UInt64.size]; omega)]
          omega

/-- The checked sum of a claim is the exact one. -/
theorem Claim.sum?_eq_some {entries : List Entry} {total : UInt64} :
    Claim.sum? entries = some total ↔ total.toNat = Entry.worth entries := by
  rw [Claim.sum?, foldlM_checkedAdd_eq_some]
  simp

theorem foldl_saturatingAdd_toNat {entries : List Entry} {start : UInt64} :
    (entries.foldl (fun sum entry => saturatingAdd sum entry.bid.amount) start).toNat =
      min (start.toNat + Entry.worth entries) (UInt64.size - 1) := by
  induction entries generalizing start with
  | nil =>
      have := start.toNat_lt
      simp only [List.foldl_nil, Entry.worth, List.map_nil, List.sum_nil, UInt64.size]
      omega
  | cons entry rest inductionHypothesis =>
      rw [List.foldl_cons, inductionHypothesis, saturatingAdd_toNat]
      simp only [Entry.worth, List.map_cons, List.sum_cons, UInt64.size]
      omega

theorem Ledger.winnerSet_total {bids : Ledger} {close maxWinners : UInt32}
    (fits : Entry.worth (bids.winningEntries close maxWinners) < UInt64.size) :
    (bids.winnerSet close maxWinners).total.toNat =
      Entry.worth (bids.winningEntries close maxWinners) := by
  simp only [winnerSet, foldl_saturatingAdd_toNat, UInt64.toNat_zero]
  omega

end CandleAuction
