import CandleAuction.Ranking
import Mathlib.Data.List.Perm.Subperm
import Mathlib.Data.List.Nodup

/-!
# The order of a ledger

Ranking is a strict order on the entries of a ledger, in which two entries of
different positions never tie. The canonical winners are therefore cut off a
list that is sorted without ties: every winner ranks ahead of every other bid.
-/

namespace CandleAuction

namespace Entry

variable {close : UInt32} {a b c : Entry}

instance (close : UInt32) : Std.TransCmp (rank close) :=
  inferInstanceAs (Std.TransCmp (compareLex
    (fun a b => compareOn (fun e : Entry => e.bid.eligible close) b a)
    (compareLex (fun a b => compareOn (fun e : Entry => e.bid.amount) b a)
      (compareOn Entry.index))))

theorem ahead_iff : a.ahead close b = true ↔ a.rank close b = .lt := by
  simp [ahead]

/-- The three keys of the order: in time before late, then more before less, then earlier. -/
theorem ahead_iff_keys :
    a.ahead close b = true ↔
      a.bid.eligible close = true ∧ b.bid.eligible close = false ∨
      a.bid.eligible close = b.bid.eligible close ∧
        (b.bid.amount < a.bid.amount ∨ a.bid.amount = b.bid.amount ∧ a.index < b.index) := by
  rw [ahead_iff, rank, Ordering.then_eq_lt, Ordering.then_eq_lt]
  simp only [Std.LawfulEqCmp.compare_eq_iff_eq, Std.compare_eq_lt,
    eq_comm (a := b.bid.amount)]
  cases a.bid.eligible close <;> cases b.bid.eligible close <;> simp [compare]

theorem ahead_trans (first : a.ahead close b = true) (second : b.ahead close c = true) :
    a.ahead close c = true :=
  ahead_iff.mpr (Std.TransCmp.lt_trans (ahead_iff.mp first) (ahead_iff.mp second))

theorem ahead_asymm (first : a.ahead close b = true) : ¬ b.ahead close a = true := by
  rw [ahead_iff] at first ⊢
  have swap : b.rank close a = (a.rank close b).swap := Std.OrientedCmp.eq_swap
  simp [swap, first]

theorem index_eq_of_rank (tie : a.rank close b = .eq) : a.index = b.index := by
  simp only [rank, Ordering.then_eq_eq, Std.LawfulEqCmp.compare_eq_iff_eq] at tie
  exact tie.2.2

theorem ahead_of_isLE (le : (a.rank close b).isLE = true) (distinct : a.index ≠ b.index) :
    a.ahead close b = true := by
  rw [ahead_iff]
  cases order : a.rank close b with
  | lt => rfl
  | eq => exact absurd (index_eq_of_rank order) distinct
  | gt => simp [order] at le

variable {entries : List Entry}

theorem pairwise_ahead (sorted : entries.Pairwise fun a b => (a.rank close b).isLE = true)
    (distinct : (entries.map Entry.index).Nodup) :
    entries.Pairwise fun a b => a.ahead close b = true :=
  (sorted.and (List.pairwise_map.mp distinct)).imp fun both => ahead_of_isLE both.1 both.2

theorem pairwise_mergeSort (order : Entry → Entry → Ordering) [Std.TransCmp order] :
    (entries.mergeSort fun a b => (order a b).isLE).Pairwise fun a b =>
      (order a b).isLE = true := by
  refine List.pairwise_mergeSort (fun _ _ _ => Std.TransCmp.isLE_trans) (fun a b => ?_) _
  have swap : order b a = (order a b).swap := Std.OrientedCmp.eq_swap
  rw [swap]
  cases order a b <;> rfl

end Entry

namespace Ledger

variable {bids : Ledger} {close maxWinners : UInt32} {e : Entry}

/-- A ledger whose positions can all be told apart by a 32-bit index. -/
def Indexed (bids : Ledger) : Prop := bids.size ≤ UInt32.size

theorem toNat_ofNat_position {position : Nat} (indexed : bids.Indexed)
    (bound : position < bids.size) : (UInt32.ofNat position).toNat = position :=
  UInt32.toNat_ofNat_of_lt' (Nat.lt_of_lt_of_le bound indexed)

@[simp]
theorem entry?_eq_some {index : UInt32} :
    bids.entry? index = some e ↔ e.index = index ∧ bids[index.toNat]? = some e.bid := by
  cases e with
  | mk position bid =>
    unfold entry?
    simp only [Option.map_eq_some_iff, Entry.mk.injEq]
    constructor
    · rintro ⟨_, found, rfl, rfl⟩
      exact ⟨rfl, found⟩
    · rintro ⟨rfl, found⟩
      exact ⟨bid, found, rfl, rfl⟩

theorem entry?_isSome {index : UInt32} :
    (∃ e, bids.entry? index = some e) ↔ index.toNat < bids.size := by
  rw [← Option.isSome_iff_exists, entry?, Option.isSome_map, isSome_getElem?]

@[simp]
theorem length_entries : bids.entries.length = bids.size := by simp [entries]

theorem map_index_entries :
    bids.entries.map Entry.index = (List.range bids.size).map UInt32.ofNat := by
  have positions : bids.toList.zipIdx.map Prod.snd = List.range bids.size := by
    simp [List.range_eq_range']
  rw [← positions, List.map_map, entries, List.map_map]
  rfl

theorem mem_entries (indexed : bids.Indexed) : e ∈ bids.entries ↔ bids.entry? e.index = some e := by
  have member : e ∈ bids.entries ↔
      ∃ position, bids[position]? = some e.bid ∧ UInt32.ofNat position = e.index := by
    cases e with
    | mk index bid => simp [entries, List.mem_zipIdx_iff_getElem?]
  rw [member, entry?_eq_some]
  constructor
  · rintro ⟨position, found, index⟩
    have bound : position < bids.size := by
      have := Array.getElem?_eq_some_iff.mp found
      exact this.1
    rw [← index, toNat_ofNat_position indexed bound]
    exact ⟨rfl, found⟩
  · rintro ⟨-, found⟩
    exact ⟨e.index.toNat, found, by simp⟩

theorem nodup_index_entries (indexed : bids.Indexed) :
    (bids.entries.map Entry.index).Nodup := by
  rw [map_index_entries]
  refine List.Nodup.map_on ?_ List.nodup_range
  intro first firstBound second secondBound equal
  have equal := congrArg UInt32.toNat equal
  rwa [toNat_ofNat_position indexed (List.mem_range.mp firstBound),
    toNat_ofNat_position indexed (List.mem_range.mp secondBound)] at equal

theorem ranked_perm : (bids.ranked close).Perm bids.entries := List.mergeSort_perm _ _

@[simp]
theorem length_ranked : (bids.ranked close).length = bids.size := by
  rw [ranked_perm.length_eq, length_entries]

theorem nodup_index_ranked (close : UInt32) (indexed : bids.Indexed) :
    ((bids.ranked close).map Entry.index).Nodup :=
  (ranked_perm.map Entry.index).nodup_iff.mpr (nodup_index_entries indexed)

theorem ranked_pairwise (close : UInt32) (indexed : bids.Indexed) :
    (bids.ranked close).Pairwise fun a b => a.ahead close b = true :=
  Entry.pairwise_ahead (Entry.pairwise_mergeSort _) (nodup_index_ranked close indexed)

@[simp]
theorem length_winningEntries :
    (bids.winningEntries close maxWinners).length = winnerCount bids.size maxWinners := by
  simp [winningEntries, winnerCount]

@[simp]
theorem length_canonicalWinners :
    (bids.canonicalWinners close maxWinners).length = winnerCount bids.size maxWinners := by
  simp [canonicalWinners]

theorem winningEntries_sublist :
    (bids.winningEntries close maxWinners).Sublist (bids.ranked close) := List.take_sublist _ _

theorem nodup_canonicalWinners (close maxWinners : UInt32) (indexed : bids.Indexed) :
    (bids.canonicalWinners close maxWinners).Nodup :=
  (winningEntries_sublist.map Entry.index).nodup (nodup_index_ranked close indexed)

theorem winningEntries_pairwise (indexed : bids.Indexed) :
    (bids.winningEntries close maxWinners).Pairwise fun a b => a.ahead close b = true :=
  (ranked_pairwise close indexed).sublist winningEntries_sublist

theorem entry?_of_mem_winningEntries (indexed : bids.Indexed)
    (member : e ∈ bids.winningEntries close maxWinners) : bids.entry? e.index = some e :=
  (mem_entries indexed).mp (ranked_perm.mem_iff.mp (winningEntries_sublist.subset member))

theorem lt_size_of_mem_canonicalWinners (indexed : bids.Indexed) {index : UInt32}
    (member : index ∈ bids.canonicalWinners close maxWinners) : index.toNat < bids.size := by
  obtain ⟨e, wins, rfl⟩ := List.mem_map.mp member
  exact entry?_isSome.mp ⟨e, entry?_of_mem_winningEntries indexed wins⟩

theorem ahead_of_not_winning (indexed : bids.Indexed) {winner other : Entry}
    (wins : winner ∈ bids.winningEntries close maxWinners)
    (listed : bids.entry? other.index = some other)
    (loses : other ∉ bids.winningEntries close maxWinners) :
    winner.ahead close other = true := by
  have ranked : other ∈ bids.ranked close :=
    ranked_perm.mem_iff.mpr ((mem_entries indexed).mpr listed)
  have split := List.take_append_drop (winnerCount bids.size maxWinners) (bids.ranked close)
  have below : other ∈ (bids.ranked close).drop (winnerCount bids.size maxWinners) := by
    rw [← split, List.mem_append] at ranked
    exact ranked.resolve_left loses
  have sorted := ranked_pairwise close indexed
  rw [← split, List.pairwise_append] at sorted
  exact sorted.2.2 winner wins other below

theorem wins_of_ahead (indexed : bids.Indexed) {winner other : Entry}
    (wins : winner ∈ bids.winningEntries close maxWinners)
    (listed : bids.entry? other.index = some other) (ahead : other.ahead close winner = true) :
    other ∈ bids.winningEntries close maxWinners :=
  by_contra fun loses => Entry.ahead_asymm ahead (ahead_of_not_winning indexed wins listed loses)

theorem index_mem_canonicalWinners (indexed : bids.Indexed)
    (listed : bids.entry? e.index = some e) :
    e.index ∈ bids.canonicalWinners close maxWinners ↔
      e ∈ bids.winningEntries close maxWinners := by
  constructor
  · intro named
    obtain ⟨same, wins, index⟩ := List.mem_map.mp named
    have found := entry?_of_mem_winningEntries indexed wins
    rw [index, listed, Option.some.injEq] at found
    exact found ▸ wins
  · exact List.mem_map_of_mem

/-- A strictly ordered choice of as many bids as win, without a winner missing, is the winners. -/
theorem eq_winningEntries (indexed : bids.Indexed) {chosen : List Entry}
    (listed : ∀ e ∈ chosen, bids.entry? e.index = some e)
    (sorted : chosen.Pairwise fun a b => a.ahead close b = true)
    (length : chosen.length = winnerCount bids.size maxWinners)
    (complete : ∀ e ∈ bids.winningEntries close maxWinners, e.index ∈ chosen.map Entry.index) :
    chosen = bids.winningEntries close maxWinners := by
  have contains : ∀ e ∈ bids.winningEntries close maxWinners, e ∈ chosen := by
    intro e member
    obtain ⟨same, chosenMember, index⟩ := List.mem_map.mp (complete e member)
    have entry := listed same chosenMember
    rw [index, entry?_of_mem_winningEntries indexed member, Option.some.injEq] at entry
    exact entry ▸ chosenMember
  have nodup := (nodup_canonicalWinners close maxWinners indexed).of_map
  have perm : (bids.winningEntries close maxWinners).Perm chosen :=
    (List.subperm_of_subset nodup contains).perm_of_length_le
      (Nat.le_of_eq (by rw [length, length_winningEntries]))
  exact List.Perm.eq_of_pairwise
    (fun a b _ _ first second => absurd second (Entry.ahead_asymm first))
    sorted (winningEntries_pairwise indexed) perm.symm

end Ledger

end CandleAuction
