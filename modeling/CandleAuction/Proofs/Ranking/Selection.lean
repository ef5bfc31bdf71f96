import CandleAuction.Proofs.Ranking.Order
import Mathlib.Data.List.Permutation

/-!
# Selecting the winners

The winners are found without sorting the whole ledger: unless all bids win, the
best are brought to the front, and only these are sorted. As ranking has no
ties, it does not matter how either is done. What comes out is the top of the
ranked ledger, the one list that has every bid on it ahead of every other bid.
-/

namespace CandleAuction

/-- A procedure that sorts by any total order it is given. -/
def Sorts (sort : (Entry → Entry → Ordering) → List Entry → List Entry) : Prop :=
  ∀ (order : Entry → Entry → Ordering) [Std.TransCmp order] (entries : List Entry),
    (sort order entries).Perm entries ∧
      (sort order entries).Pairwise fun a b => (order a b).isLE = true

/-- A procedure that brings the entry of any rank to its place in any total order it is
given: nothing before it comes behind it in the order, and nothing after it ahead. -/
def Selects (select : (Entry → Entry → Ordering) → Nat → List Entry → List Entry) : Prop :=
  ∀ (order : Entry → Entry → Ordering) [Std.TransCmp order] (position : Nat)
    (entries : List Entry), position < entries.length →
    (select order position entries).Perm entries ∧
      ∃ before pivot after, select order position entries = before ++ pivot :: after ∧
        before.length = position ∧ (∀ e ∈ before, (order e pivot).isLE = true) ∧
        ∀ e ∈ after, (order pivot e).isLE = true

theorem sorts_mergeSort :
    Sorts fun order entries => entries.mergeSort fun a b => (order a b).isLE :=
  fun _ _ _ => ⟨List.mergeSort_perm _ _, Entry.pairwise_mergeSort _⟩

/-- To sort a list as a whole is one way of bringing an entry to its place. -/
theorem Sorts.selects {sort : (Entry → Entry → Ordering) → List Entry → List Entry}
    (sorts : Sorts sort) : Selects fun order _ entries => sort order entries := by
  intro order _ position entries bound
  obtain ⟨perm, sorted⟩ := sorts order entries
  have inside : position < (sort order entries).length := perm.length_eq ▸ bound
  have parts := List.take_append_drop position (sort order entries)
  rw [List.drop_eq_getElem_cons inside] at parts
  rw [← parts, List.pairwise_append, List.pairwise_cons] at sorted
  exact ⟨perm, _, _, _, parts.symm, List.length_take_of_le (Nat.le_of_lt inside),
    fun e before => sorted.2.2 e before _ List.mem_cons_self, sorted.2.1.1⟩

namespace Entry

variable {close : UInt32} {a b : Entry}

theorem ne_of_ahead (ahead : a.ahead close b = true) : a ≠ b := by
  rintro rfl
  exact ahead_asymm ahead ahead

theorem not_ahead_of_late (late : a.bid.eligible close = false)
    (eligible : b.bid.eligible close = true) : ¬ a.ahead close b = true := by
  rw [ahead_iff, rank, late, eligible]
  intro ahead
  cases ahead

end Entry

namespace Ledger

variable {select : (Entry → Entry → Ordering) → Nat → List Entry → List Entry}
  {sort : (Entry → Entry → Ordering) → List Entry → List Entry}
  {bids : Ledger} {close maxWinners : UInt32}

/-- As many of the best entries as are counted, in any order. -/
def foremost (select : (Entry → Entry → Ordering) → Nat → List Entry → List Entry)
    (bids : Ledger) (close : UInt32) (count : Nat) : List Entry :=
  if count < bids.size then (select (Entry.rank close) (count - 1) bids.entries).take count
  else bids.entries

/-- The winners, by sorting only the foremost entries. -/
def selected (select : (Entry → Entry → Ordering) → Nat → List Entry → List Entry)
    (sort : (Entry → Entry → Ordering) → List Entry → List Entry)
    (bids : Ledger) (close maxWinners : UInt32) : List UInt32 :=
  let count := winnerCount bids.size maxWinners
  if count = 0 then []
  else (sort (Entry.rank close) (bids.foremost select close count)).map Entry.index

/-- The bid at one index ranks ahead of the bid at another. -/
def Ahead (bids : Ledger) (close first second : UInt32) : Prop :=
  ∃ a b, bids.entry? first = some a ∧ bids.entry? second = some b ∧ a.rank close b = .lt

/-- A list that names as many bids as win, in their order, and no bid behind another. -/
structure Top (bids : Ledger) (close maxWinners : UInt32) (winners : List UInt32) : Prop where
  length : winners.length = min maxWinners.toNat bids.size
  inRange : ∀ index ∈ winners, index.toNat < bids.size
  distinct : winners.Nodup
  increasing : winners.Pairwise (bids.Ahead close)
  ahead : ∀ winner ∈ winners, ∀ other, other.toNat < bids.size → other ∉ winners →
    bids.Ahead close winner other

theorem eq_winningEntries_of_ahead (indexed : bids.Indexed) {chosen : List Entry}
    (listed : ∀ e ∈ chosen, bids.entry? e.index = some e)
    (sorted : chosen.Pairwise fun a b => a.ahead close b = true)
    (length : chosen.length = winnerCount bids.size maxWinners)
    (ahead : ∀ e ∈ chosen, ∀ other, bids.entry? other.index = some other → other ∉ chosen →
      e.ahead close other = true) :
    chosen = bids.winningEntries close maxWinners := by
  have nodup : chosen.Nodup := sorted.imp Entry.ne_of_ahead
  refine eq_winningEntries indexed listed sorted length fun e wins => ?_
  by_contra missing
  have unchosen : e ∉ chosen := fun member => missing (List.mem_map_of_mem member)
  obtain ⟨loser, member, loses⟩ :
      ∃ loser ∈ chosen, loser ∉ bids.winningEntries close maxWinners := by
    by_contra all
    push Not at all
    have perm := (List.subperm_of_subset nodup all).perm_of_length_le
      (Nat.le_of_eq (by rw [length, length_winningEntries]))
    exact unchosen (perm.mem_iff.mpr wins)
  have winner := entry?_of_mem_winningEntries indexed wins
  exact Entry.ahead_asymm (ahead loser member e winner unchosen)
    (ahead_of_not_winning indexed wins (listed loser member) loses)

theorem canonicalWinners_eq_take :
    bids.canonicalWinners close maxWinners =
      ((bids.ranked close).map Entry.index).take maxWinners.toNat := by
  rw [canonicalWinners, winningEntries, winnerCount, Nat.min_comm, ← @length_ranked bids close,
    ← List.take_eq_take_min, List.map_take]

theorem sort_entries (sorts : Sorts sort) (indexed : bids.Indexed) :
    sort (Entry.rank close) bids.entries = bids.ranked close := by
  obtain ⟨perm, sorted⟩ := sorts (Entry.rank close) bids.entries
  have distinct := (perm.map Entry.index).nodup_iff.mpr (nodup_index_entries indexed)
  exact List.Perm.eq_of_pairwise
    (fun a b _ _ first second => absurd second (Entry.ahead_asymm first))
    (Entry.pairwise_ahead sorted distinct) (ranked_pairwise close indexed)
    (perm.trans ranked_perm.symm)

theorem foremost_spec (selects : Selects select) (indexed : bids.Indexed) (close : UInt32)
    {count : Nat} (positive : count ≠ 0) (le : count ≤ bids.size) :
    (bids.foremost select close count).length = count ∧
      (bids.foremost select close count).Subperm bids.entries ∧
      ∀ e ∈ bids.foremost select close count, ∀ other ∈ bids.entries,
        other ∉ bids.foremost select close count → e.ahead close other = true := by
  unfold foremost
  split
  · rename_i some
    obtain ⟨perm, before, pivot, after, parts, length, notBehind, notAhead⟩ :=
      selects (Entry.rank close) (count - 1) bids.entries (by rw [length_entries]; omega)
    have distinct := (perm.map Entry.index).nodup_iff.mpr (nodup_index_entries indexed)
    have front : (before ++ [pivot]).length = count := by
      rw [List.length_append, length, List.length_singleton]
      omega
    have split : before ++ pivot :: after = (before ++ [pivot]) ++ after := by simp
    rw [parts, split] at perm distinct
    rw [parts, split, ← front, List.take_left]
    refine ⟨rfl, (List.sublist_append_left _ _).subperm.trans perm.subperm, ?_⟩
    intro e kept other entry dropped
    have behind : other ∈ after :=
      (List.mem_append.mp (perm.mem_iff.mpr entry)).resolve_left dropped
    have apart : e.index ≠ other.index := by
      rw [List.map_append] at distinct
      exact (List.nodup_append.mp distinct).2.2 _ (List.mem_map_of_mem kept) _
        (List.mem_map_of_mem behind)
    refine Entry.ahead_of_isLE ?_ apart
    rcases List.mem_append.mp kept with member | member
    · exact Std.TransCmp.isLE_trans (notBehind e member) (notAhead other behind)
    · rw [List.mem_singleton.mp member]
      exact notAhead other behind
  · rename_i all
    refine ⟨?_, List.Subperm.refl _, fun _ _ other entry dropped => absurd entry dropped⟩
    rw [length_entries]
    omega

theorem selected_eq (selects : Selects select) (sorts : Sorts sort) (indexed : bids.Indexed) :
    bids.selected select sort close maxWinners = bids.canonicalWinners close maxWinners := by
  unfold selected
  dsimp only
  split
  · rename_i zero
    rw [eq_comm, ← List.length_eq_zero_iff, length_canonicalWinners, zero]
  · rename_i positive
    obtain ⟨length, among, ahead⟩ := foremost_spec selects indexed close positive
      (Nat.min_le_left _ _)
    obtain ⟨perm, sorted⟩ := sorts (Entry.rank close)
      (bids.foremost select close (winnerCount bids.size maxWinners))
    have distinct : ((bids.foremost select close (winnerCount bids.size maxWinners)).map
        Entry.index).Nodup := by
      obtain ⟨same, equal, sublist⟩ := among
      exact (equal.map Entry.index).nodup_iff.mp
        ((sublist.map Entry.index).nodup (nodup_index_entries indexed))
    rw [canonicalWinners]
    refine congrArg (List.map Entry.index) (eq_winningEntries_of_ahead indexed ?_ ?_ ?_ ?_)
    · exact fun e member => (mem_entries indexed).mp (among.subset (perm.mem_iff.mp member))
    · exact Entry.pairwise_ahead sorted ((perm.map Entry.index).nodup_iff.mpr distinct)
    · rw [perm.length_eq, length]
    · intro e member other listed missing
      exact ahead e (perm.mem_iff.mp member) other ((mem_entries indexed).mpr listed)
        fun kept => missing (perm.mem_iff.mpr kept)

theorem exists_entries {winners : List UInt32}
    (inRange : ∀ index ∈ winners, index.toNat < bids.size) :
    ∃ chosen : List Entry, chosen.map Entry.index = winners ∧
      ∀ e ∈ chosen, bids.entry? e.index = some e := by
  induction winners with
  | nil => exact ⟨[], rfl, List.forall_mem_nil _⟩
  | cons index rest inductionHypothesis =>
      rw [List.forall_mem_cons] at inRange
      obtain ⟨e, found⟩ := entry?_isSome.mpr inRange.1
      obtain ⟨chosen, rfl, listed⟩ := inductionHypothesis inRange.2
      have number := (entry?_eq_some.mp found).1
      exact ⟨e :: chosen, by rw [List.map_cons, number],
        List.forall_mem_cons.mpr ⟨number ▸ found, listed⟩⟩

theorem ahead_iff {a b : Entry} (first : bids.entry? a.index = some a)
    (second : bids.entry? b.index = some b) :
    bids.Ahead close a.index b.index ↔ a.ahead close b = true := by
  rw [Entry.ahead_iff]
  constructor
  · rintro ⟨_, _, first', second', order⟩
    cases first.symm.trans first'
    cases second.symm.trans second'
    exact order
  · exact fun order => ⟨a, b, first, second, order⟩

theorem canonicalWinners_top (indexed : bids.Indexed) :
    bids.Top close maxWinners (bids.canonicalWinners close maxWinners) where
  length := by rw [length_canonicalWinners, winnerCount, Nat.min_comm]
  inRange _ member := lt_size_of_mem_canonicalWinners indexed member
  distinct := nodup_canonicalWinners close maxWinners indexed
  increasing := by
    refine List.pairwise_map.mpr ((winningEntries_pairwise indexed).imp_of_mem ?_)
    intro a b first second ahead
    exact (ahead_iff (entry?_of_mem_winningEntries indexed first)
      (entry?_of_mem_winningEntries indexed second)).mpr ahead
  ahead := by
    intro winner member other inRange unlisted
    obtain ⟨e, wins, rfl⟩ := List.mem_map.mp member
    obtain ⟨o, found⟩ := entry?_isSome.mpr inRange
    obtain ⟨rfl, -⟩ := entry?_eq_some.mp found
    have loses : o ∉ bids.winningEntries close maxWinners :=
      fun wins => unlisted (List.mem_map_of_mem wins)
    exact (ahead_iff (entry?_of_mem_winningEntries indexed wins) found).mpr
      (ahead_of_not_winning indexed wins found loses)

/-- Only the canonical winners are at the top. -/
theorem Top.eq_canonicalWinners (indexed : bids.Indexed) {winners : List UInt32}
    (top : bids.Top close maxWinners winners) :
    winners = bids.canonicalWinners close maxWinners := by
  obtain ⟨chosen, rfl, listed⟩ := exists_entries top.inRange
  refine congrArg (List.map Entry.index) (eq_winningEntries_of_ahead indexed listed ?_ ?_ ?_)
  · refine (List.pairwise_map.mp top.increasing).imp_of_mem ?_
    exact fun first second => (ahead_iff (listed _ first) (listed _ second)).mp
  · rw [← List.length_map (f := Entry.index), top.length, winnerCount, Nat.min_comm]
  · intro e member other entry missing
    refine (ahead_iff (listed e member) entry).mp (top.ahead _ (List.mem_map_of_mem member) _
      (entry?_isSome.mp ⟨other, entry⟩) fun named => missing ?_)
    obtain ⟨same, chosen, number⟩ := List.mem_map.mp named
    have found := listed same chosen
    rw [number, entry, Option.some.injEq] at found
    exact found ▸ chosen

/-- The winners come out of the selection as the top of the ledger, which no other list is:
as many bids as win, in their order, each ahead of every bid that is left out. They are the
first of the sorted ledger, so fewer places leave a part from the front, and a late bid gets
a place only once every eligible one has its own. -/
theorem selected_winners_top (indexed : bids.Indexed) (selects : Selects select)
    (sorts : Sorts sort) :
    bids.selected select sort close maxWinners = bids.canonicalWinners close maxWinners ∧
    (∀ winners, bids.Top close maxWinners winners ↔
      winners = bids.canonicalWinners close maxWinners) ∧
    ((sort (Entry.rank close) bids.entries).map Entry.index).take maxWinners.toNat =
      bids.canonicalWinners close maxWinners ∧
    (∀ fewer ≤ maxWinners,
      bids.canonicalWinners close fewer <+: bids.canonicalWinners close maxWinners) ∧
    ∀ winner ∈ bids.canonicalWinners close maxWinners, ∀ other late timely,
      bids[winner.toNat]? = some late → late.eligible close = false →
      bids[other.toNat]? = some timely → timely.eligible close = true →
      other ∈ bids.canonicalWinners close maxWinners := by
  refine ⟨selected_eq selects sorts indexed, fun winners => ⟨Top.eq_canonicalWinners indexed,
    fun same => same ▸ canonicalWinners_top indexed⟩, ?_, ?_, ?_⟩
  · rw [sort_entries sorts indexed, canonicalWinners_eq_take]
  · intro fewer le
    rw [canonicalWinners_eq_take, canonicalWinners_eq_take]
    exact List.take_prefix_take_left (UInt32.le_iff_toNat_le.mp le)
  · intro winner member other late timely found isLate found' isTimely
    by_contra unlisted
    have inRange := (Array.getElem?_eq_some_iff.mp found').1
    obtain ⟨a, b, entry, entry', order⟩ :=
      (canonicalWinners_top indexed).ahead winner member other inRange unlisted
    obtain ⟨rfl, place⟩ := entry?_eq_some.mp entry
    obtain ⟨rfl, place'⟩ := entry?_eq_some.mp entry'
    cases found.symm.trans place
    cases found'.symm.trans place'
    exact Entry.not_ahead_of_late isLate isTimely (Entry.ahead_iff.mpr order)

/-- Two of five bids win. The first bid is late, so its amount does not count, and of the two
that tie the earlier one wins. -/
def contestedLedger : Ledger :=
  #[⟨.fill 1, 60, 900, false⟩, ⟨.fill 2, 10, 200, false⟩, ⟨.fill 3, 20, 200, false⟩,
    ⟨.fill 4, 30, 300, false⟩, ⟨.fill 5, 40, 100, false⟩]

/-- A short ledger is sorted as a whole by either procedure. -/
theorem selected_winners_top_contested :
    contestedLedger.Indexed ∧
    Sorts (fun order entries => entries.mergeSort fun a b => (order a b).isLE) ∧
    Selects (fun order _ entries => entries.mergeSort fun a b => (order a b).isLE) ∧
    contestedLedger.selected (fun order _ entries => entries.mergeSort fun a b => (order a b).isLE)
      (fun order entries => entries.mergeSort fun a b => (order a b).isLE) 50 2 = [3, 1] ∧
    ∀ winners, contestedLedger.Top 50 2 winners ↔ winners = [3, 1] := by
  have indexed : contestedLedger.size ≤ UInt32.size := by decide
  obtain ⟨same, top, -⟩ := @selected_winners_top _ _ _ 50 2 indexed sorts_mergeSort.selects
    sorts_mergeSort
  have winners : contestedLedger.canonicalWinners 50 2 = [3, 1] := by cbv
  rw [winners] at same top
  exact ⟨indexed, sorts_mergeSort, sorts_mergeSort.selects, same, top⟩

end Ledger

end CandleAuction
