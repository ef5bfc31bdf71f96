import CandleAuction.Proofs.Ranking.Tally
import Mathlib.Data.List.TFAE
import Mathlib.Data.List.Chain
import Mathlib.Data.List.Permutation
import Mathlib.Tactic.TFAE

/-!
# Fraud detection decides correctness

The checks of a claim see its own entries and one disputed bid. Together they
leave only the canonical winners: a distinct, ordered list of the right length
that misses a winner lists a loser in its place, and then the missing winner
ranks ahead of its last entry. So one well-chosen dispute settles every claim.
-/

namespace CandleAuction

namespace Claim

variable {c : Claim} {bids : Ledger} {close maxWinners disputed : UInt32} {entries : List Entry}

/-- The claim names the canonical winners and what they raise. -/
structure Correct (c : Claim) (bids : Ledger) (close maxWinners : UInt32) : Prop where
  winners : c.winners = bids.canonicalWinners close maxWinners
  total : c.total.toNat = Entry.worth (bids.winningEntries close maxWinners)

/-- The checks that a claim passes on its own, whichever bid is in dispute. -/
structure Consistent (c : Claim) (bids : Ledger) (close maxWinners : UInt32)
    (entries : List Entry) : Prop where
  distinct : c.winners.Nodup
  count : c.winners.length = Ledger.winnerCount bids.size maxWinners
  found : c.entries? bids = some entries
  ordered : entries.Pairwise fun a b => a.ahead close b = true
  total : c.total.toNat = Entry.worth entries

/-- The claim lists as many bids of the ledger as win, once each and in their order. -/
structure Ranked (c : Claim) (bids : Ledger) (close maxWinners : UInt32)
    (entries : List Entry) : Prop where
  distinct : c.winners.Nodup
  count : c.winners.length = Ledger.winnerCount bids.size maxWinners
  found : c.entries? bids = some entries
  ordered : entries.Pairwise fun a b => a.ahead close b = true

theorem Consistent.ranked (consistent : c.Consistent bids close maxWinners entries) :
    c.Ranked bids close maxWinners entries :=
  ⟨consistent.distinct, consistent.count, consistent.found, consistent.ordered⟩

theorem descending_iff_isChain :
    descending close entries = true ↔ entries.IsChain fun a b => a.ahead close b = true := by
  induction entries with
  | nil => simp [descending]
  | cons first rest inductionHypothesis =>
      cases rest with
      | nil => simp [descending]
      | cons second rest =>
          rw [List.isChain_cons_cons, ← inductionHypothesis]
          simp [descending]

theorem descending_iff :
    descending close entries = true ↔ entries.Pairwise fun a b => a.ahead close b = true := by
  have : IsTrans Entry fun a b => a.ahead close b = true := ⟨fun _ _ _ => Entry.ahead_trans⟩
  rw [descending_iff_isChain, List.isChain_iff_pairwise]

theorem fraud?_eq_none_iff :
    c.fraud? bids close maxWinners disputed = none ↔
      ∃ entries, c.Consistent bids close maxWinners entries ∧
        c.exclusionAt? bids close entries disputed = none := by
  unfold fraud?
  constructor
  · intro none
    split at none
    · cases none
    rename_i distinct
    split at none
    · cases none
    rename_i count
    split at none
    · cases none
    rename_i entries found
    split at none
    · cases none
    rename_i ordered
    split at none
    · cases none
    rename_i excluded
    split at none
    · cases none
    rename_i sum
    exact ⟨entries, ⟨distinct_iff.mp (by simpa using distinct), by simpa using count, found,
      descending_iff.mp (by simpa using ordered), sum?_eq_some.mp (by simpa using sum)⟩, excluded⟩
  · rintro ⟨entries, consistent, excluded⟩
    have distinct := distinct_iff.mpr consistent.distinct
    have ordered := descending_iff.mpr consistent.ordered
    have sum := sum?_eq_some.mpr consistent.total
    simp [distinct, consistent.count, consistent.found, ordered, excluded, sum]

theorem entries?_eq_some :
    c.entries? bids = some entries ↔
      entries.map Entry.index = c.winners ∧ ∀ e ∈ entries, bids.entry? e.index = some e := by
  rw [entries?]
  induction c.winners generalizing entries with
  | nil =>
      simp only [List.mapM_nil, Option.pure_def, Option.some.injEq, List.map_eq_nil_iff]
      constructor
      · rintro rfl
        simp
      · rintro ⟨rfl, -⟩
        rfl
  | cons index rest inductionHypothesis =>
      simp only [List.mapM_cons, Option.bind_eq_bind, Option.bind_eq_some_iff, Option.pure_def,
        Option.some.injEq, inductionHypothesis]
      constructor
      · rintro ⟨first, found, others, ⟨indices, listed⟩, rfl⟩
        have index := (Ledger.entry?_eq_some.mp found).1
        simp only [List.map_cons, indices, index, List.forall_mem_cons, true_and]
        exact ⟨found, listed⟩
      · rintro ⟨indices, listed⟩
        cases entries with
        | nil => simp at indices
        | cons first others =>
            rw [List.map_cons, List.cons.injEq] at indices
            rw [List.forall_mem_cons] at listed
            exact ⟨first, indices.1 ▸ listed.1, others, ⟨indices.2, listed.2⟩, rfl⟩

theorem exclusionAt?_eq_none_iff :
    c.exclusionAt? bids close entries disputed = none ↔
      ∀ last ∈ entries.getLast?, ∀ e ∈ bids.entry? disputed,
        e.ahead close last = true → disputed ∈ c.winners := by
  simp only [exclusionAt?, Option.bind_eq_bind, Option.bind_eq_none_iff, Option.mem_def]
  refine forall₂_congr fun last _ => forall₂_congr fun e found => ?_
  rw [exclusion?, (Ledger.entry?_eq_some.mp found).1]
  by_cases listed : disputed ∈ c.winners
  · simp [listed]
  · cases e.ahead close last <;> simp [listed]
    split <;> simp

theorem Correct.consistent (indexed : bids.Indexed) (correct : c.Correct bids close maxWinners) :
    c.Consistent bids close maxWinners (bids.winningEntries close maxWinners) where
  distinct := correct.winners ▸ Ledger.nodup_canonicalWinners close maxWinners indexed
  count := by rw [correct.winners, Ledger.length_canonicalWinners]
  found := entries?_eq_some.mpr
    ⟨correct.winners.symm, fun _ => Ledger.entry?_of_mem_winningEntries indexed⟩
  ordered := Ledger.winningEntries_pairwise indexed
  total := correct.total

theorem Correct.fraud?_eq_none (indexed : bids.Indexed)
    (correct : c.Correct bids close maxWinners) :
    c.fraud? bids close maxWinners disputed = none := by
  refine fraud?_eq_none_iff.mpr ⟨_, correct.consistent indexed, exclusionAt?_eq_none_iff.mpr ?_⟩
  intro last isLast e found ahead
  have index := (Ledger.entry?_eq_some.mp found).1
  rw [correct.winners, ← index]
  refine List.mem_map_of_mem (f := Entry.index) (by_contra fun loses => ?_)
  have below := Ledger.ahead_of_not_winning indexed (List.mem_of_getLast? isLast)
    (index ▸ found) loses
  exact Entry.ahead_asymm ahead below

/-- The disputed bid of the search is a missing winner, unless none is missing. -/
theorem disputed_spec (c : Claim) (bids : Ledger) (close maxWinners : UInt32) :
    (∀ index ∈ bids.canonicalWinners close maxWinners, index ∈ c.winners) ∨
      c.disputed bids close maxWinners ∈ bids.canonicalWinners close maxWinners ∧
        c.disputed bids close maxWinners ∉ c.winners := by
  have listed (index : UInt32) :
      (Std.HashSet.ofList c.winners).contains index = c.winners.contains index := by
    rw [Std.HashSet.contains_ofList]
  simp only [disputed, listed]
  cases search : (bids.canonicalWinners close maxWinners).find?
      fun index => !c.winners.contains index with
  | none =>
      left
      intro index member
      simpa using List.find?_eq_none.mp search index member
  | some index =>
      right
      exact ⟨List.mem_of_find?_eq_some search, by simpa using List.find?_some search⟩

theorem Ranked.exists_loser (ranked : c.Ranked bids close maxWinners entries) {missing : UInt32}
    (wins : missing ∈ bids.canonicalWinners close maxWinners) (absent : missing ∉ c.winners) :
    ∃ loser ∈ entries, loser ∉ bids.winningEntries close maxWinners := by
  by_contra none
  push Not at none
  have indices := (entries?_eq_some.mp ranked.found).1
  have subset : c.winners ⊆ bids.canonicalWinners close maxWinners := by
    rw [← indices]
    exact List.map_subset Entry.index none
  have perm := (List.subperm_of_subset ranked.distinct subset).perm_of_length_le
    (Nat.le_of_eq (by rw [Ledger.length_canonicalWinners, ranked.count]))
  exact absent (perm.mem_iff.mpr wins)

theorem Ranked.eq_or_ahead_last (ranked : c.Ranked bids close maxWinners entries)
    {last e : Entry} (isLast : last ∈ entries.getLast?) (member : e ∈ entries) :
    e = last ∨ e.ahead close last = true := by
  obtain ⟨before, rfl⟩ := List.getLast?_eq_some_iff.mp isLast
  rcases List.mem_append.mp member with earlier | final
  · exact .inr ((List.pairwise_append.mp ranked.ordered).2.2 e earlier last
      (List.mem_singleton_self _))
  · exact .inl (List.mem_singleton.mp final)

/-- A missing winner ranks ahead of the last entry of a ranked claim. -/
theorem Ranked.ahead_last (indexed : bids.Indexed)
    (ranked : c.Ranked bids close maxWinners entries) {missing : Entry}
    (wins : missing ∈ bids.winningEntries close maxWinners) (absent : missing.index ∉ c.winners) :
    ∃ last ∈ entries.getLast?, missing.ahead close last = true := by
  obtain ⟨loser, member, loses⟩ :=
    ranked.exists_loser (List.mem_map_of_mem (f := Entry.index) wins) absent
  have listed := (entries?_eq_some.mp ranked.found).2 loser member
  have ahead := Ledger.ahead_of_not_winning indexed wins listed loses
  have nonempty : entries ≠ [] := List.ne_nil_of_mem member
  have isLast := List.getLast?_eq_some_getLast nonempty
  refine ⟨entries.getLast nonempty, isLast, ?_⟩
  rcases ranked.eq_or_ahead_last isLast member with same | earlier
  · exact same ▸ ahead
  · exact Entry.ahead_trans ahead earlier

/-- A ranked claim without a winner missing lists the winners. -/
theorem Ranked.eq_winningEntries (indexed : bids.Indexed)
    (ranked : c.Ranked bids close maxWinners entries)
    (complete : ∀ index ∈ bids.canonicalWinners close maxWinners, index ∈ c.winners) :
    entries = bids.winningEntries close maxWinners := by
  obtain ⟨indices, listed⟩ := entries?_eq_some.mp ranked.found
  refine Ledger.eq_winningEntries indexed listed ranked.ordered ?_ ?_
  · rw [← ranked.count, ← indices, List.length_map]
  · intro e member
    rw [indices]
    exact complete e.index (List.mem_map_of_mem (f := Entry.index) member)

theorem correct_of_fraud?_eq_none (indexed : bids.Indexed)
    (survives : c.fraud? bids close maxWinners (c.disputed bids close maxWinners) = none) :
    c.Correct bids close maxWinners := by
  obtain ⟨entries, consistent, excluded⟩ := fraud?_eq_none_iff.mp survives
  have ranked := consistent.ranked
  have complete : ∀ index ∈ bids.canonicalWinners close maxWinners, index ∈ c.winners := by
    rcases disputed_spec c bids close maxWinners with complete | ⟨wins, absent⟩
    · exact complete
    · obtain ⟨missing, member, index⟩ := List.mem_map.mp wins
      obtain ⟨last, isLast, ahead⟩ := ranked.ahead_last indexed member (index ▸ absent)
      have found := Ledger.entry?_of_mem_winningEntries indexed member
      rw [index] at found
      exact absurd (exclusionAt?_eq_none_iff.mp excluded last isLast missing found ahead) absent
  have same := ranked.eq_winningEntries indexed complete
  have indices := (entries?_eq_some.mp consistent.found).1
  exact ⟨by rw [← indices, same, Ledger.canonicalWinners], same ▸ consistent.total⟩

theorem counterExample?_eq_none_iff :
    c.counterExample? bids close maxWinners = none ↔
      c.fraud? bids close maxWinners (c.disputed bids close maxWinners) = none := by
  simp [counterExample?]

theorem fraud?_of_counterExample? {found : CounterExample}
    (shown : c.counterExample? bids close maxWinners = some found) :
    c.fraud? bids close maxWinners found.disputed = some found.reason := by
  obtain ⟨reason, fraud, rfl⟩ := Option.map_eq_some_iff.mp shown
  exact fraud

/-- A claim is correct exactly if no dispute overturns it, and exactly if the
search finds no counter-example. A wrong claim falls to the one bid it disputes. -/
theorem correct_iff_undisputed (c : Claim) (bids : Ledger) (close maxWinners : UInt32)
    (indexed : bids.size ≤ UInt32.size) :
    [c.Correct bids close maxWinners,
      ∀ disputed, c.fraud? bids close maxWinners disputed = none,
      c.counterExample? bids close maxWinners = none].TFAE ∧
    (¬ c.Correct bids close maxWinners →
      ∃ reason, c.fraud? bids close maxWinners (c.disputed bids close maxWinners) = some reason ∧
        c.counterExample? bids close maxWinners =
          some ⟨c.disputed bids close maxWinners, reason⟩) := by
  constructor
  · tfae_have 1 → 2 := fun correct disputed =>
      Correct.fraud?_eq_none indexed ⟨correct.1, correct.2⟩
    tfae_have 2 → 3 := fun survives => counterExample?_eq_none_iff.mpr (survives _)
    tfae_have 3 → 1 := fun none =>
      correct_of_fraud?_eq_none indexed (counterExample?_eq_none_iff.mp none)
    tfae_finish
  · intro wrong
    cases verdict : c.fraud? bids close maxWinners (c.disputed bids close maxWinners) with
    | none => exact absurd (correct_of_fraud?_eq_none indexed verdict) wrong
    | some reason => exact ⟨reason, rfl, by simp [counterExample?, verdict]⟩

/-- Three bids of which the highest came too late. -/
def lateLedger : Ledger :=
  #[⟨.fill 1, 5, 100, false⟩, ⟨.fill 2, 6, 100, false⟩, ⟨.fill 3, 50, 200, false⟩]

/-- The two bids in time win, the earlier of them first, and no dispute changes that. -/
theorem correct_iff_undisputed_late :
    lateLedger.size ≤ UInt32.size ∧
      ∀ disputed, (⟨[0, 1], 200⟩ : Claim).fraud? lateLedger 40 2 disputed = none := by
  have indexed : lateLedger.size ≤ UInt32.size := by decide
  have correct : (⟨[0, 1], 200⟩ : Claim).Correct lateLedger 40 2 := ⟨by cbv, by cbv⟩
  exact ⟨indexed, ((correct_iff_undisputed ⟨[0, 1], 200⟩ lateLedger 40 2 indexed).1.out 0 1).mp
    correct⟩

end Claim

end CandleAuction
