import CandleAuction.Proofs.Ranking.Fraud

/-!
# What a verdict says

The checks before the dispute judge the claim alone, so their verdicts are the
same for every disputed bid. A claim that passes them is ranked, and then a bid
that is left out and ranks ahead of its last entry shows that this entry does
not win. Such a bid is there exactly if the claim is not the canonical list.
-/

namespace CandleAuction

/-- The violations that a claim shows on its own, before any bid is disputed. -/
def FraudReason.ofClaim : List FraudReason :=
  [.duplicateIndex, .incorrectWinnerCount, .indexOutOfRange, .incorrectOrdering]

namespace Claim

variable {c : Claim} {bids : Ledger} {close maxWinners disputed : UInt32} {entries : List Entry}
  {last e : Entry} {reason : FraudReason}

theorem Ranked.fraud?_eq (ranked : c.Ranked bids close maxWinners entries) :
    c.fraud? bids close maxWinners disputed =
      (c.exclusionAt? bids close entries disputed).or
        (if sum? entries ≠ some c.total then some .incorrectTotal else none) := by
  have distinct := distinct_iff.mpr ranked.distinct
  have ordered := descending_iff.mpr ranked.ordered
  simp only [fraud?, distinct, ranked.count, ranked.found, ordered]
  cases c.exclusionAt? bids close entries disputed <;> simp

/-- A claim is either ranked or at fault on its own, whichever bid is in dispute. -/
theorem ranked_or_faulty (c : Claim) (bids : Ledger) (close maxWinners : UInt32) :
    (∃ entries, c.Ranked bids close maxWinners entries) ∨
      ∃ reason ∈ FraudReason.ofClaim,
        ∀ disputed, c.fraud? bids close maxWinners disputed = some reason := by
  unfold fraud?
  by_cases distinct : c.distinct = true
  · by_cases count : c.winners.length = Ledger.winnerCount bids.size maxWinners
    · cases found : c.entries? bids with
      | none =>
          refine .inr ⟨.indexOutOfRange, by simp [FraudReason.ofClaim], fun disputed => ?_⟩
          simp [distinct, count]
      | some entries =>
          by_cases ordered : descending close entries = true
          · exact .inl ⟨entries, distinct_iff.mp distinct, count, found,
              descending_iff.mp ordered⟩
          · refine .inr ⟨.incorrectOrdering, by simp [FraudReason.ofClaim], fun disputed => ?_⟩
            simp [distinct, count, ordered]
    · refine .inr ⟨.incorrectWinnerCount, by simp [FraudReason.ofClaim], fun disputed => ?_⟩
      simp [distinct, count]
  · refine .inr ⟨.duplicateIndex, by simp [FraudReason.ofClaim], fun disputed => ?_⟩
    simp [distinct]

theorem exclusionAt?_eq_some :
    c.exclusionAt? bids close entries disputed = some reason ↔
      ∃ last ∈ entries.getLast?, ∃ e, bids.entry? disputed = some e ∧ disputed ∉ c.winners ∧
        e.ahead close last = true ∧
        (if e.bid.eligible close = true ∧ last.bid.eligible close = false then .lateBidIncluded
          else .excludedHigherBid) = reason := by
  simp only [exclusionAt?, Option.bind_eq_bind, Option.bind_eq_some_iff, Option.mem_def]
  refine exists_congr fun last => and_congr_right fun _ => ?_
  refine exists_congr fun e => and_congr_right fun found => ?_
  rw [exclusion?, (Ledger.entry?_eq_some.mp found).1]
  by_cases listed : disputed ∈ c.winners
  · simp [listed]
  · cases e.ahead close last <;> simp [listed]
    split <;> simp

theorem Ranked.not_ofClaim (ranked : c.Ranked bids close maxWinners entries)
    (own : reason ∈ FraudReason.ofClaim) :
    c.fraud? bids close maxWinners disputed ≠ some reason := by
  intro shown
  rw [ranked.fraud?_eq, Option.or_eq_some_iff] at shown
  rcases shown with excluded | ⟨-, total⟩
  · obtain ⟨last, -, e, -, -, -, rfl⟩ := exclusionAt?_eq_some.mp excluded
    split at own <;> simp [FraudReason.ofClaim] at own
  · split at total
    · cases total
      simp [FraudReason.ofClaim] at own
    · cases total

theorem exists_ranked_iff :
    (∃ entries, c.Ranked bids close maxWinners entries) ↔
      ∀ disputed, ∀ reason ∈ FraudReason.ofClaim,
        c.fraud? bids close maxWinners disputed ≠ some reason := by
  constructor
  · rintro ⟨entries, ranked⟩ disputed reason own
    exact ranked.not_ofClaim own
  · intro passes
    rcases ranked_or_faulty c bids close maxWinners with ranked | ⟨reason, own, faulty⟩
    · exact ranked
    · exact absurd (faulty 0) (passes 0 reason own)

theorem Ranked.last_loses (indexed : bids.Indexed)
    (ranked : c.Ranked bids close maxWinners entries) (isLast : last ∈ entries.getLast?)
    (found : bids.entry? e.index = some e) (unlisted : e.index ∉ c.winners)
    (ahead : e.ahead close last = true) :
    last.index ∉ bids.canonicalWinners close maxWinners := by
  obtain ⟨indices, listed⟩ := entries?_eq_some.mp ranked.found
  have lastListed := listed last (List.mem_of_getLast? isLast)
  intro named
  have wins := (Ledger.index_mem_canonicalWinners indexed lastListed).mp named
  have all : e.index :: c.winners ⊆ bids.canonicalWinners close maxWinners := by
    refine List.cons_subset.mpr ⟨?_, ?_⟩
    · exact List.mem_map_of_mem (Ledger.wins_of_ahead indexed wins found ahead)
    · rw [← indices]
      refine List.map_subset Entry.index fun other member => ?_
      rcases ranked.eq_or_ahead_last isLast member with rfl | earlier
      · exact wins
      · exact Ledger.wins_of_ahead indexed wins (listed other member) earlier
  have distinct : (e.index :: c.winners).Nodup := List.nodup_cons.mpr ⟨unlisted, ranked.distinct⟩
  have few := distinct.length_le_of_subset all
  rw [List.length_cons, ranked.count, Ledger.length_canonicalWinners] at few
  omega

/-- What a disputed bid has shown about a claim: it is left out and ranks ahead of the last bid
listed, which does not win. -/
structure Excludes (c : Claim) (bids : Ledger) (close maxWinners disputed last : UInt32)
    (left kept : Bid) : Prop where
  isLast : last ∈ c.winners.getLast?
  found : bids[disputed.toNat]? = some left
  listed : bids[last.toNat]? = some kept
  unlisted : disputed ∉ c.winners
  ahead : (⟨disputed, left⟩ : Entry).ahead close ⟨last, kept⟩ = true
  loses : last ∉ bids.canonicalWinners close maxWinners

theorem exists_excludes (indexed : bids.Indexed)
    (shown : c.fraud? bids close maxWinners disputed = some reason)
    (own : reason ∉ FraudReason.ofClaim) (total : reason ≠ .incorrectTotal) :
    ∃ last left kept, c.Excludes bids close maxWinners disputed last left kept ∧
      (if left.eligible close = true ∧ kept.eligible close = false then .lateBidIncluded
        else .excludedHigherBid) = reason := by
  obtain ⟨entries, ranked⟩ : ∃ entries, c.Ranked bids close maxWinners entries := by
    refine (ranked_or_faulty c bids close maxWinners).resolve_right ?_
    rintro ⟨fault, faulty, always⟩
    exact own (Option.some.inj (shown.symm.trans (always disputed)) ▸ faulty)
  rw [ranked.fraud?_eq, Option.or_eq_some_iff] at shown
  rcases shown with excluded | ⟨-, other⟩
  · obtain ⟨last, isLast, e, found, unlisted, ahead, reason⟩ := exclusionAt?_eq_some.mp excluded
    obtain ⟨indices, listed⟩ := entries?_eq_some.mp ranked.found
    obtain ⟨rfl, place⟩ := Ledger.entry?_eq_some.mp found
    refine ⟨last.index, e.bid, last.bid, ⟨?_, place, ?_, unlisted, ahead, ?_⟩, reason⟩
    · rw [← indices, List.getLast?_map, Option.mem_def.mp isLast]
      rfl
    · exact (Ledger.entry?_eq_some.mp (listed last (List.mem_of_getLast? isLast))).2
    · exact ranked.last_loses indexed isLast found unlisted ahead
  · split at other
    · exact absurd (Option.some.inj other).symm total
    · cases other

theorem exists_excludes_of_late (indexed : bids.Indexed)
    (shown : c.fraud? bids close maxWinners disputed = some .lateBidIncluded) :
    ∃ last left kept, c.Excludes bids close maxWinners disputed last left kept ∧
      left.eligible close = true ∧ kept.eligible close = false := by
  obtain ⟨last, left, kept, shows, kind⟩ :=
    exists_excludes indexed shown (by simp [FraudReason.ofClaim]) (by simp)
  refine ⟨last, left, kept, shows, ?_⟩
  by_contra same
  rw [if_neg same] at kind
  cases kind

theorem exists_excludes_of_higher (indexed : bids.Indexed)
    (shown : c.fraud? bids close maxWinners disputed = some .excludedHigherBid) :
    ∃ last left kept, c.Excludes bids close maxWinners disputed last left kept ∧
      left.eligible close = kept.eligible close ∧
      (kept.amount < left.amount ∨ left.amount = kept.amount ∧ disputed < last) := by
  obtain ⟨last, left, kept, shows, kind⟩ :=
    exists_excludes indexed shown (by simp [FraudReason.ofClaim]) (by simp)
  refine ⟨last, left, kept, shows, (Entry.ahead_iff_keys.mp shows.ahead).resolve_left ?_⟩
  intro late
  rw [if_pos late] at kind
  cases kind

/-- A ranked claim that is not the canonical list leaves out a bid that shows it. -/
theorem Ranked.exists_exclusion (indexed : bids.Indexed)
    (ranked : c.Ranked bids close maxWinners entries)
    (wrong : c.winners ≠ bids.canonicalWinners close maxWinners) :
    ∃ disputed reason, c.exclusionAt? bids close entries disputed = some reason := by
  obtain ⟨missing, wins, absent⟩ :
      ∃ missing ∈ bids.winningEntries close maxWinners, missing.index ∉ c.winners := by
    by_contra none
    push Not at none
    refine wrong ?_
    have same := ranked.eq_winningEntries indexed fun index named => by
      obtain ⟨e, wins, rfl⟩ := List.mem_map.mp named
      exact none e wins
    rw [← (entries?_eq_some.mp ranked.found).1, same, Ledger.canonicalWinners]
  obtain ⟨last, isLast, ahead⟩ := ranked.ahead_last indexed wins absent
  exact ⟨missing.index, _, exclusionAt?_eq_some.mpr ⟨last, isLast, missing,
    Ledger.entry?_of_mem_winningEntries indexed wins, absent, ahead, rfl⟩⟩

/-- Every verdict is accurate. What a claim shows on its own it shows in every dispute. A late
bid that is blamed is listed while an eligible one is not, and a bid said to be excluded is left
out although it ranks ahead of the last one listed among bids of its kind; either way the last
one does not win. Of the claims that pass the checks before the dispute, exactly those that are
not the canonical list can be shown to exclude a bid. -/
theorem verdicts_accurate (c : Claim) (bids : Ledger) (close maxWinners : UInt32)
    (indexed : bids.size ≤ UInt32.size) :
    (∀ disputed, ∀ reason ∈ FraudReason.ofClaim,
      c.fraud? bids close maxWinners disputed = some reason →
        ∀ other, c.fraud? bids close maxWinners other = some reason) ∧
    (∀ disputed, c.fraud? bids close maxWinners disputed = some .lateBidIncluded →
      (∃ late ∈ c.winners, ∃ bid, bids[late.toNat]? = some bid ∧ bid.eligible close = false) ∧
      (∃ timely, timely ∉ c.winners ∧
        ∃ bid, bids[timely.toNat]? = some bid ∧ bid.eligible close = true) ∧
      ∃ last ∈ c.winners.getLast?, last ∉ bids.canonicalWinners close maxWinners) ∧
    (∀ disputed, c.fraud? bids close maxWinners disputed = some .excludedHigherBid →
      disputed ∉ c.winners ∧
      ∃ last ∈ c.winners.getLast?, ∃ left kept, bids[disputed.toNat]? = some left ∧
        bids[last.toNat]? = some kept ∧ left.eligible close = kept.eligible close ∧
        (kept.amount < left.amount ∨ left.amount = kept.amount ∧ disputed < last) ∧
        last ∉ bids.canonicalWinners close maxWinners) ∧
    ((∀ disputed, ∀ reason ∈ FraudReason.ofClaim,
        c.fraud? bids close maxWinners disputed ≠ some reason) →
      ((∃ disputed, c.fraud? bids close maxWinners disputed = some .lateBidIncluded ∨
          c.fraud? bids close maxWinners disputed = some .excludedHigherBid) ↔
        c.winners ≠ bids.canonicalWinners close maxWinners)) := by
  refine ⟨?_, ?_, ?_, ?_⟩
  · intro disputed reason own shown other
    rcases ranked_or_faulty c bids close maxWinners with ⟨entries, ranked⟩ | ⟨fault, -, always⟩
    · exact absurd shown (ranked.not_ofClaim own)
    · rw [← shown, always, always]
  · intro disputed shown
    obtain ⟨last, left, kept, shows, timely, late⟩ := exists_excludes_of_late indexed shown
    exact ⟨⟨last, List.mem_of_getLast? shows.isLast, kept, shows.listed, late⟩,
      ⟨disputed, shows.unlisted, left, shows.found, timely⟩, last, shows.isLast, shows.loses⟩
  · intro disputed shown
    obtain ⟨last, left, kept, shows, same, higher⟩ := exists_excludes_of_higher indexed shown
    exact ⟨shows.unlisted, last, shows.isLast, left, kept, shows.found, shows.listed, same, higher,
      shows.loses⟩
  · intro passes
    constructor
    · rintro ⟨disputed, shown | shown⟩ right
      · obtain ⟨last, left, kept, shows, -⟩ := exists_excludes_of_late indexed shown
        exact shows.loses (right ▸ List.mem_of_getLast? shows.isLast)
      · obtain ⟨last, left, kept, shows, -⟩ := exists_excludes_of_higher indexed shown
        exact shows.loses (right ▸ List.mem_of_getLast? shows.isLast)
    · intro wrong
      obtain ⟨entries, ranked⟩ := exists_ranked_iff.mpr passes
      obtain ⟨disputed, reason, excluded⟩ := ranked.exists_exclusion indexed wrong
      obtain ⟨last, -, e, -, -, -, rfl⟩ := exclusionAt?_eq_some.mp excluded
      refine ⟨disputed, ?_⟩
      rw [ranked.fraud?_eq, excluded, Option.some_or]
      split
      · exact .inl rfl
      · exact .inr rfl

/-- Of two equal bids in time and a higher late one: a bid listed twice, a late bid listed in
place of one in time, and the later of the equal bids listed in place of the earlier. -/
theorem verdicts_accurate_late :
    lateLedger.size ≤ UInt32.size ∧
    (∀ disputed, (⟨[0, 0], 200⟩ : Claim).fraud? lateLedger 40 2 disputed =
      some .duplicateIndex) ∧
    ((⟨[0, 2], 300⟩ : Claim).fraud? lateLedger 40 2 1 = some .lateBidIncluded ∧
      ∃ last ∈ [(0 : UInt32), 2].getLast?, last ∉ lateLedger.canonicalWinners 40 2) ∧
    ((⟨[1], 100⟩ : Claim).fraud? lateLedger 40 1 0 = some .excludedHigherBid ∧
      ∃ last ∈ [(1 : UInt32)].getLast?, last ∉ lateLedger.canonicalWinners 40 1) ∧
    (∀ disputed, ∀ reason ∈ FraudReason.ofClaim,
      (⟨[1], 100⟩ : Claim).fraud? lateLedger 40 1 disputed ≠ some reason) ∧
    [1] ≠ lateLedger.canonicalWinners 40 1 := by
  have indexed : lateLedger.size ≤ UInt32.size := by decide
  have duplicate : (⟨[0, 0], 200⟩ : Claim).fraud? lateLedger 40 2 1 = some .duplicateIndex := by
    cbv
  have lateRanked : (⟨[0, 2], 300⟩ : Claim).Ranked lateLedger 40 2
      [⟨0, .fill 1, 5, 100, false⟩, ⟨2, .fill 3, 50, 200, false⟩] :=
    ⟨by decide, by decide, by decide, by decide⟩
  have ranked : (⟨[1], 100⟩ : Claim).Ranked lateLedger 40 1 [⟨1, .fill 2, 6, 100, false⟩] :=
    ⟨by decide, by decide, by decide, by decide⟩
  have late : (⟨[0, 2], 300⟩ : Claim).fraud? lateLedger 40 2 1 = some .lateBidIncluded := by
    rw [lateRanked.fraud?_eq]
    rfl
  have excluded : (⟨[1], 100⟩ : Claim).fraud? lateLedger 40 1 0 = some .excludedHigherBid := by
    rw [ranked.fraud?_eq]
    rfl
  have passes := exists_ranked_iff.mp ⟨_, ranked⟩
  obtain ⟨own, -, -, -⟩ := verdicts_accurate ⟨[0, 0], 200⟩ lateLedger 40 2 indexed
  obtain ⟨-, blamesLate, -, -⟩ := verdicts_accurate ⟨[0, 2], 300⟩ lateLedger 40 2 indexed
  obtain ⟨-, -, blamesExclusion, decided⟩ := verdicts_accurate ⟨[1], 100⟩ lateLedger 40 1 indexed
  obtain ⟨-, last, isLast, -, -, -, -, -, -, loses⟩ := blamesExclusion 0 excluded
  exact ⟨indexed, own 1 .duplicateIndex (by simp [FraudReason.ofClaim]) duplicate,
    ⟨late, (blamesLate 1 late).2.2⟩, ⟨excluded, last, isLast, loses⟩, passes,
    (decided passes).mp ⟨0, .inr excluded⟩⟩

end Claim

end CandleAuction
