import CandleAuction.Proofs.Rounds
import CandleAuction.Query

/-!
# What the watch lists hold

The listings go through the recorded rounds, each once and by ascending number.
A round awaits a proposal exactly if it is closed and its entropy is drawn, and
may be challenged exactly if its live proposal is within its window.
-/

namespace CandleAuction

theorem filterAuxM_eq_ok {α : Type} {test : α → Except Fault Bool} {keep : α → Bool}
    {items : List α} (decided : ∀ item ∈ items, test item = .ok (keep item)) (kept : List α) :
    items.filterAuxM test kept = .ok ((items.filter keep).reverse ++ kept) := by
  induction items generalizing kept with
  | nil => rfl
  | cons item rest inductionHypothesis =>
      obtain ⟨first, decided⟩ := List.forall_mem_cons.mp decided
      rw [List.filterAuxM, first]
      simp only [bind, Except.bind, inductionHypothesis decided]
      cases kept : keep item <;> simp [kept]

theorem filterM_eq_ok {α : Type} {test : α → Except Fault Bool} {keep : α → Bool}
    {items : List α} (decided : ∀ item ∈ items, test item = .ok (keep item)) :
    items.filterM test = .ok (items.filter keep) := by
  rw [List.filterM, filterAuxM_eq_ok decided]
  simp [bind, Except.bind, pure, Except.pure]

namespace House

variable {h : House} {id now : UInt64} {r : Auction}

theorem mem_rounds : r ∈ h.rounds ↔ ∃ id, h.auction? id = some r := by
  rw [rounds, (List.mergeSort_perm _ _).mem_iff, List.mem_map]
  constructor
  · rintro ⟨⟨id, _⟩, member, rfl⟩
    exact ⟨id, Std.ExtTreeMap.mem_toList_iff_getElem?_eq_some.mp member⟩
  · rintro ⟨id, found⟩
    exact ⟨(id, r), Std.ExtTreeMap.mem_toList_iff_getElem?_eq_some.mpr found, rfl⟩

/-- What a listing of rounds by a test holds. -/
theorem mem_listed (orderly : h.Orderly) {keep : Auction → Bool} :
    id ∈ (h.rounds.filter keep).map Auction.id ↔ ∃ r, h.auction? id = some r ∧ keep r = true := by
  simp only [List.mem_map, List.mem_filter, mem_rounds]
  constructor
  · rintro ⟨r, ⟨⟨key, found⟩, kept⟩, rfl⟩
    rw [(orderly.numbered found).1]
    exact ⟨r, found, kept⟩
  · rintro ⟨r, found, kept⟩
    exact ⟨r, ⟨⟨id, found⟩, kept⟩, (orderly.numbered found).1⟩

theorem mem_awaitingProposal (orderly : h.Orderly) :
    id ∈ h.awaitingProposal ↔
      ∃ r, h.auction? id = some r ∧ r.phase = .waitingClose ∧ r.entropy.isSome = true := by
  simp only [awaitingProposal, mem_listed orderly, Auction.awaitingProposal, Bool.and_eq_true,
    decide_eq_true_eq]

theorem rounds_ascending (orderly : h.Orderly) : h.rounds.Pairwise fun a b => a.id < b.id := by
  have distinct : h.rounds.Pairwise fun a b => a.id ≠ b.id := by
    refine (List.mergeSort_perm _ _).symm.pairwise (List.pairwise_map.mpr ?_) fun ne => Ne.symm ne
    refine Std.ExtTreeMap.distinct_keys_toList.imp_of_mem ?_
    intro a b first second ne same
    have numbered : ∀ entry ∈ h.auctions.toList, entry.2.id = entry.1 := fun entry member =>
      (orderly.numbered (Std.ExtTreeMap.mem_toList_iff_getElem?_eq_some.mp member)).1
    rw [numbered a first, numbered b second] at same
    exact ne (Std.LawfulEqCmp.compare_eq_iff_eq.mpr same)
  have sorted : h.rounds.Pairwise fun a b => decide (a.id ≤ b.id) = true :=
    List.pairwise_mergeSort (fun a b c => by simpa using UInt64.le_trans)
      (fun a b => by simpa using UInt64.le_total _ _) _
  refine (distinct.and sorted).imp fun ⟨ne, le⟩ => ?_
  exact UInt64.lt_of_le_of_ne (of_decide_eq_true le) ne

theorem listed_ascending (orderly : h.Orderly) {keep : Auction → Bool} :
    ((h.rounds.filter keep).map Auction.id).Pairwise (· < ·) :=
  List.pairwise_map.mpr ((rounds_ascending orderly).filter _)

theorem awaitingProposal_ascending (orderly : h.Orderly) :
    h.awaitingProposal.Pairwise (· < ·) := listed_ascending orderly

theorem challengeable_eq_ok (orderly : h.Orderly)
    (effective : ∀ id r, h.auction? id = some r → ∃ phase, r.phaseAt now = .ok phase) :
    ∃ ids, h.challengeable now = .ok ids ∧ ids.Pairwise (· < ·) ∧
      ∀ id, id ∈ ids ↔ ∃ r, h.auction? id = some r ∧ r.phaseAt now = .ok .winnersProposed := by
  have decided : ∀ r ∈ h.rounds,
      (do return decide ((← r.phaseAt now) = .winnersProposed) : Except Fault Bool) =
        .ok (decide ((r.phaseAt now).toOption = some .winnersProposed)) := by
    intro r member
    obtain ⟨id, found⟩ := mem_rounds.mp member
    obtain ⟨phase, effective⟩ := effective id r found
    simp [effective, bind, Except.bind, pure, Except.pure, Except.toOption]
  have live : ∀ r : Auction, (r.phaseAt now).toOption = some .winnersProposed ↔
      r.phaseAt now = .ok .winnersProposed := by
    intro r
    cases r.phaseAt now <;> simp [Except.toOption]
  refine ⟨_, by rw [challengeable, filterM_eq_ok decided]; rfl, listed_ascending orderly,
    fun id => ?_⟩
  simp only [mem_listed orderly, decide_eq_true_eq, live]

end House

end CandleAuction
