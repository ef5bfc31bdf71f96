import CandleAuction.Proofs.Ranking.Selection
import CandleAuction.Proofs.Rules.Bidding
import Mathlib.Data.List.InsertIdx

/-!
# Raising a bid

Without one bid a ledger has a ranking of its own, the bid's rivals. The bid
stands in the whole ranking at the place given by how many rivals are ahead of
it, and the winners are what is then cut off. A raise leaves the rivals as they
are and moves only the place, so at most the last winner has to give way.
-/

namespace CandleAuction

theorem insertIdx_length_append {α : Type} (front behind : List α) (a : α) :
    (front ++ behind).insertIdx front.length a = front ++ a :: behind := by
  induction front with
  | nil => simp
  | cons first rest inductionHypothesis => simp [inductionHypothesis]

theorem take_succ_insertIdx {α : Type} {list : List α} {place count : Nat} {a : α}
    (inside : place ≤ count) :
    (list.insertIdx place a).take (count + 1) = (list.take count).insertIdx place a := by
  induction place generalizing list count with
  | zero => simp
  | succ place inductionHypothesis =>
      cases list with
      | nil => simp
      | cons first rest =>
          obtain ⟨count, rfl⟩ := Nat.exists_eq_add_of_le inside
          rw [Nat.add_right_comm place 1 count]
          simp only [List.insertIdx_succ_cons, List.take_succ_cons]
          rw [inductionHypothesis (Nat.le_add_right _ _)]

namespace Entry

variable {close index : UInt32} {old new : Bid} {rival : Entry}

theorem ahead_of_raised (kind : new.eligible close = old.eligible close)
    (amount : old.amount ≤ new.amount) (ahead : rival.ahead close ⟨index, new⟩ = true) :
    rival.ahead close ⟨index, old⟩ = true := by
  rw [ahead_iff_keys] at ahead ⊢
  rcases ahead with kinds | ⟨same, more | ⟨equal, earlier⟩⟩
  · exact .inl (kind ▸ kinds)
  · exact .inr ⟨same.trans kind, .inl (UInt64.lt_of_le_of_lt amount more)⟩
  · rcases UInt64.lt_or_eq_of_le amount with less | unchanged
    · exact .inr ⟨same.trans kind, .inl (equal ▸ less)⟩
    · exact .inr ⟨same.trans kind, .inr ⟨equal.trans unchanged.symm, earlier⟩⟩

theorem ahead_of_late (timely : old.eligible close = true) (late : new.eligible close = false)
    (ahead : rival.ahead close ⟨index, old⟩ = true) :
    rival.ahead close ⟨index, new⟩ = true := by
  rw [ahead_iff_keys] at ahead ⊢
  rcases ahead with ⟨eligible, -⟩ | ⟨same, -⟩
  · exact .inl ⟨eligible, late⟩
  · exact .inl ⟨same.trans timely, late⟩

end Entry

namespace Ledger

variable {bids raised : Ledger} {close maxWinners index : UInt32} {old new : Bid} {e rival : Entry}

/-- The ranking of all bids but one. -/
def rivals (bids : Ledger) (close index : UInt32) : List Entry :=
  (bids.ranked close).filter fun e => e.index ≠ index

/-- How many of the other bids rank ahead of an entry. -/
def place (bids : Ledger) (close : UInt32) (e : Entry) : Nat :=
  (bids.rivals close e.index).countP fun rival => rival.ahead close e

theorem mem_rivals (indexed : bids.Indexed) :
    e ∈ bids.rivals close index ↔ bids.entry? e.index = some e ∧ e.index ≠ index := by
  rw [rivals, List.mem_filter, ranked_perm.mem_iff, mem_entries indexed, decide_eq_true_eq]

theorem rivals_pairwise (indexed : bids.Indexed) :
    (bids.rivals close index).Pairwise fun a b => a.ahead close b = true :=
  (ranked_pairwise close indexed).sublist List.filter_sublist

theorem nodup_index_rivals (close index : UInt32) (indexed : bids.Indexed) :
    ((bids.rivals close index).map Entry.index).Nodup :=
  (List.filter_sublist.map Entry.index).nodup (nodup_index_ranked close indexed)

theorem not_mem_index_rivals : index ∉ (bids.rivals close index).map Entry.index := by
  simp [rivals]

theorem place_le : bids.place close e ≤ (bids.rivals close e.index).length :=
  List.countP_le_length

theorem ranked_eq_insertIdx (indexed : bids.Indexed) (listed : bids.entry? e.index = some e) :
    bids.ranked close = (bids.rivals close e.index).insertIdx (bids.place close e) e := by
  have member : e ∈ bids.ranked close :=
    ranked_perm.mem_iff.mpr ((mem_entries indexed).mpr listed)
  obtain ⟨front, behind, parts⟩ := List.append_of_mem member
  have sorted := ranked_pairwise close indexed
  have distinct := nodup_index_ranked close indexed
  rw [parts, List.pairwise_append, List.pairwise_cons] at sorted
  rw [parts, List.map_append, List.map_cons, List.nodup_middle, List.nodup_cons,
    ← List.map_append] at distinct
  have rivals : bids.rivals close e.index = front ++ behind := by
    have others : ∀ other ∈ front ++ behind, decide (other.index ≠ e.index) = true :=
      fun other member => decide_eq_true fun same =>
        distinct.1 (same ▸ List.mem_map_of_mem member)
    rw [List.forall_mem_append] at others
    rw [Ledger.rivals, parts, List.filter_append, List.filter_cons_of_neg (by simp),
      List.filter_eq_self.mpr others.1, List.filter_eq_self.mpr others.2]
  have place : bids.place close e = front.length := by
    have before : front.countP (fun rival => rival.ahead close e) = front.length :=
      List.countP_eq_length.mpr fun other member => sorted.2.2 other member e List.mem_cons_self
    have after : behind.countP (fun rival => rival.ahead close e) = 0 :=
      List.countP_eq_zero.mpr fun other member =>
        Entry.ahead_asymm (sorted.2.1.1 other member)
    rw [Ledger.place, rivals, List.countP_append, before, after, Nat.add_zero]
  rw [parts, rivals, place, insertIdx_length_append]

theorem canonicalWinners_eq_insertIdx (indexed : bids.Indexed)
    (listed : bids.entry? e.index = some e) :
    bids.canonicalWinners close maxWinners =
      (((bids.rivals close e.index).map Entry.index).insertIdx (bids.place close e)
        e.index).take maxWinners.toNat := by
  rw [canonicalWinners_eq_take, ranked_eq_insertIdx indexed listed, List.map_insertIdx]

theorem canonicalWinners_of_le_place (indexed : bids.Indexed)
    (listed : bids.entry? e.index = some e) (behind : maxWinners.toNat ≤ bids.place close e) :
    bids.canonicalWinners close maxWinners =
      ((bids.rivals close e.index).map Entry.index).take maxWinners.toNat := by
  rw [canonicalWinners_eq_insertIdx indexed listed,
    List.take_insertIdx_eq_take_of_le _ _ _ _ behind]

/-- A bid with few rivals ahead of it wins at its place, and one rival less wins beside it. -/
theorem canonicalWinners_of_place_lt (indexed : bids.Indexed)
    (listed : bids.entry? e.index = some e) (front : bids.place close e < maxWinners.toNat) :
    bids.canonicalWinners close maxWinners =
      (((bids.rivals close e.index).map Entry.index).take (maxWinners.toNat - 1)).insertIdx
        (bids.place close e) e.index := by
  rw [canonicalWinners_eq_insertIdx indexed listed,
    ← take_succ_insertIdx (Nat.le_sub_one_of_lt front),
    Nat.sub_add_cancel (Nat.zero_lt_of_lt front)]

theorem place_le_length_take (front : bids.place close e < maxWinners.toNat) :
    bids.place close e ≤
      (((bids.rivals close e.index).map Entry.index).take (maxWinners.toNat - 1)).length := by
  have le := @place_le bids close e
  rw [List.length_take, List.length_map]
  omega

theorem canonicalWinners_perm (indexed : bids.Indexed)
    (listed : bids.entry? e.index = some e) (front : bids.place close e < maxWinners.toNat) :
    (bids.canonicalWinners close maxWinners).Perm
      (e.index :: ((bids.rivals close e.index).map Entry.index).take (maxWinners.toNat - 1)) := by
  rw [canonicalWinners_of_place_lt indexed listed front]
  exact List.perm_insertIdx _ _ (place_le_length_take front)

theorem index_mem_canonicalWinners_iff_place (indexed : bids.Indexed)
    (listed : bids.entry? e.index = some e) :
    e.index ∈ bids.canonicalWinners close maxWinners ↔
      bids.place close e < maxWinners.toNat := by
  constructor
  · intro wins
    by_contra behind
    rw [canonicalWinners_of_le_place indexed listed (Nat.le_of_not_lt behind)] at wins
    exact not_mem_index_rivals (List.mem_of_mem_take wins)
  · intro front
    exact (canonicalWinners_perm indexed listed front).mem_iff.mpr List.mem_cons_self

theorem idxOf_canonicalWinners (indexed : bids.Indexed)
    (listed : bids.entry? e.index = some e) (front : bids.place close e < maxWinners.toNat) :
    (bids.canonicalWinners close maxWinners).idxOf e.index = bids.place close e := by
  have distinct := nodup_canonicalWinners close maxWinners indexed
  have parts := canonicalWinners_of_place_lt indexed listed front
  have le := place_le_length_take front
  have inside : bids.place close e < (bids.canonicalWinners close maxWinners).length := by
    rw [parts, List.length_insertIdx_of_le_length le]
    omega
  have here : (bids.canonicalWinners close maxWinners)[bids.place close e] = e.index := by
    simp only [parts, List.getElem_insertIdx_self]
  rw [← distinct.idxOf_getElem _ inside, here]

theorem canonicalWinners_filter_sublist {others : List UInt32} :
    ((bids.canonicalWinners close maxWinners).filter fun other =>
        other ≠ index ∧ other ∈ others).Sublist ((bids.rivals close index).map Entry.index) := by
  rw [canonicalWinners, List.filter_map]
  refine .map Entry.index ((winningEntries_sublist.filter _).trans ?_)
  exact List.monotone_filter_right _ fun _ both => decide_eq_true (of_decide_eq_true both).1

/-- Two ledgers differ in one bid alone, whose amount has not gone down. -/
structure Raises (bids raised : Ledger) (index : UInt32) (old new : Bid) : Prop where
  found : bids[index.toNat]? = some old
  renewed : raised[index.toNat]? = some new
  others : ∀ position, position ≠ index.toNat → raised[position]? = bids[position]?
  amount : old.amount ≤ new.amount

namespace Raises

theorem of_modify {change : Bid → Bid} (found : bids[index.toNat]? = some old)
    (amount : old.amount ≤ (change old).amount) :
    bids.Raises (bids.modify index.toNat change) index old (change old) where
  found := found
  renewed := by rw [Array.getElem?_modify, if_pos rfl, found, Option.map_some]
  others position other := by rw [Array.getElem?_modify, if_neg (Ne.symm other)]
  amount := amount

theorem indexed (raises : bids.Raises raised index old new) (indexed : bids.Indexed) :
    raised.Indexed := by
  have inside := (Array.getElem?_eq_some_iff.mp raises.found).1
  have size : raised.size ≤ bids.size := by
    rw [← Array.getElem?_eq_none_iff, raises.others _ (Nat.ne_of_gt inside),
      Array.getElem?_eq_none_iff]
  exact Nat.le_trans size indexed

theorem entry?_of_ne (raises : bids.Raises raised index old new) {other : UInt32}
    (ne : other ≠ index) : raised.entry? other = bids.entry? other := by
  unfold entry?
  rw [raises.others _ fun same => ne (UInt32.toNat_inj.mp same)]

theorem rivals_eq (raises : bids.Raises raised index old new) (indexed : bids.Indexed) :
    raised.rivals close index = bids.rivals close index := by
  have indexed' := raises.indexed indexed
  refine List.Perm.eq_of_pairwise
    (fun a b _ _ first second => absurd second (Entry.ahead_asymm first))
    (rivals_pairwise indexed') (rivals_pairwise indexed) ?_
  refine (List.perm_ext_iff_of_nodup (nodup_index_rivals close index indexed').of_map
    (nodup_index_rivals close index indexed).of_map).mpr fun e => ?_
  rw [mem_rivals indexed', mem_rivals indexed]
  exact and_congr_left fun ne => by rw [raises.entry?_of_ne ne]

theorem place_eq (raises : bids.Raises raised index old new) (indexed : bids.Indexed) :
    raised.place close ⟨index, new⟩ = bids.place close ⟨index, new⟩ := by
  rw [place, place, raises.rivals_eq indexed]

/-- A raise that keeps a bid in its kind puts it at no later place. -/
theorem place_le_of_kind (raises : bids.Raises raised index old new) (indexed : bids.Indexed)
    (kind : new.eligible close = old.eligible close) :
    raised.place close ⟨index, new⟩ ≤ bids.place close ⟨index, old⟩ := by
  rw [raises.place_eq indexed]
  exact List.countP_mono_left fun _ _ => Entry.ahead_of_raised kind raises.amount

theorem le_place_of_late (raises : bids.Raises raised index old new) (indexed : bids.Indexed)
    (timely : old.eligible close = true) (late : new.eligible close = false) :
    bids.place close ⟨index, old⟩ ≤ raised.place close ⟨index, new⟩ := by
  rw [raises.place_eq indexed]
  exact List.countP_mono_left fun _ _ => Entry.ahead_of_late timely late

theorem listed (raises : bids.Raises raised index old new) :
    bids.entry? index = some ⟨index, old⟩ := entry?_eq_some.mpr ⟨rfl, raises.found⟩

theorem listed' (raises : bids.Raises raised index old new) :
    raised.entry? index = some ⟨index, new⟩ := entry?_eq_some.mpr ⟨rfl, raises.renewed⟩

theorem wins_iff (raises : bids.Raises raised index old new) (indexed : bids.Indexed) :
    index ∈ bids.canonicalWinners close maxWinners ↔
      bids.place close ⟨index, old⟩ < maxWinners.toNat :=
  index_mem_canonicalWinners_iff_place (e := ⟨index, old⟩) indexed raises.listed

/-- If the bid wins after the raise, it does so beside the best of its rivals. -/
theorem winners_perm (raises : bids.Raises raised index old new) (indexed : bids.Indexed)
    (front : raised.place close ⟨index, new⟩ < maxWinners.toNat) :
    (raised.canonicalWinners close maxWinners).Perm
      (index :: ((bids.rivals close index).map Entry.index).take (maxWinners.toNat - 1)) := by
  rw [← raises.rivals_eq indexed]
  exact canonicalWinners_perm (raises.indexed indexed) raises.listed' front

theorem winners_eq (raises : bids.Raises raised index old new) (indexed : bids.Indexed)
    (behind : maxWinners.toNat ≤ raised.place close ⟨index, new⟩) :
    raised.canonicalWinners close maxWinners =
      ((bids.rivals close index).map Entry.index).take maxWinners.toNat := by
  rw [← raises.rivals_eq indexed]
  exact canonicalWinners_of_le_place (raises.indexed indexed) raises.listed' behind

theorem wins_of_mem_take (raises : bids.Raises raised index old new) (indexed : bids.Indexed)
    {other : UInt32}
    (best : other ∈ ((bids.rivals close index).map Entry.index).take (maxWinners.toNat - 1)) :
    other ∈ raised.canonicalWinners close maxWinners := by
  rcases Nat.lt_or_ge (raised.place close ⟨index, new⟩) maxWinners.toNat with front | behind
  · exact (raises.winners_perm indexed front).mem_iff.mpr (List.mem_cons_of_mem _ best)
  · rw [raises.winners_eq indexed behind]
    exact List.take_subset_take_left _ (Nat.sub_le _ _) best

theorem winner_stays (raises : bids.Raises raised index old new) (indexed : bids.Indexed)
    (kind : new.eligible close = old.eligible close)
    (wins : index ∈ bids.canonicalWinners close maxWinners) :
    (raised.canonicalWinners close maxWinners).Perm (bids.canonicalWinners close maxWinners) ∧
      (raised.canonicalWinners close maxWinners).idxOf index ≤
        (bids.canonicalWinners close maxWinners).idxOf index := by
  have front := (raises.wins_iff indexed).mp wins
  have le := raises.place_le_of_kind indexed kind
  have front' := Nat.lt_of_le_of_lt le front
  constructor
  · exact (raises.winners_perm indexed front').trans
      (canonicalWinners_perm indexed raises.listed front).symm
  · rw [idxOf_canonicalWinners (raises.indexed indexed) raises.listed' front',
      idxOf_canonicalWinners indexed raises.listed front]
    exact le

/-- A loser that changes displaces the last winner or nobody. -/
theorem loser_displaces_last (raises : bids.Raises raised index old new) (indexed : bids.Indexed)
    (loses : index ∉ bids.canonicalWinners close maxWinners) :
    (raised.canonicalWinners close maxWinners).Perm (bids.canonicalWinners close maxWinners) ∨
      (raised.canonicalWinners close maxWinners).Perm
        (index :: (bids.canonicalWinners close maxWinners).dropLast) := by
  rw [raises.wins_iff indexed, Nat.not_lt] at loses
  rw [canonicalWinners_of_le_place indexed raises.listed loses]
  rcases Nat.lt_or_ge (raised.place close ⟨index, new⟩) maxWinners.toNat with front | behind
  · right
    have rivals := Nat.le_trans loses place_le
    have last : (((bids.rivals close index).map Entry.index).take maxWinners.toNat).dropLast =
        ((bids.rivals close index).map Entry.index).take (maxWinners.toNat - 1) := by
      rw [List.dropLast_eq_take, List.take_take, List.length_take, List.length_map,
        Nat.min_eq_left rivals, Nat.min_eq_left (Nat.sub_le _ _)]
    rw [last]
    exact raises.winners_perm indexed front
  · rw [raises.winners_eq indexed behind]
    exact .inl (.refl _)

theorem others_stay (raises : bids.Raises raised index old new) (indexed : bids.Indexed)
    (timely : old.eligible close = true) (late : new.eligible close = false) {other : UInt32}
    (wins : other ∈ bids.canonicalWinners close maxWinners) (ne : other ≠ index) :
    other ∈ raised.canonicalWinners close maxWinners := by
  rcases Nat.lt_or_ge (bids.place close ⟨index, old⟩) maxWinners.toNat with front | behind
  · have best := (canonicalWinners_perm indexed raises.listed front).mem_iff.mp wins
    exact raises.wins_of_mem_take indexed ((List.mem_cons.mp best).resolve_left ne)
  · have behind' := Nat.le_trans behind (raises.le_place_of_late indexed timely late)
    rw [raises.winners_eq indexed behind', ← canonicalWinners_of_le_place indexed raises.listed
      behind]
    exact wins

theorem order_stays (raises : bids.Raises raised index old new) (indexed : bids.Indexed) :
    ((bids.canonicalWinners close maxWinners).filter fun other =>
        other ≠ index ∧ other ∈ raised.canonicalWinners close maxWinners) =
      (raised.canonicalWinners close maxWinners).filter fun other =>
        other ≠ index ∧ other ∈ bids.canonicalWinners close maxWinners := by
  have distinct := nodup_index_rivals close index indexed
  refine (distinct.perm_iff_eq_of_sublist canonicalWinners_filter_sublist ?_).mp ?_
  · rw [← raises.rivals_eq indexed]
    exact canonicalWinners_filter_sublist
  · refine (List.perm_ext_iff_of_nodup
      ((nodup_canonicalWinners close maxWinners indexed).filter _)
      ((nodup_canonicalWinners close maxWinners (raises.indexed indexed)).filter _)).mpr ?_
    intro other
    simp only [List.mem_filter, decide_eq_true_eq]
    exact ⟨fun ⟨wins, ne, wins'⟩ => ⟨wins', ne, wins⟩, fun ⟨wins', ne, wins⟩ => ⟨wins, ne, wins'⟩⟩

end Raises

/-- Raising one bid displaces at most the last winner. While the bid stays in time or stays late,
a winner still wins with the same others and moves no further back, and a loser leaves the
winners as they are or takes the place of the last one. If it becomes late by the raise, every
other winner still wins. The others that win before and after keep their order. -/
theorem raise_displaces_last (raises : bids.Raises raised index old new)
    (indexed : bids.size ≤ UInt32.size) (close maxWinners : UInt32) :
    (new.eligible close = old.eligible close →
      (index ∈ bids.canonicalWinners close maxWinners →
        (raised.canonicalWinners close maxWinners).Perm (bids.canonicalWinners close maxWinners) ∧
        (raised.canonicalWinners close maxWinners).idxOf index ≤
          (bids.canonicalWinners close maxWinners).idxOf index) ∧
      (index ∉ bids.canonicalWinners close maxWinners →
        (raised.canonicalWinners close maxWinners).Perm (bids.canonicalWinners close maxWinners) ∨
        (raised.canonicalWinners close maxWinners).Perm
          (index :: (bids.canonicalWinners close maxWinners).dropLast))) ∧
    (old.eligible close = true → new.eligible close = false →
      ∀ other ∈ bids.canonicalWinners close maxWinners, other ≠ index →
        other ∈ raised.canonicalWinners close maxWinners) ∧
    ((bids.canonicalWinners close maxWinners).filter fun other =>
        other ≠ index ∧ other ∈ raised.canonicalWinners close maxWinners) =
      (raised.canonicalWinners close maxWinners).filter fun other =>
        other ≠ index ∧ other ∈ bids.canonicalWinners close maxWinners :=
  ⟨fun kind => ⟨raises.winner_stays indexed kind, raises.loser_displaces_last indexed⟩,
    fun timely late _ => raises.others_stay indexed timely late, raises.order_stays indexed⟩

end Ledger

theorem Auction.TakesRaise.raises {r : Auction} {bids : Ledger} {ctx : Context} {index : UInt32}
    {added amount proceeds : UInt64} {bid : Bid} {timestamp : UInt32}
    (takes : r.TakesRaise bids ctx index added bid amount timestamp proceeds) :
    bids.Raises (bids.modify index.toNat ({ · with amount := amount, timestamp := timestamp }))
      index bid { bid with amount := amount, timestamp := timestamp } := by
  refine .of_modify takes.found ?_
  rw [UInt64.le_iff_toNat_le, takes.raised]
  exact Nat.le_add_right _ _

namespace Ledger

/-- A round about to take raises of the contested ledger. -/
def contestedRound : Auction :=
  .opening 1 0 { Settings.standard with bidPrecision := 50 } 50 ⟨0, 0⟩

/-- The last bid of the contested ledger is raised in time and displaces the second winner. The
first winner is raised after the close, which leaves the second winner in. -/
theorem raise_displaces_last_contested :
    contestedLedger.size ≤ UInt32.size ∧ contestedLedger.canonicalWinners 50 2 = [3, 1] ∧
    (∃ bid, contestedRound.TakesRaise contestedLedger ⟨.fill 5, 45, 250, 0, false⟩ 4 250 bid 350 45
      250) ∧
    (canonicalWinners (contestedLedger.modify 4 ({ · with amount := 350, timestamp := 45 }))
      50 2).Perm (4 :: [3, 1].dropLast) ∧
    (∃ bid, contestedRound.TakesRaise contestedLedger ⟨.fill 4, 55, 50, 0, false⟩ 3 50 bid 350 55
      50) ∧
    1 ∈ canonicalWinners (contestedLedger.modify 3 ({ · with amount := 350, timestamp := 55 }))
      50 2 := by
  have indexed : contestedLedger.size ≤ UInt32.size := by decide
  have winners : contestedLedger.canonicalWinners 50 2 = [3, 1] := by cbv
  have inTime : contestedRound.TakesRaise contestedLedger ⟨.fill 5, 45, 250, 0, false⟩ 4 250
      ⟨.fill 5, 40, 100, false⟩ 350 45 250 :=
    ⟨⟨rfl, by decide, by decide, by decide⟩, rfl, ⟨by decide, by decide, by decide⟩, rfl, rfl, rfl,
      rfl, rfl⟩
  have late : contestedRound.TakesRaise contestedLedger ⟨.fill 4, 55, 50, 0, false⟩ 3 50
      ⟨.fill 4, 30, 300, false⟩ 350 55 50 :=
    ⟨⟨rfl, by decide, by decide, by decide⟩, rfl, ⟨by decide, by decide, by decide⟩, rfl, rfl, rfl,
      rfl, rfl⟩
  have overtaken : canonicalWinners
      (contestedLedger.modify 4 ({ · with amount := 350, timestamp := 45 })) 50 2 = [4, 3] := by cbv
  obtain ⟨kept, -, -⟩ := raise_displaces_last inTime.raises indexed 50 2
  obtain ⟨-, others, -⟩ := raise_displaces_last late.raises indexed 50 2
  rw [winners] at kept others
  refine ⟨indexed, winners, ⟨_, inTime⟩, ?_, ⟨_, late⟩,
    others rfl rfl 1 (by decide) (by decide)⟩
  refine ((kept rfl).2 (by decide)).resolve_left fun unchanged => ?_
  have same : [4, 3].Perm [(3 : UInt32), 1] := by
    rw [← overtaken]
    exact unchanged
  exact absurd same (by decide)

end Ledger

end CandleAuction
