import CandleAuction.Commitment
import CandleAuction.Proofs.Packing

/-!
# What a commitment binds

The bytes that are hashed end in the entropy of the round, which has a fixed
length, and what stands before it is packed in one way only. So one commitment
stands for one list in one round, unless the hash itself collides.
-/

namespace CandleAuction

variable {width : IndexWidth} {indices first second : List UInt32} {entropy drawn drawn' : Word}
  {encoding encoding' : List UInt8}

theorem commitWinners_eq_ok (packed : width.pack indices = .ok encoding) :
    commitWinners indices width entropy = .ok (encoding, commitment encoding entropy) := by
  rw [commitWinners, packed]
  rfl

theorem opens_iff {expected : Word} :
    opens encoding entropy expected = true ↔ commitment encoding entropy = expected := by
  simp [opens]

/-- The hashed bytes can be read in one way only, since entropy has a fixed length. -/
theorem eq_of_append_entropy (same : encoding ++ drawn.toList = encoding' ++ drawn'.toList) :
    encoding = encoding' ∧ drawn = drawn' := by
  obtain ⟨lists, words⟩ := List.append_inj' same (by simp)
  exact ⟨lists, Word.toList_injective words⟩

theorem commitment_eq_iff :
    commitment encoding drawn = commitment encoding' drawn' ↔
      encoding = encoding' ∧ drawn = drawn' ∨
        encoding ++ drawn.toList ≠ encoding' ++ drawn'.toList ∧
          Keccak.hash (encoding ++ drawn.toList) = Keccak.hash (encoding' ++ drawn'.toList) := by
  constructor
  · intro committed
    by_cases same : encoding ++ drawn.toList = encoding' ++ drawn'.toList
    · exact .inl (eq_of_append_entropy same)
    · exact .inr ⟨same, committed⟩
  · rintro (⟨rfl, rfl⟩ | ⟨-, collide⟩)
    · rfl
    · exact collide

/-- A commitment binds the list and the round. Lists that a width holds are committed to, and
two of their commitments agree, or one list opens the commitment to the other, exactly if it is
the same list in the same round or the two hashed byte strings collide. -/
theorem commitments_bind (width : IndexWidth) (first second : List UInt32) (drawn drawn' : Word)
    (holds : ∀ index ∈ first, index ≤ width.maxIndex)
    (holds' : ∀ index ∈ second, index ≤ width.maxIndex) :
    ∃ encoding committed encoding' committed',
      commitWinners first width drawn = .ok (encoding, committed) ∧
      commitWinners second width drawn' = .ok (encoding', committed') ∧
      (committed = committed' ∨ opens encoding' drawn' committed = true ↔
        first = second ∧ drawn = drawn' ∨
          encoding ++ drawn.toList ≠ encoding' ++ drawn'.toList ∧
            Keccak.hash (encoding ++ drawn.toList) = Keccak.hash (encoding' ++ drawn'.toList)) := by
  obtain ⟨encoding, packed⟩ := IndexWidth.exists_pack_iff.mpr holds
  obtain ⟨encoding', packed'⟩ := IndexWidth.exists_pack_iff.mpr holds'
  refine ⟨encoding, _, encoding', _, commitWinners_eq_ok packed, commitWinners_eq_ok packed', ?_⟩
  have lists : encoding = encoding' ↔ first = second := by
    constructor
    · rintro rfl
      exact Except.ok.inj ((IndexWidth.unpack_pack packed).symm.trans
        (IndexWidth.unpack_pack packed'))
    · rintro rfl
      exact Except.ok.inj (packed.symm.trans packed')
  rw [opens_iff, eq_comm (a := commitment encoding' drawn'), or_self, commitment_eq_iff, lists]

/-- The largest index with another after it, and the same index alone in another round: the
commitment to the longer list is opened by that list, and by the shorter one only if the hash
collides. -/
theorem commitments_bind_lengths :
    (∀ index ∈ [(0xFFFF : UInt32), 1], index ≤ IndexWidth.two.maxIndex) ∧
    (∀ index ∈ [(0xFFFF : UInt32)], index ≤ IndexWidth.two.maxIndex) ∧
    ∃ committed, commitWinners [0xFFFF, 1] .two Word.zero = .ok ([0xFF, 0xFF, 0, 1], committed) ∧
      opens [0xFF, 0xFF, 0, 1] Word.zero committed = true ∧
      (opens [0xFF, 0xFF] ⟨.replicate 32 4⟩ committed = true →
        [0xFF, 0xFF, 0, 1] ++ Word.zero.toList ≠
            [0xFF, 0xFF] ++ Word.toList ⟨.replicate 32 4⟩ ∧
          Keccak.hash ([0xFF, 0xFF, 0, 1] ++ Word.zero.toList) =
            Keccak.hash ([0xFF, 0xFF] ++ Word.toList ⟨.replicate 32 4⟩)) := by
  have holds : ∀ index ∈ [(0xFFFF : UInt32), 1], index ≤ IndexWidth.two.maxIndex := by
    simp [IndexWidth.maxIndex]
  have holds' : ∀ index ∈ [(0xFFFF : UInt32)], index ≤ IndexWidth.two.maxIndex := by
    simp [IndexWidth.maxIndex]
  have long : IndexWidth.two.pack [0xFFFF, 1] = .ok [0xFF, 0xFF, 0, 1] := by decide
  have short : IndexWidth.two.pack [0xFFFF] = .ok [0xFF, 0xFF] := by decide
  obtain ⟨_, _, _, _, made, made', binds⟩ :=
    commitments_bind .two _ _ Word.zero ⟨.replicate 32 4⟩ holds holds'
  cases made.symm.trans (commitWinners_eq_ok long)
  cases made'.symm.trans (commitWinners_eq_ok short)
  refine ⟨holds, holds', _, made, opens_iff.mpr rfl, fun opened => ?_⟩
  exact (binds.mp (.inr opened)).resolve_left fun equal => absurd equal.1 (by decide)

end CandleAuction
