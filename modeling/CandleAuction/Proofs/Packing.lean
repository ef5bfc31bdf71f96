import CandleAuction.Packing
import Mathlib.Algebra.Order.Ring.Nat

/-!
# Packing loses nothing

A list of indices that the width can hold is packed, at its width for each
index, and unpacking gives the list back. Bytes are unpacked if they divide into
whole indices, and then packing gives the bytes back. So at each width a list
has one encoding and an encoding one list.
-/

namespace CandleAuction

namespace Bytes

theorem ofLittleEndian_cons (byte : UInt8) (rest : List UInt8) :
    ofLittleEndian (byte :: rest) = byte.toNat + 256 * ofLittleEndian rest := rfl

theorem ofLittleEndian_littleEndian (width value : Nat) :
    ofLittleEndian (littleEndian width value) = value % 256 ^ width := by
  induction width generalizing value with
  | zero => rw [pow_zero, Nat.mod_one, littleEndian, ofLittleEndian, List.foldr_nil]
  | succ width inductionHypothesis =>
      rw [littleEndian, ofLittleEndian_cons, inductionHypothesis, pow_succ', Nat.mod_mul,
        UInt8.toNat_ofNat']

theorem ofLittleEndian_lt (bytes : List UInt8) : ofLittleEndian bytes < 256 ^ bytes.length := by
  induction bytes with
  | nil => exact Nat.one_pos
  | cons byte rest inductionHypothesis =>
      have bound := byte.toNat_lt
      rw [ofLittleEndian_cons, List.length_cons, pow_succ']
      omega

theorem ofBigEndian_bigEndian (width value : Nat) :
    ofBigEndian (bigEndian width value) = value % 256 ^ width := by
  rw [ofBigEndian_eq, bigEndian, List.reverse_reverse, ofLittleEndian_littleEndian]

theorem ofBigEndian_lt (bytes : List UInt8) : ofBigEndian bytes < 256 ^ bytes.length := by
  rw [ofBigEndian_eq, ← List.length_reverse]
  exact ofLittleEndian_lt bytes.reverse

theorem littleEndian_ofLittleEndian (bytes : List UInt8) :
    littleEndian bytes.length (ofLittleEndian bytes) = bytes := by
  induction bytes with
  | nil => rfl
  | cons byte rest inductionHypothesis =>
      have bound := byte.toNat_lt
      have low : UInt8.ofNat (byte.toNat + 256 * ofLittleEndian rest) = byte := by
        rw [← UInt8.toNat_inj, UInt8.toNat_ofNat']
        omega
      have high : (byte.toNat + 256 * ofLittleEndian rest) / 256 = ofLittleEndian rest := by
        omega
      rw [List.length_cons, ofLittleEndian_cons, littleEndian, low, high, inductionHypothesis]

theorem bigEndian_ofBigEndian (bytes : List UInt8) :
    bigEndian bytes.length (ofBigEndian bytes) = bytes := by
  rw [bigEndian, ofBigEndian_eq, ← List.length_reverse, littleEndian_ofLittleEndian,
    List.reverse_reverse]

end Bytes

namespace IndexWidth

variable {width : IndexWidth} {indices : List UInt32} {encoding : List UInt8}

theorem maxIndex_succ (width : IndexWidth) : width.maxIndex.toNat + 1 = 256 ^ width.bytes := by
  cases width with
  | two => rfl
  | three => rfl

theorem ofBigEndian_bigEndian_bytes {index : UInt32} (holds : index ≤ width.maxIndex) :
    UInt32.ofNat (Bytes.ofBigEndian (Bytes.bigEndian width.bytes index.toNat)) = index := by
  have fits : index.toNat < 256 ^ width.bytes := by
    rw [← maxIndex_succ]
    exact Nat.lt_succ_of_le (UInt32.le_iff_toNat_le.mp holds)
  rw [Bytes.ofBigEndian_bigEndian, Nat.mod_eq_of_lt fits, UInt32.ofNat_toNat]

theorem bytes_pos (width : IndexWidth) : 0 < width.bytes := by
  cases width <;> decide

theorem unpackChunks_flatMap (done : List UInt32)
    (holds : ∀ index ∈ indices, index ≤ width.maxIndex) :
    unpackChunks width.bytes done indices.length
      (indices.flatMap fun index => Bytes.bigEndian width.bytes index.toNat) =
        done.reverse ++ indices := by
  induction indices generalizing done with
  | nil => simp [unpackChunks]
  | cons index rest inductionHypothesis =>
      rw [List.forall_mem_cons] at holds
      have length := Bytes.length_bigEndian width.bytes index.toNat
      rw [List.length_cons, List.flatMap_cons, unpackChunks, List.take_left' length,
        List.drop_left' length, inductionHypothesis _ holds.2,
        ofBigEndian_bigEndian_bytes holds.1]
      simp

theorem pack_eq_ok :
    width.pack indices = .ok encoding ↔ (∀ index ∈ indices, index ≤ width.maxIndex) ∧
      encoding = indices.flatMap fun index => Bytes.bigEndian width.bytes index.toNat := by
  unfold pack
  cases large : indices.find? (width.maxIndex < ·) with
  | none =>
      have holds : ∀ index ∈ indices, index ≤ width.maxIndex := by
        simpa using List.find?_eq_none.mp large
      simp only [Except.ok.injEq]
      exact ⟨fun packed => ⟨holds, packed.symm⟩, fun packed => packed.2.symm⟩
  | some index =>
      have exceeds : width.maxIndex < index := by simpa using List.find?_some large
      simp only [reduceCtorEq, false_iff, not_and]
      exact fun holds => absurd (holds index (List.mem_of_find?_eq_some large))
        (UInt32.not_le.mpr exceeds)

theorem length_of_pack (packed : width.pack indices = .ok encoding) :
    encoding.length = indices.length * width.bytes := by
  obtain ⟨-, rfl⟩ := pack_eq_ok.mp packed
  simp only [List.length_flatMap, Bytes.length_bigEndian, List.map_const',
    List.sum_replicate_nat]

theorem unpack_pack (packed : width.pack indices = .ok encoding) :
    width.unpack encoding = .ok indices := by
  have length := length_of_pack packed
  obtain ⟨holds, rfl⟩ := pack_eq_ok.mp packed
  unfold unpack
  rw [length, Nat.mul_mod_left, if_neg (not_not_intro rfl), Nat.mul_div_cancel _ (bytes_pos width),
    unpackChunks_flatMap [] holds, List.reverse_nil, List.nil_append]

theorem pack_eq_error {error : PackingError} :
    width.pack indices = .error error ↔ ∃ before index after,
      indices = before ++ index :: after ∧ (∀ other ∈ before, other ≤ width.maxIndex) ∧
        width.maxIndex < index ∧ error = .indexTooLarge index width.maxIndex := by
  have refused : width.pack indices = .error error ↔
      ∃ index, indices.find? (width.maxIndex < ·) = some index ∧
        error = .indexTooLarge index width.maxIndex := by
    unfold pack
    cases indices.find? (width.maxIndex < ·) <;> simp [eq_comm]
  simp only [refused, List.find?_eq_some_iff_append, Bool.not_eq_true', decide_eq_true_eq,
    decide_eq_false_iff_not, UInt32.not_lt]
  constructor
  · rintro ⟨index, ⟨exceeds, before, after, parts, holds⟩, named⟩
    exact ⟨before, index, after, parts, holds, exceeds, named⟩
  · rintro ⟨before, index, after, parts, holds, exceeds, named⟩
    exact ⟨index, ⟨exceeds, before, after, parts, holds⟩, named⟩

theorem unpack_eq_error {error : PackingError} :
    width.unpack encoding = .error error ↔
      ¬ width.bytes ∣ encoding.length ∧ error = .badLength encoding.length width.bytes := by
  unfold unpack
  rw [Nat.dvd_iff_mod_eq_zero]
  split
  · rename_i broken
    simp only [Except.error.injEq, broken, not_false_eq_true, true_and]
    exact eq_comm
  · rename_i whole
    rw [not_not] at whole
    simp [whole]

theorem bigEndian_bytes_ofBigEndian {bytes : List UInt8} (length : bytes.length = width.bytes) :
    UInt32.ofNat (Bytes.ofBigEndian bytes) ≤ width.maxIndex ∧
      Bytes.bigEndian width.bytes (UInt32.ofNat (Bytes.ofBigEndian bytes)).toNat = bytes := by
  have bound : Bytes.ofBigEndian bytes ≤ width.maxIndex.toNat := by
    have fits := Bytes.ofBigEndian_lt bytes
    rw [length, ← maxIndex_succ] at fits
    exact Nat.le_of_lt_succ fits
  have exact : (UInt32.ofNat (Bytes.ofBigEndian bytes)).toNat = Bytes.ofBigEndian bytes :=
    UInt32.toNat_ofNat_of_lt' (Nat.lt_of_le_of_lt bound width.maxIndex.toNat_lt)
  refine ⟨UInt32.le_iff_toNat_le.mpr (exact.symm ▸ bound), ?_⟩
  rw [exact, ← length, Bytes.bigEndian_ofBigEndian]

/-- Bytes that divide into whole indices have been packed from some list. -/
theorem exists_pack (whole : width.bytes ∣ encoding.length) :
    ∃ indices, width.pack indices = .ok encoding := by
  obtain ⟨count, length⟩ := whole
  induction count generalizing encoding with
  | zero =>
      have empty : encoding = [] := List.length_eq_zero_iff.mp length
      exact ⟨[], empty ▸ rfl⟩
  | succ count inductionHypothesis =>
      rw [Nat.mul_succ] at length
      have front : (encoding.take width.bytes).length = width.bytes :=
        List.length_take_of_le (length ▸ Nat.le_add_left _ _)
      have behind : (encoding.drop width.bytes).length = width.bytes * count := by
        rw [List.length_drop, length, Nat.add_sub_cancel]
      obtain ⟨rest, packed⟩ := inductionHypothesis behind
      obtain ⟨holds, bytes⟩ := pack_eq_ok.mp packed
      obtain ⟨hold, first⟩ := bigEndian_bytes_ofBigEndian front
      refine ⟨_ :: rest, pack_eq_ok.mpr ⟨List.forall_mem_cons.mpr ⟨hold, holds⟩, ?_⟩⟩
      rw [List.flatMap_cons, first, ← bytes, List.take_append_drop]

theorem pack_eq_ok_iff_unpack :
    width.pack indices = .ok encoding ↔ width.unpack encoding = .ok indices := by
  refine ⟨unpack_pack, fun unpacked => ?_⟩
  have whole : width.bytes ∣ encoding.length := by
    by_contra broken
    rw [unpack_eq_error.mpr ⟨broken, rfl⟩] at unpacked
    cases unpacked
  obtain ⟨others, packed⟩ := exists_pack whole
  cases unpacked.symm.trans (unpack_pack packed)
  exact packed

theorem exists_pack_iff :
    (∃ encoding, width.pack indices = .ok encoding) ↔
      ∀ index ∈ indices, index ≤ width.maxIndex := by
  simp only [pack_eq_ok, exists_and_left, exists_eq, and_true]

theorem exists_unpack_iff :
    (∃ indices, width.unpack encoding = .ok indices) ↔ width.bytes ∣ encoding.length := by
  constructor
  · rintro ⟨indices, unpacked⟩
    exact ⟨indices.length, by
      rw [length_of_pack (pack_eq_ok_iff_unpack.mpr unpacked), Nat.mul_comm]⟩
  · intro whole
    obtain ⟨indices, packed⟩ := exists_pack whole
    exact ⟨indices, unpack_pack packed⟩

/-- Packing and unpacking are inverse to each other at each width. Packing takes the lists that
the width holds, refuses any other for its first index that is too large, and makes as many bytes
as the width asks for. Unpacking takes the bytes that divide into whole indices. -/
theorem packing_bijective (width : IndexWidth) :
    (∀ indices, (∃ encoding, width.pack indices = .ok encoding) ↔
      ∀ index ∈ indices, index ≤ width.maxIndex) ∧
    (∀ indices error, width.pack indices = .error error ↔ ∃ before index after,
      indices = before ++ index :: after ∧ (∀ other ∈ before, other ≤ width.maxIndex) ∧
        width.maxIndex < index ∧ error = .indexTooLarge index width.maxIndex) ∧
    (∀ indices encoding, width.pack indices = .ok encoding →
      encoding.length = indices.length * width.bytes) ∧
    (∀ encoding, (∃ indices, width.unpack encoding = .ok indices) ↔
      width.bytes ∣ encoding.length) ∧
    ∀ indices encoding, width.pack indices = .ok encoding ↔
      width.unpack encoding = .ok indices :=
  ⟨fun _ => exists_pack_iff, fun _ _ => pack_eq_error, fun _ _ => length_of_pack,
    fun _ => exists_unpack_iff, fun _ _ => pack_eq_ok_iff_unpack⟩

/-- The largest index of each width, and the next one. -/
theorem packing_bijective_limits :
    two.pack [0xFFFF, 7] = .ok [0xFF, 0xFF, 0, 7] ∧
    two.unpack [0xFF, 0xFF, 0, 7] = .ok [0xFFFF, 7] ∧
    [(0xFF : UInt8), 0xFF, 0, 7].length = [(0xFFFF : UInt32), 7].length * two.bytes ∧
    two.pack [7, 0x10000, 0x20000] = .error (.indexTooLarge 0x10000 0xFFFF) ∧
    three.pack [0xFFFFFF] = .ok [0xFF, 0xFF, 0xFF] ∧
    ¬ (∃ encoding, three.pack [0xFFFFFF, 0x1000000] = .ok encoding) ∧
    ¬ ∃ indices, three.unpack [0xFF, 0xFF] = .ok indices := by
  obtain ⟨-, refused, length, -, inverse⟩ := packing_bijective two
  obtain ⟨held, -, -, whole, -⟩ := packing_bijective three
  have packed : two.pack [0xFFFF, 7] = .ok [0xFF, 0xFF, 0, 7] := by decide
  exact ⟨packed, (inverse _ _).mp packed, length _ _ packed,
    (refused _ _).mpr ⟨[7], 0x10000, [0x20000], rfl, by simp [maxIndex], by decide, rfl⟩, by decide,
    fun packed => absurd ((held _).mp packed) (by simp [maxIndex]),
    fun unpacked => absurd ((whole _).mp unpacked) (by decide)⟩

end IndexWidth

end CandleAuction
