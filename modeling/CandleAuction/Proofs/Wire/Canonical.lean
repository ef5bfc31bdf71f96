import CandleAuction.Proofs.Packing
import CandleAuction.Wire.Basic

/-!
# Canonical wire forms

A wire form is canonical if reading takes exactly what writing gives, from the
front of any input. Then no value has two wire forms, and none begins with
another. Integers, flags, optional values, words and addresses have canonical
forms; so have lists whose length fits into its four bytes.
-/

namespace CandleAuction

namespace Wire

variable {input rest : List UInt8}

/-- The values that reading gives, the `short` ones, are read exactly from their wire form. -/
class Canonical (α : Type) [Wire α] (short : outParam (α → Prop)) : Prop where
  decode_eq_ok {input rest : List UInt8} {value : α} :
    (decode : Decoder α) input = .ok (value, rest) ↔ short value ∧ input = encode value ++ rest

export Canonical (decode_eq_ok)

namespace Decoder

variable {α β : Type}

/-- Two readings in a row split the input. -/
theorem bind_eq_ok {first : Decoder α} {second : α → Decoder β} {value : β} :
    (first >>= second) input = .ok (value, rest) ↔
      ∃ a middle, first input = .ok (a, middle) ∧ second a middle = .ok (value, rest) := by
  show first input >>= (fun (a, middle) => second a middle) = _ ↔ _
  cases first input with
  | error error => simp [bind, Except.bind]
  | ok taken => simp [bind, Except.bind, Prod.ext_iff, and_assoc]

theorem pure_eq_ok {a value : α} :
    (pure a : Decoder α) input = .ok (value, rest) ↔ a = value ∧ input = rest := by
  show (.ok (a, input) : Except Malformed (α × List UInt8)) = _ ↔ _
  simp

theorem malformed_ne_ok {error : Malformed} {value : α} :
    ¬ (malformed error : Decoder α) input = .ok (value, rest) := nofun

theorem byte_eq_ok {first : UInt8} : byte input = .ok (first, rest) ↔ input = first :: rest := by
  cases input with
  | nil => exact iff_of_false nofun nofun
  | cons head tail => simp [byte]

theorem takeBytes_eq_ok {count : Nat} {bytes : List UInt8} :
    takeBytes count input = .ok (bytes, rest) ↔ bytes.length = count ∧ input = bytes ++ rest := by
  induction count generalizing input bytes rest with
  | zero =>
      rw [takeBytes, pure_eq_ok, List.length_eq_zero_iff]
      exact ⟨fun ⟨empty, same⟩ => ⟨empty.symm, by rw [← empty, same, List.nil_append]⟩,
        fun ⟨empty, same⟩ => ⟨empty.symm, by rw [same, empty, List.nil_append]⟩⟩
  | succ count inductionHypothesis =>
      simp only [takeBytes, bind_eq_ok, byte_eq_ok, inductionHypothesis, pure_eq_ok]
      constructor
      · rintro ⟨first, _, rfl, others, _, ⟨rfl, rfl⟩, rfl, rfl⟩
        exact ⟨rfl, rfl⟩
      · rintro ⟨length, rfl⟩
        obtain ⟨first, others, rfl⟩ := List.exists_cons_of_length_eq_add_one length
        exact ⟨first, _, rfl, others, _, ⟨Nat.succ.inj length, rfl⟩, rfl, rfl⟩

theorem decodeNat_eq_ok {width value : Nat} :
    decodeNat width input = .ok (value, rest) ↔
      value < 256 ^ width ∧ input = Bytes.littleEndian width value ++ rest := by
  simp only [decodeNat, bind_eq_ok, takeBytes_eq_ok, pure_eq_ok]
  constructor
  · rintro ⟨bytes, _, ⟨rfl, rfl⟩, rfl, rfl⟩
    exact ⟨Bytes.ofLittleEndian_lt bytes, by rw [Bytes.littleEndian_ofLittleEndian]⟩
  · rintro ⟨small, rfl⟩
    exact ⟨_, _, ⟨Bytes.length_littleEndian width value, rfl⟩,
      by rw [Bytes.ofLittleEndian_littleEndian, Nat.mod_eq_of_lt small], rfl⟩

theorem decode32_eq_ok {bytes : Vector UInt8 32} :
    decode32 input = .ok (bytes, rest) ↔ input = bytes.toList ++ rest := by
  unfold decode32
  constructor
  · intro read
    split at read
    · next front =>
        cases read
        rw [← toList_eq_of_bytes32? front, List.take_append_drop]
    · cases read
  · rintro rfl
    have front : (bytes.toList ++ rest).take 32 = bytes.toList :=
      List.take_left' (Vector.length_toList)
    have back : (bytes.toList ++ rest).drop 32 = rest :=
      List.drop_left' (Vector.length_toList)
    rw [front, back, bytes32?_toList]

theorem decodeTag_eq_ok {all : List α} {value : α} :
    decodeTag all input = .ok (value, rest) ↔
      ∃ tag : UInt8, all[tag.toNat]? = some value ∧ input = tag :: rest := by
  simp only [decodeTag, bind_eq_ok, byte_eq_ok]
  constructor
  · rintro ⟨tag, _, rfl, read⟩
    cases found : all[tag.toNat]? with
    | none =>
        rw [found] at read
        exact absurd read malformed_ne_ok
    | some named =>
        rw [found] at read
        obtain ⟨rfl, rfl⟩ := pure_eq_ok.mp read
        exact ⟨tag, found, rfl⟩
  · rintro ⟨tag, found, rfl⟩
    refine ⟨tag, _, rfl, ?_⟩
    rw [found]
    rfl

theorem decodeTag_eq_ok_of_nodup {all : List α} {write : α → List UInt8} {value : α}
    (distinct : all.Nodup)
    (numbered : ∀ value, ∃ tag : UInt8, write value = [tag] ∧ all[tag.toNat]? = some value) :
    decodeTag all input = .ok (value, rest) ↔ True ∧ input = write value ++ rest := by
  obtain ⟨tag, written, listed⟩ := numbered value
  rw [decodeTag_eq_ok, written, true_and, List.singleton_append]
  constructor
  · rintro ⟨other, found, rfl⟩
    have small := (List.getElem?_eq_some_iff.mp listed).1
    have same := (List.getElem?_inj small distinct).mp (listed.trans found.symm)
    rw [UInt8.toNat_inj.mp same]
  · exact fun same => ⟨tag, listed, same⟩

end Decoder

open Decoder

section Whole

variable {α : Type} [Wire α] {short : α → Prop} [Canonical α short] {value other : α}

theorem decodeAll_eq_ok : decodeAll input = .ok value ↔ short value ∧ input = encode value := by
  have whole : (decode : Decoder α) input = .ok (value, []) ↔
      short value ∧ input = encode value := by
    rw [decode_eq_ok, List.append_nil]
  rw [← whole, decodeAll]
  split <;> simp [*]

/-- A wire form does not begin with another. -/
theorem eq_of_encode_append (left : short value) (right : short other)
    (same : encode value ++ rest = encode other) : value = other ∧ rest = [] := by
  have first : (decode : Decoder α) (encode other) = .ok (value, rest) :=
    decode_eq_ok.mpr ⟨left, same.symm⟩
  have second : (decode : Decoder α) (encode other) = .ok (other, []) :=
    decode_eq_ok.mpr ⟨right, (List.append_nil _).symm⟩
  cases first.symm.trans second
  exact ⟨rfl, rfl⟩

end Whole

/-! The instances. -/

instance : Canonical UInt8 fun _ => True where
  decode_eq_ok := byte_eq_ok.trans (iff_and_self.mpr fun _ => trivial)

theorem decodeNat_map_eq_ok {α : Type} {width : Nat} {ofNat : Nat → α} {toNat : α → Nat}
    (bounded : ∀ value, toNat value < 256 ^ width)
    (ofNat_toNat : ∀ value, ofNat (toNat value) = value)
    (toNat_ofNat : ∀ n < 256 ^ width, toNat (ofNat n) = n) {value : α} :
    (do return ofNat (← decodeNat width) : Decoder α) input = .ok (value, rest) ↔
      True ∧ input = Bytes.littleEndian width (toNat value) ++ rest := by
  simp only [bind_eq_ok, decodeNat_eq_ok, pure_eq_ok, true_and]
  constructor
  · rintro ⟨n, _, ⟨small, rfl⟩, rfl, rfl⟩
    rw [toNat_ofNat n small]
  · rintro rfl
    exact ⟨_, _, ⟨bounded value, rfl⟩, ofNat_toNat value, rfl⟩

instance : Canonical UInt32 fun _ => True where
  decode_eq_ok := decodeNat_map_eq_ok UInt32.toNat_lt (fun _ => UInt32.ofNat_toNat)
    fun _ => UInt32.toNat_ofNat_of_lt'

instance : Canonical UInt64 fun _ => True where
  decode_eq_ok := decodeNat_map_eq_ok UInt64.toNat_lt (fun _ => UInt64.ofNat_toNat)
    fun _ => UInt64.toNat_ofNat_of_lt'

instance : Canonical Bool fun _ => True where
  decode_eq_ok {input rest value} := by
    refine bind_eq_ok.trans ?_
    simp only [byte_eq_ok, true_and]
    constructor
    · rintro ⟨flag, _, rfl, read⟩
      split at read
      · obtain ⟨rfl, rfl⟩ := pure_eq_ok.mp read
        rfl
      · obtain ⟨rfl, rfl⟩ := pure_eq_ok.mp read
        rfl
      · exact absurd read malformed_ne_ok
    · rintro rfl
      cases value with
      | false => exact ⟨0, _, rfl, rfl⟩
      | true => exact ⟨1, _, rfl, rfl⟩

instance {α : Type} {short : α → Prop} [Wire α] [Canonical α short] :
    Canonical (Option α) fun item => ∀ value ∈ item, short value where
  decode_eq_ok {input rest item} := by
    refine bind_eq_ok.trans ?_
    simp only [byte_eq_ok]
    constructor
    · rintro ⟨flag, _, rfl, read⟩
      split at read
      · obtain ⟨rfl, rfl⟩ := pure_eq_ok.mp read
        exact ⟨nofun, rfl⟩
      · simp only [bind_eq_ok, decode_eq_ok, pure_eq_ok] at read
        obtain ⟨value, _, ⟨fits, rfl⟩, rfl, rfl⟩ := read
        exact ⟨fun _ same => Option.some.inj same ▸ fits, rfl⟩
      · exact absurd read malformed_ne_ok
    · rintro ⟨fits, rfl⟩
      cases item with
      | none => exact ⟨0, _, rfl, rfl⟩
      | some value =>
          refine ⟨1, _, rfl, ?_⟩
          simp only [bind_eq_ok, decode_eq_ok, pure_eq_ok]
          exact ⟨value, rest, ⟨fits value rfl, rfl⟩, rfl, rfl⟩

instance : Canonical Word fun _ => True where
  decode_eq_ok {input rest word} := by
    refine bind_eq_ok.trans ?_
    simp only [decode32_eq_ok, pure_eq_ok, true_and]
    constructor
    · rintro ⟨bytes, _, rfl, rfl, rfl⟩
      rfl
    · rintro rfl
      exact ⟨word.bytes, _, rfl, rfl, rfl⟩

instance : Canonical Address fun _ => True where
  decode_eq_ok {input rest address} := by
    refine bind_eq_ok.trans ?_
    simp only [decode32_eq_ok, pure_eq_ok, true_and]
    constructor
    · rintro ⟨bytes, _, rfl, rfl, rfl⟩
      rfl
    · rintro rfl
      exact ⟨address.bytes, _, rfl, rfl, rfl⟩

section Lists

variable {α : Type} {short : α → Prop} [Wire α] [Canonical α short]

theorem decodeMany_eq_ok {count : Nat} {items : List α} :
    decodeMany count input = .ok (items, rest) ↔
      items.length = count ∧ (∀ item ∈ items, short item) ∧
        input = items.flatMap encode ++ rest := by
  induction count generalizing input items rest with
  | zero =>
      rw [decodeMany, pure_eq_ok, List.length_eq_zero_iff]
      constructor
      · rintro ⟨rfl, rfl⟩
        exact ⟨rfl, List.forall_mem_nil _, rfl⟩
      · rintro ⟨rfl, -, rfl⟩
        exact ⟨rfl, rfl⟩
  | succ count inductionHypothesis =>
      simp only [decodeMany, bind_eq_ok, decode_eq_ok, inductionHypothesis, pure_eq_ok]
      constructor
      · rintro ⟨first, _, ⟨fits, rfl⟩, others, _, ⟨rfl, fit, rfl⟩, rfl, rfl⟩
        exact ⟨rfl, List.forall_mem_cons.mpr ⟨fits, fit⟩,
          by rw [List.flatMap_cons, List.append_assoc]⟩
      · rintro ⟨length, fit, rfl⟩
        obtain ⟨first, others, rfl⟩ := List.exists_cons_of_length_eq_add_one length
        obtain ⟨fits, fit⟩ := List.forall_mem_cons.mp fit
        exact ⟨first, _, ⟨fits, by rw [List.flatMap_cons, List.append_assoc]⟩, others, _,
          ⟨Nat.succ.inj length, fit, rfl⟩, rfl, rfl⟩

instance : Canonical (List α) fun items => items.length < 2 ^ 32 ∧ ∀ item ∈ items, short item where
  decode_eq_ok {input rest items} := by
    refine bind_eq_ok.trans ?_
    simp only [decodeNat_eq_ok, decodeMany_eq_ok]
    constructor
    · rintro ⟨_, _, ⟨small, rfl⟩, rfl, fit, rfl⟩
      exact ⟨⟨small, fit⟩, (List.append_assoc _ _ _).symm⟩
    · rintro ⟨⟨small, fit⟩, rfl⟩
      exact ⟨_, _, ⟨small, List.append_assoc _ _ _⟩, rfl, fit, rfl⟩

instance : Canonical (Array α) fun items => items.size < 2 ^ 32 ∧ ∀ item ∈ items, short item where
  decode_eq_ok {input rest items} := by
    refine bind_eq_ok.trans ?_
    simp only [decode_eq_ok, pure_eq_ok]
    constructor
    · rintro ⟨list, _, ⟨⟨small, fit⟩, rfl⟩, rfl, rfl⟩
      exact ⟨⟨small, fun item member => fit item (List.mem_toArray.mp member)⟩, rfl⟩
    · rintro ⟨⟨small, fit⟩, rfl⟩
      have listed : ∀ item ∈ items.toList, short item :=
        fun item member => fit item (Array.mem_toList_iff.mp member)
      exact ⟨items.toList, _, ⟨⟨small, listed⟩, rfl⟩, rfl, rfl⟩

end Lists

end Wire

end CandleAuction
