/-!
# Bytes

Fixed-width integers as bytes in either byte order, and lowercase hex text.
-/

namespace CandleAuction

namespace Bytes

/-- The `width` low bytes of `value`, least significant first. -/
def littleEndian : (width : Nat) → (value : Nat) → List UInt8
  | 0, _ => []
  | width + 1, value => UInt8.ofNat value :: littleEndian width (value / 256)

def bigEndian (width value : Nat) : List UInt8 :=
  (littleEndian width value).reverse

def ofLittleEndian (bytes : List UInt8) : Nat :=
  bytes.foldr (fun byte high => byte.toNat + 256 * high) 0

def ofBigEndian (bytes : List UInt8) : Nat :=
  bytes.foldl (fun high byte => 256 * high + byte.toNat) 0

@[simp]
theorem length_littleEndian (width value : Nat) :
    (littleEndian width value).length = width := by
  induction width generalizing value with
  | zero => rfl
  | succ width inductionHypothesis => simp [littleEndian, inductionHypothesis]

@[simp]
theorem length_bigEndian (width value : Nat) : (bigEndian width value).length = width := by
  simp [bigEndian]

theorem ofBigEndian_eq (bytes : List UInt8) :
    ofBigEndian bytes = ofLittleEndian bytes.reverse := by
  simp only [ofBigEndian, ofLittleEndian, List.foldr_reverse]
  congr
  funext high byte
  omega

end Bytes

namespace Hex

def digit (value : UInt8) : Char :=
  if value < 10 then Char.ofNat (48 + value.toNat) else Char.ofNat (87 + value.toNat)

/-- The value of a hex digit of either case. -/
def digitValue? (c : Char) : Option UInt8 :=
  if '0' ≤ c ∧ c ≤ '9' then some (UInt8.ofNat (c.toNat - 48))
  else if 'a' ≤ c ∧ c ≤ 'f' then some (UInt8.ofNat (c.toNat - 87))
  else if 'A' ≤ c ∧ c ≤ 'F' then some (UInt8.ofNat (c.toNat - 55))
  else none

def encode (bytes : List UInt8) : String :=
  String.ofList (bytes.flatMap fun byte => [digit (byte / 16), digit (byte % 16)])

def decodeFrom (done : List UInt8) : List Char → Option (List UInt8)
  | [] => some done.reverse
  | [_] => none
  | high :: low :: rest =>
      match digitValue? high, digitValue? low with
      | some high, some low => decodeFrom ((16 * high + low) :: done) rest
      | _, _ => none

/-- The bytes a hex text spells, two digits a byte. -/
def decode? (text : String) : Option (List UInt8) :=
  decodeFrom [] text.toList

end Hex

end CandleAuction
