import CandleAuction.Word

/-!
# Wire form

A compact binary form without room for choice: integers little-endian, lists
and byte strings behind their length, one byte for a flag or the number of an
alternative, records field after field. Reading takes bytes from the front.
-/

namespace CandleAuction

namespace Wire

inductive Malformed
  | endOfInput
  | leftOver
  | unknownTag (tag : UInt8)
  | badFlag (flag : UInt8)
  | badPresence (flag : UInt8)
  deriving DecidableEq, Repr

def Malformed.message : Malformed → String
  | .endOfInput => "Unexpected length of input"
  | .leftOver => "Not all bytes read"
  | .unknownTag tag => s!"Unexpected variant tag: {tag}"
  | .badFlag flag => s!"Invalid bool representation: {flag}"
  | .badPresence flag =>
      s!"Invalid Option representation: {flag}. The first byte must be 0 or 1"

/-- A reader of bytes from the front of the input. -/
abbrev Decoder := StateT (List UInt8) (Except Malformed)

def byte : Decoder UInt8
  | first :: rest => .ok (first, rest)
  | [] => .error .endOfInput

/-- Exactly so many bytes. -/
def takeBytes : (count : Nat) → Decoder (List UInt8)
  | 0 => return []
  | count + 1 => do return (← byte) :: (← takeBytes count)

def malformed {α : Type} (error : Malformed) : Decoder α := fun _ => .error error

end Wire

class Wire (α : Type) where
  encode : α → List UInt8
  decode : Wire.Decoder α

namespace Wire

/-- Read a whole input. -/
def decodeAll {α : Type} [Wire α] (input : List UInt8) : Except Malformed α :=
  match (decode : Decoder α) input with
  | .error error => .error error
  | .ok (value, []) => .ok value
  | .ok (_, _ :: _) => .error .leftOver

def decodeNat (width : Nat) : Decoder Nat := do
  return Bytes.ofLittleEndian (← takeBytes width)

instance : Wire UInt8 := ⟨fun n => [n], byte⟩

instance : Wire UInt32 :=
  ⟨fun n => Bytes.littleEndian 4 n.toNat, do return UInt32.ofNat (← decodeNat 4)⟩

instance : Wire UInt64 :=
  ⟨fun n => Bytes.littleEndian 8 n.toNat, do return UInt64.ofNat (← decodeNat 8)⟩

instance : Wire Bool where
  encode value := [if value then 1 else 0]
  decode := do
    match ← byte with
    | 0 => return false
    | 1 => return true
    | flag => malformed (.badFlag flag)

instance {α : Type} [Wire α] : Wire (Option α) where
  encode
    | none => [0]
    | some value => 1 :: encode value
  decode := do
    match ← byte with
    | 0 => return none
    | 1 => return some (← decode)
    | flag => malformed (.badPresence flag)

def decodeMany {α : Type} [Wire α] : (count : Nat) → Decoder (List α)
  | 0 => return []
  | count + 1 => do return (← decode) :: (← decodeMany count)

instance {α : Type} [Wire α] : Wire (List α) where
  encode items := Bytes.littleEndian 4 items.length ++ items.flatMap encode
  decode := do decodeMany (← decodeNat 4)

instance {α : Type} [Wire α] : Wire (Array α) where
  encode items := encode items.toList
  decode := do return (← (decode : Decoder (List α))).toArray

def decode32 : Decoder (Vector UInt8 32) := fun input =>
  match bytes32? (input.take 32) with
  | some bytes => .ok (bytes, input.drop 32)
  | none => .error .endOfInput

instance : Wire Word := ⟨Word.toList, do return ⟨← decode32⟩⟩

instance : Wire Address := ⟨Address.toList, do return ⟨← decode32⟩⟩

/-- One of the listed values, by its position. -/
def decodeTag {α : Type} (all : List α) : Decoder α := do
  let tag ← byte
  match all[tag.toNat]? with
  | some value => return value
  | none => malformed (.unknownTag tag)

end Wire

end CandleAuction
