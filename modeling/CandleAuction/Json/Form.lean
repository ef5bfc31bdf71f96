import CandleAuction.Json.Basic
import CandleAuction.Word

/-!
# JSON forms

How a type is written as JSON and read back. Integers are plain numbers in
range, addresses lists of 32 bytes, words and byte strings hex text. A record
is an object with its fields by name, or a list of them in order.
-/

namespace CandleAuction

class Json.Form (α : Type) where
  write : α → Json
  read : Json → Option α

namespace Json

export Form (write read)

def readNat (bound : Nat) : Json → Option Nat
  | number value => if value < bound then some value else none
  | _ => none

instance : Form UInt8 := ⟨fun n => number n.toNat, fun j => (j.readNat UInt8.size).map UInt8.ofNat⟩

instance : Form UInt32 :=
  ⟨fun n => number n.toNat, fun j => (j.readNat UInt32.size).map UInt32.ofNat⟩

instance : Form UInt64 :=
  ⟨fun n => number n.toNat, fun j => (j.readNat UInt64.size).map UInt64.ofNat⟩

instance : Form Bool where
  write := bool
  read
    | bool value => some value
    | _ => none

def writeList {α : Type} [Form α] (items : List α) : Json := list (items.map write)

def readList {α : Type} [Form α] : Json → Option (List α)
  | list items => items.mapM read
  | _ => none

instance {α : Type} [Form α] : Form (List α) := ⟨writeList, readList⟩

instance {α : Type} [Form α] : Form (Array α) :=
  ⟨fun items => writeList items.toList, fun j => j.readList.map List.toArray⟩

instance {α : Type} [Form α] : Form (Option α) where
  write
    | none => null
    | some value => write value
  read
    | null => some none
    | j => (read j).map some

def writeHex (bytes : List UInt8) : Json := string (Hex.encode bytes)

def readHex : Json → Option (List UInt8)
  | text (some value) => Hex.decode? value
  | _ => none

instance : Form Address :=
  ⟨fun address => write address.toList, fun j => do Address.ofList? (← read j)⟩

instance : Form Word := ⟨fun word => writeHex word.toList, fun j => do Word.ofList? (← readHex j)⟩

/-- What a record's text has in place of a field. -/
inductive Slot
  | given (value : Json)
  /-- The object has no such key. -/
  | absent
  /-- The list ends before this field. -/
  | cut

namespace Slot

def required {α : Type} [Form α] : Slot → Option α
  | given value => read value
  | _ => none

/-- An optional field may be missing from an object, but not from a list. -/
def optional {α : Type} [Form α] : Slot → Option (Option α)
  | given value => read value
  | absent => some none
  | cut => none

def withDefault {α : Type} [Form α] (default : α) : Slot → Option α
  | given value => read value
  | _ => some default

end Slot

/-- The value of a field among those with its name: at most one may have it. -/
def slot (fields : List (String × Json)) (name : String) : Option Slot :=
  match fields.filter fun field => field.1 = name with
  | [] => some .absent
  | [(_, value)] => some (.given value)
  | _ => none

/-- The fields of a record by their names in order. Unknown keys are passed over. -/
def slots (names : List String) : Json → Option (List Slot)
  | list items =>
      if items.length ≤ names.length then
        some (items.map .given ++ List.replicate (names.length - items.length) .cut)
      else none
  | object fields => do
      let named ← fields.mapM fun (key, value) => key.map fun key => (key, value)
      names.mapM (slot named)
  | _ => none

/-- An alternative by its name: as a bare string, or as the one key of an object. -/
def variant? : Json → Option (String × Option Json)
  | text (some name) => some (name, none)
  | object [(some name, value)] => some (name, some value)
  | _ => none

/-- The name of an alternative that holds nothing. -/
def bareVariant? (j : Json) : Option String :=
  match j.variant? with
  | some (name, none) => some name
  | some (name, some null) => some name
  | _ => none

/-- The member of a list with a given name. -/
def readName {α : Type} (name : α → String) (all : List α) (j : Json) : Option α := do
  let given ← j.bareVariant?
  all.find? fun value => name value = given

end Json

end CandleAuction
