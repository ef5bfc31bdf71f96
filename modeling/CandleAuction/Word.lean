import CandleAuction.Bytes

/-!
# Words and addresses

Digests, entropy and derived seeds are 32-byte words. Addresses have the same
size but are a type of their own; they are ordered byte by byte.
-/

namespace CandleAuction

/-- The 32 bytes of a list of exactly that length. -/
def bytes32? (bytes : List UInt8) : Option (Vector UInt8 32) :=
  if size : bytes.length = 32 then some ⟨bytes.toArray, by simp [size]⟩ else none

theorem bytes32?_toList (bytes : Vector UInt8 32) : bytes32? bytes.toList = some bytes := by
  simp only [bytes32?, Vector.length_toList, dite_true, Option.some.injEq]
  exact Vector.toArray_inj.mp (by simp [Vector.toList])

theorem toList_eq_of_bytes32? {bytes : List UInt8} {vector : Vector UInt8 32}
    (read : bytes32? bytes = some vector) : bytes = vector.toList := by
  unfold bytes32? at read
  split at read
  · cases read
    simp
  · cases read

structure Word where
  bytes : Vector UInt8 32
  deriving DecidableEq, Repr

structure Address where
  bytes : Vector UInt8 32
  deriving DecidableEq, Repr

namespace Word

def toList (word : Word) : List UInt8 := word.bytes.toList

def ofList? (bytes : List UInt8) : Option Word := (bytes32? bytes).map Word.mk

def hex (word : Word) : String := Hex.encode word.toList

def zero : Word := ⟨Vector.replicate 32 0⟩

@[simp]
theorem length_toList (word : Word) : word.toList.length = 32 := by simp [toList]

@[simp]
theorem ofList?_toList (word : Word) : ofList? word.toList = some word := by
  rw [ofList?, toList, bytes32?_toList, Option.map_some]

theorem toList_injective {first second : Word} (equal : first.toList = second.toList) :
    first = second := by
  simpa using congrArg ofList? equal

end Word

namespace Address

def toList (address : Address) : List UInt8 := address.bytes.toList

def ofList? (bytes : List UInt8) : Option Address := (bytes32? bytes).map Address.mk

def hex (address : Address) : String := Hex.encode address.toList

def zero : Address := ⟨Vector.replicate 32 0⟩

/-- The address that repeats one byte. -/
def fill (byte : UInt8) : Address := ⟨Vector.replicate 32 byte⟩

instance : Ord Address := ⟨compareOn Address.bytes⟩

instance : Std.TransOrd Address :=
  inferInstanceAs (Std.TransCmp (compareOn Address.bytes))

instance : Std.LawfulEqOrd Address where
  compare_self := Std.ReflCmp.compare_self
  eq_of_compare {first second} equal := by
    have bytes : compare first.bytes second.bytes = .eq := equal
    cases first
    cases second
    exact congrArg Address.mk (Std.LawfulEqCmp.eq_of_compare bytes)

@[simp]
theorem length_toList (address : Address) : address.toList.length = 32 := by simp [toList]

@[simp]
theorem ofList?_toList (address : Address) : ofList? address.toList = some address := by
  rw [ofList?, toList, bytes32?_toList, Option.map_some]

end Address

end CandleAuction
