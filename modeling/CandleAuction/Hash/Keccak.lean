import CandleAuction.Word

/-!
# Keccak-256

A sponge over 25 lanes of 64 bits, lane (x, y) at index 5y + x, with a rate of
136 bytes. The domain byte is 1, as in the form that predates SHA-3.
-/

namespace CandleAuction.Keccak

abbrev State := Vector UInt64 25

def lane (s : State) (x y : Nat) : UInt64 := s[5 * (y % 5) + x % 5]

def rotateLeft (x : UInt64) (n : Nat) : UInt64 :=
  (x <<< UInt64.ofNat n) ||| (x >>> UInt64.ofNat (64 - n))

def theta (s : State) : State :=
  let column : Vector UInt64 5 := Vector.ofFn fun x : Fin 5 =>
    lane s x 0 ^^^ lane s x 1 ^^^ lane s x 2 ^^^ lane s x 3 ^^^ lane s x 4
  let parity (x : Nat) : UInt64 := column[x % 5]
  Vector.ofFn fun i : Fin 25 =>
    s[i] ^^^ parity (i.val + 4) ^^^ rotateLeft (parity (i.val + 1)) 1

/-- How far each lane is rotated. -/
def offsets : Vector Nat 25 := #v[
  0, 1, 62, 28, 27,
  36, 44, 6, 55, 20,
  3, 10, 43, 25, 39,
  41, 45, 15, 21, 8,
  18, 2, 61, 56, 14]

/-- Rotate every lane and move it: lane (x, y) goes to (y, 2x + 3y). -/
def rhoPi (s : State) : State :=
  Vector.ofFn fun i : Fin 25 =>
    let x := i.val % 5
    let y := i.val / 5
    let source := 5 * x + (x + 3 * y) % 5
    have inRange : source < 25 := by omega
    rotateLeft s[source] offsets[source]

def chi (s : State) : State :=
  Vector.ofFn fun i : Fin 25 =>
    let x := i.val % 5
    let y := i.val / 5
    s[i] ^^^ (~~~lane s (x + 1) y &&& lane s (x + 2) y)

def roundConstants : List UInt64 := [
  0x0000000000000001, 0x0000000000008082, 0x800000000000808a, 0x8000000080008000,
  0x000000000000808b, 0x0000000080000001, 0x8000000080008081, 0x8000000000008009,
  0x000000000000008a, 0x0000000000000088, 0x0000000080008009, 0x000000008000000a,
  0x000000008000808b, 0x800000000000008b, 0x8000000000008089, 0x8000000000008003,
  0x8000000000008002, 0x8000000000000080, 0x000000000000800a, 0x800000008000000a,
  0x8000000080008081, 0x8000000000008080, 0x0000000080000001, 0x8000000080008008]

def iota (s : State) (constant : UInt64) : State := s.set 0 (s[0] ^^^ constant)

def permute (s : State) : State :=
  roundConstants.foldl (fun s constant => iota (chi (rhoPi (theta s))) constant) s

def rate : Nat := 136

/-- The state and the position within the current block. -/
structure Sponge where
  state : State
  position : Fin rate

/-- Combine one byte into the state. -/
def Sponge.mix (p : Sponge) (position : Fin rate) (byte : UInt8) : State :=
  have inRange : position.val / 8 < 25 := by have := position.isLt; simp only [rate] at this; omega
  p.state.set (position.val / 8)
    (p.state[position.val / 8] ^^^ (byte.toUInt64 <<< UInt64.ofNat (8 * (position.val % 8))))

def Sponge.absorb (p : Sponge) (byte : UInt8) : Sponge :=
  let mixed := p.mix p.position byte
  if next : p.position.val + 1 < rate then ⟨mixed, ⟨p.position.val + 1, next⟩⟩
  else ⟨permute mixed, ⟨0, by decide⟩⟩

/-- Close the last block: the domain byte where the message ends, the top bit of the block last. -/
def Sponge.finish (p : Sponge) : State :=
  let closed : Sponge := ⟨p.mix p.position 0x01, p.position⟩
  permute (closed.mix ⟨135, by decide⟩ 0x80)

def digest (s : State) : Word :=
  ⟨Vector.ofFn fun i : Fin 32 => (s[i.val / 8] >>> UInt64.ofNat (8 * (i.val % 8))).toUInt8⟩

def hash (message : List UInt8) : Word :=
  digest (message.foldl Sponge.absorb ⟨Vector.replicate 25 0, ⟨0, by decide⟩⟩).finish

end CandleAuction.Keccak
