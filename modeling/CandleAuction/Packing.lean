import CandleAuction.Settings

/-!
# Packed indices

A list of bid indices as bytes: each index big-endian at the width of the
auction, nothing between them.
-/

namespace CandleAuction

inductive PackingError
  | badLength (length width : Nat)
  | indexTooLarge (index max : UInt32)
  deriving DecidableEq, Repr

def PackingError.message : PackingError → String
  | .badLength length width => s!"Invalid encoding length {length}: not a multiple of {width}"
  | .indexTooLarge index max => s!"Index {index} exceeds width maximum {max}"

namespace IndexWidth

/-- Pack indices; the first that the width cannot hold is reported. -/
def pack (width : IndexWidth) (indices : List UInt32) : Except PackingError (List UInt8) :=
  match indices.find? (width.maxIndex < ·) with
  | some index => .error (.indexTooLarge index width.maxIndex)
  | none => .ok (indices.flatMap fun index => Bytes.bigEndian width.bytes index.toNat)

/-- Read so many indices of one size each. -/
def unpackChunks (size : Nat) (done : List UInt32) : Nat → List UInt8 → List UInt32
  | 0, _ => done.reverse
  | count + 1, bytes =>
      unpackChunks size (UInt32.ofNat (Bytes.ofBigEndian (bytes.take size)) :: done) count
        (bytes.drop size)

def unpack (width : IndexWidth) (bytes : List UInt8) : Except PackingError (List UInt32) :=
  if bytes.length % width.bytes ≠ 0 then .error (.badLength bytes.length width.bytes)
  else .ok (unpackChunks width.bytes [] (bytes.length / width.bytes) bytes)

end IndexWidth

end CandleAuction
