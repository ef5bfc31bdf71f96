import CandleAuction.Hash.Keccak
import CandleAuction.Packing

/-!
# Commitments

A proposal is known on chain by one digest: Keccak-256 of the packed winners
followed by the entropy of the round, so it opens in no other round.
-/

namespace CandleAuction

def commitment (encoding : List UInt8) (entropy : Word) : Word :=
  Keccak.hash (encoding ++ entropy.toList)

def opens (encoding : List UInt8) (entropy expected : Word) : Bool :=
  commitment encoding entropy = expected

/-- Pack a list of winners and commit to it. -/
def commitWinners (indices : List UInt32) (width : IndexWidth) (entropy : Word) :
    Except PackingError (List UInt8 × Word) := do
  let encoding ← width.pack indices
  return (encoding, commitment encoding entropy)

end CandleAuction
