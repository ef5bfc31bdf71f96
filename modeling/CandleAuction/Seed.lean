import CandleAuction.Hash.Sha256

/-!
# Seeds

Seeds handed to the collaborators, each under a tag of its own.
-/

namespace CandleAuction.Seed

def tagged (tag : String) (parts : List UInt8) : Word :=
  Sha256.hash (tag.toUTF8.toList ++ parts)

/-- The seed of a round's request for randomness. -/
def randomness (auction startTime : UInt64) : Word :=
  tagged "CANDLE_RANDOMNESS_SEED_V1:"
    (Bytes.littleEndian 8 auction.toNat ++ Bytes.littleEndian 8 startTime.toNat)

/-- The seed of one winner's item. -/
def item (entropy : Word) (index : UInt32) : Word :=
  tagged "CANDLE_ITEM_SEED_V1:" (entropy.toList ++ Bytes.bigEndian 4 index.toNat)

end CandleAuction.Seed
