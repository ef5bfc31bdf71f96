import CandleAuction.Change

/-!
# Bidding

Bids are taken from the start of a round to its deadline. A bid carries its
amount as attached value; raising one moves its timestamp to the present.
-/

namespace CandleAuction

open Ruling

namespace House

def requireAuction (h : House) (id : UInt64) : Ruling Auction :=
  demand (h.auction? id) (.auctionNotFound id)

end House

namespace Auction

def requirePhase (r : Auction) (now : UInt64) (expected : Phase) : Ruling Unit := do
  let got ← r.phaseAt now
  ensure (got = expected) (.invalidState expected got)

def requireOpen (r : Auction) (now : UInt64) : Ruling Unit := do
  match ← r.phaseAt now with
  | .running => do
      let deadline ← r.deadline
      ensure (now < deadline) .biddingEnded
  | .created => reject .biddingNotStarted
  | got => reject (.invalidState .running got)

/-- Seconds since the start of the round, as a bid records them. -/
def relativeTime (r : Auction) (now : UInt64) : Ruling UInt32 :=
  let elapsed := saturatingSub now r.startTime
  if elapsed.toNat < UInt32.size then .ok elapsed.toUInt32 else reject .timestampOverflow

end Auction

def Settings.requirePrecision (s : Settings) (amount : UInt64) : Ruling Unit := do
  ensure (amount ≠ 0) (.invalidPrecision amount s.bidPrecision)
  let rest ← exactMod amount s.bidPrecision
  ensure (rest = 0) (.invalidPrecision amount s.bidPrecision)

def Context.requireValue (ctx : Context) (expected : UInt64) : Ruling Unit :=
  ensure (ctx.value = expected) (.valueMismatch expected ctx.value)

namespace House

def placeBid (h : House) (ctx : Context) (id amount : UInt64) : Ruling Plan := do
  let r ← h.requireAuction id
  r.requireOpen ctx.now
  ctx.requireValue amount
  r.settings.requirePrecision amount
  ensure (r.minBid ≤ amount) (.bidBelowMinimum r.minBid amount)
  let index := (h.ledger id).size
  ensure (index < r.settings.indexWidth.capacity) .ledgerFull
  let timestamp ← r.relativeTime ctx.now
  let proceeds ← demand (checkedAdd r.proceeds amount) .amountOverflow
  return .change (.placed id index ⟨ctx.sender, timestamp, amount, false⟩ proceeds)
    (.bidPlaced (UInt32.ofNat index))

def increaseBid (h : House) (ctx : Context) (id : UInt64) (index : UInt32) (added : UInt64) :
    Ruling Plan := do
  let r ← h.requireAuction id
  r.requireOpen ctx.now
  ctx.requireValue added
  r.settings.requirePrecision added
  let bid ← demand (h.bid? id index) (.bidNotFound index)
  ensure (bid.bidder = ctx.sender) (.notBidOwner index)
  let amount ← demand (checkedAdd bid.amount added) .amountOverflow
  let proceeds ← demand (checkedAdd r.proceeds added) .amountOverflow
  let timestamp ← r.relativeTime ctx.now
  return .change (.raised id index amount timestamp proceeds) (.bidIncreased amount)

end House

end CandleAuction
