import CandleAuction.Rules.Bidding
import CandleAuction.Seed

/-!
# Closing

From the deadline on, anyone may snuff a round, unless the round before it is
still being settled. A round with bids asks for randomness and a new round
opens in its place. The answer fixes the close instant once and for all.
-/

namespace CandleAuction

open Ruling

namespace House

/-- The round numbered just before, if there is one. -/
def previous? (h : House) (id : UInt64) : Option Auction :=
  if id = 0 then none else h.auction? (id - 1)

/-- Only one round may be in winner determination. -/
def requireFreeSlot (h : House) (now id : UInt64) : Ruling Unit :=
  match h.previous? id with
  | none => .ok ()
  | some previous => do
      let phase ← previous.phaseAt now
      ensure (phase ≠ .waitingClose ∧ phase ≠ .winnersProposed) (.settlingSlotBusy previous.id)

/-- Close a round and open the next one. The numbers may run out in between. -/
def closeAndReopen (h : House) (ctx : Context) (settlementGas id : UInt64)
    (request : Option UInt64) : Effect :=
  let closed := Change.closed id ⟨ctx.sender, ctx.now⟩ request
  let round := h.nextRound ctx.now ⟨ctx.gasPrice, ctx.now⟩ settlementGas
  match exactAdd h.nextId 1 with
  | .error fault => ⟨[closed], .error fault⟩
  | .ok nextId => ⟨[closed, .opened round nextId], .ok (.snuffed round.id)⟩

def snuff (h : House) (ctx : Context) (settlementGas id : UInt64) : Ruling Plan := do
  let r ← h.requireAuction id
  r.requirePhase ctx.now .running
  let deadline ← r.deadline
  ensure (deadline ≤ ctx.now) (.closeNotReached deadline)
  h.requireFreeSlot ctx.now id
  if (h.ledger id).isEmpty then
    return .act (h.closeAndReopen ctx settlementGas id none)
  else
    return .ask (.randomness (Seed.randomness id r.startTime)) fun request =>
      h.closeAndReopen ctx settlementGas id (some request)

def fulfillRandomness (h : House) (ctx : Context) (request : UInt64) (word : Word) :
    Ruling Plan := do
  ensure (ctx.sender = h.oracle) .notOracle
  let id ← demand h.requests[request]? (.unknownRequest request)
  let r ← h.requireAuction id
  ensure (r.phase = .waitingClose ∧ r.request = some request) (.unknownRequest request)
  ensure (r.entropy = none) .entropyAlreadySet
  let offset ← r.settings.closeOffset word
  let closeTime ← if ctx.logging then exactAdd r.startTime offset.toUInt64 else .ok 0
  return .change (.drawn id word offset closeTime) (.closeResolved offset)

end House

end CandleAuction
