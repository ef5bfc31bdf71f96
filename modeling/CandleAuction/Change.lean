import CandleAuction.Call
import CandleAuction.Event
import CandleAuction.House

/-!
# Changes

What a call does to the house, once the rules have allowed it. A change holds
the new values, so carrying it out decides nothing and cannot fail.
-/

namespace CandleAuction

/-- Value that leaves a round for a balance, with the accounts after it has moved. -/
structure Payout where
  recipient : Address
  fromProceeds : UInt64
  fromDeposit : UInt64
  proceeds : UInt64
  balance : UInt64
  deriving DecidableEq, Repr

inductive Change
  | placed (auction : UInt64) (index : Nat) (bid : Bid) (proceeds : UInt64)
  | raised (auction : UInt64) (index : UInt32) (amount : UInt64) (timestamp : UInt32)
      (proceeds : UInt64)
  /-- Bidding is over; without a request there were no bids. -/
  | closed (auction : UInt64) (snuff : Snuff) (request : Option UInt64)
  | opened (round : Auction) (nextId : UInt64)
  | drawn (auction : UInt64) (entropy : Word) (offset : UInt32) (closeTime : UInt64)
  | proposed (auction : UInt64) (proposal : Proposal)
  | overturned (auction : UInt64) (proposal : Proposal) (found : CounterExample)
      (challenger : Address) (balance : UInt64)
  | claimed (auction : UInt64) (index : UInt32) (item : UInt64) (winner : Address)
      (claimedWinners : UInt32)
  | withdrawn (auction : UInt64) (index : UInt32) (payout : Payout)
  | snuffBountyPaid (auction : UInt64) (payout : Payout)
  | proposalBountyPaid (auction : UInt64) (payout : Payout)
  | proceedsMoved (auction : UInt64) (payout : Payout)
  | configured (settings : Settings)
  deriving DecidableEq, Repr

namespace House

def pay (h : House) (auction : UInt64) (p : Payout) : House :=
  (h.updateAuction auction ({ · with proceeds := p.proceeds })).setBalance p.recipient p.balance

def updateProposal (h : House) (auction : UInt64) (change : Proposal → Proposal) : House :=
  h.updateAuction auction fun r => { r with proposal := r.proposal.map change }

end House

namespace Change

def apply (h : House) : Change → House
  | placed auction _ bid proceeds =>
      (h.updateAuction auction ({ · with proceeds := proceeds })).appendBid auction bid
  | raised auction index amount timestamp proceeds =>
      (h.updateAuction auction ({ · with proceeds := proceeds })).updateBid auction index
        ({ · with amount := amount, timestamp := timestamp })
  | closed auction snuff (some request) =>
      let h := h.updateAuction auction
        ({ · with snuff := some snuff, phase := .waitingClose, request := some request })
      { h with requests := h.requests.insert request auction }
  | closed auction snuff none =>
      h.updateAuction auction ({ · with snuff := some snuff, phase := .endedWithoutBids })
  | opened round nextId => h.openRound round nextId
  | drawn auction entropy offset _ =>
      h.updateAuction auction ({ · with entropy := some entropy, closeOffset := some offset })
  | proposed auction proposal =>
      h.updateAuction auction ({ · with proposal := some proposal, phase := .winnersProposed })
  | overturned auction _ _ challenger balance =>
      (h.updateAuction auction ({ · with proposal := none, phase := .waitingClose })).setBalance
        challenger balance
  | claimed auction index _ _ claimedWinners =>
      (h.updateBid auction index ({ · with processed := true })).updateAuction auction
        ({ · with claimedWinners := claimedWinners })
  | withdrawn auction index payout =>
      (h.pay auction payout).updateBid auction index ({ · with processed := true })
  | snuffBountyPaid auction payout =>
      (h.pay auction payout).updateProposal auction ({ · with snuffBountyClaimed := true })
  | proposalBountyPaid auction payout =>
      (h.pay auction payout).updateProposal auction ({ · with proposalBountyClaimed := true })
  | proceedsMoved auction payout =>
      (h.pay auction payout).updateAuction auction ({ · with fundsMoved := true })
  | configured settings => { h with settings := settings }

/-- How a change is logged. -/
def event? : Change → Option Event
  | placed auction index bid _ => some ⟨.debug, "bid placed", [
      ("auction_id", .number auction.toNat), ("index", .number index),
      ("amount", .number bid.amount.toNat), ("timestamp", .number bid.timestamp.toNat)]⟩
  | raised auction index amount timestamp _ => some ⟨.debug, "bid increased", [
      ("auction_id", .number auction.toNat), ("index", .number index.toNat),
      ("amount", .number amount.toNat), ("timestamp", .number timestamp.toNat)]⟩
  | closed auction _ (some request) => some ⟨.info, "auction snuffed, entropy requested", [
      ("auction_id", .number auction.toNat), ("request_id", .number request.toNat)]⟩
  | closed auction _ none => some ⟨.info, "auction ended without bids", [
      ("auction_id", .number auction.toNat)]⟩
  | opened round _ => some ⟨.info, "auction started", [
      ("auction_id", .number round.id.toNat), ("start_time", .number round.startTime.toNat),
      ("min_bid", .number round.minBid.toNat)]⟩
  | drawn auction _ offset closeTime => some ⟨.info, "close instant resolved", [
      ("auction_id", .number auction.toNat), ("close_offset", .number offset.toNat),
      ("close_time", .number closeTime.toNat)]⟩
  | proposed auction p => some ⟨.info, "winners proposed", [
      ("auction_id", .number auction.toNat), ("proposer", .text p.proposer.hex),
      ("commitment", .text p.commitment.hex), ("winners", .number p.winnerCount.toNat),
      ("total_bid_amount", .number p.total.toNat)]⟩
  | overturned auction p found challenger _ => some ⟨.warn, "winners proposal overturned", [
      ("auction_id", .number auction.toNat), ("reason", .text found.reason.text),
      ("disputed_index", .number found.disputed.toNat), ("proposer", .text p.proposer.hex),
      ("challenger", .text challenger.hex), ("deposit", .number p.deposit.toNat)]⟩
  | claimed auction index item winner _ => some ⟨.info, "winning bid claimed", [
      ("auction_id", .number auction.toNat), ("index", .number index.toNat),
      ("item_id", .number item.toNat), ("winner", .text winner.hex)]⟩
  | withdrawn auction index payout => some ⟨.debug, "losing bid withdrawn", [
      ("auction_id", .number auction.toNat), ("index", .number index.toNat),
      ("amount", .number payout.fromProceeds.toNat)]⟩
  | snuffBountyPaid auction payout => some ⟨.info, "snuff bounty claimed", [
      ("auction_id", .number auction.toNat), ("amount", .number payout.fromProceeds.toNat)]⟩
  | proposalBountyPaid auction payout => some ⟨.info, "proposal bounty claimed", [
      ("auction_id", .number auction.toNat), ("bounty", .number payout.fromProceeds.toNat),
      ("deposit", .number payout.fromDeposit.toNat)]⟩
  | proceedsMoved auction payout => some ⟨.info, "proceeds transferred", [
      ("auction_id", .number auction.toNat), ("amount", .number payout.fromProceeds.toNat)]⟩
  | configured _ => none

end Change

/-- The changes of a call in order, and how it ends after them. -/
structure Effect where
  changes : List Change
  result : Except Fault Outcome

/-- What the house asks of a collaborator. -/
inductive Inquiry
  /-- Hand an item to a winner; the answer is the item's number. -/
  | settle (winner : Address) (seed : Word)
  /-- Ask for randomness; the answer is the request's number. -/
  | randomness (seed : Word)
  deriving DecidableEq, Repr

/-- What a permitted call leads to: an effect at once, or one that depends on an answer. -/
inductive Plan
  | act (effect : Effect)
  | ask (inquiry : Inquiry) (next : UInt64 → Effect)

/-- A plan that ends well with one change. -/
def Plan.change (change : Change) (outcome : Outcome) : Plan := .act ⟨[change], .ok outcome⟩

end CandleAuction
