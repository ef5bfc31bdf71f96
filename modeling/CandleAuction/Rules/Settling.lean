import CandleAuction.Commitment
import CandleAuction.Rules.Bidding
import CandleAuction.Seed

/-!
# Settling

Once the challenge window of a proposal has passed, winners get their items,
losers their money back, the snuffer and the proposer their bounties, and the
beneficiary the rest. Everything but the proposer's deposit comes out of the
proceeds of the round, and a payout is made in full or not at all.
-/

namespace CandleAuction

open Ruling

namespace House

/-- A round in its final phase with the proposal that made it so. -/
def finalized (h : House) (now id : UInt64) : Ruling (Auction × Proposal) := do
  let r ← h.requireAuction id
  r.requirePhase now .finalized
  let proposal ← demand r.proposal (.invalidState .finalized r.phase)
  return (r, proposal)

/-- The final winner list, given the encoding that opens its commitment. -/
def finalWinners (h : House) (now id : UInt64) (encoding : List UInt8) :
    Ruling (List UInt32) := do
  let (r, proposal) ← h.finalized now id
  let entropy ← demand r.entropy .entropyPending
  ensure (opens encoding entropy proposal.commitment) .commitmentMismatch
  decoded (r.settings.indexWidth.unpack encoding)

/-- A payout that the round and the recipient's balance have room for. -/
def payout (h : House) (id : UInt64) (recipient : Address) (fromProceeds fromDeposit : UInt64) :
    Ruling Payout := do
  let r ← h.requireAuction id
  ensure (fromProceeds ≤ r.proceeds) (.insolvent fromProceeds r.proceeds)
  let credit ← demand (checkedAdd fromProceeds fromDeposit) .amountOverflow
  let balance ← demand (checkedAdd (h.balance recipient) credit) .amountOverflow
  return ⟨recipient, fromProceeds, fromDeposit, r.proceeds - fromProceeds, balance⟩

def claimWinningBid (h : House) (ctx : Context) (id : UInt64) (encoding : List UInt8)
    (position : UInt32) : Ruling Plan := do
  let winners ← h.finalWinners ctx.now id encoding
  let index ← demand winners[position.toNat]?
    (.positionOutOfRange position (UInt32.ofNat winners.length))
  let bid ← demand (h.bid? id index) (.bidNotFound index)
  ensure (bid.processed = false) (.alreadyProcessed index)
  let r ← h.requireAuction id
  let entropy ← demand r.entropy .entropyPending
  return .ask (.settle bid.bidder (Seed.item entropy index)) fun item =>
    match exactSucc r.claimedWinners with
    | .ok count => ⟨[.claimed id index item bid.bidder count], .ok (.itemSettled item)⟩
    | .error fault => ⟨[], .error fault⟩

def withdrawBid (h : House) (ctx : Context) (id : UInt64) (encoding : List UInt8)
    (index : UInt32) : Ruling Plan := do
  let winners ← h.finalWinners ctx.now id encoding
  let bid ← demand (h.bid? id index) (.bidNotFound index)
  ensure (bid.bidder = ctx.sender) (.notBidOwner index)
  ensure (index ∉ winners) (.winnerCannotWithdraw index)
  ensure (bid.processed = false) (.alreadyProcessed index)
  let payout ← h.payout id ctx.sender bid.amount 0
  return .change (.withdrawn id index payout) (.paid bid.amount)

def claimSnuffBounty (h : House) (ctx : Context) (id : UInt64) : Ruling Plan := do
  let (r, proposal) ← h.finalized ctx.now id
  ensure (proposal.snuffBountyClaimed = false) .bountyAlreadyClaimed
  let snuff ← demand r.snuff (.invalidState .finalized r.phase)
  let payout ← h.payout id snuff.sender proposal.snuffBounty 0
  return .change (.snuffBountyPaid id payout) (.paid proposal.snuffBounty)

/-- The proposer gets the bounty and the deposit back. -/
def claimProposalBounty (h : House) (ctx : Context) (id : UInt64) : Ruling Plan := do
  let (_, proposal) ← h.finalized ctx.now id
  ensure (proposal.proposalBountyClaimed = false) .bountyAlreadyClaimed
  let payout ← h.payout id proposal.proposer proposal.proposalBounty proposal.deposit
  let paid ← exactAdd proposal.proposalBounty proposal.deposit
  return .change (.proposalBountyPaid id payout) (.paid paid)

/-- The beneficiary gets the declared total less both bounties. -/
def transferProceeds (h : House) (ctx : Context) (id : UInt64) : Ruling Plan := do
  let (r, proposal) ← h.finalized ctx.now id
  ensure (r.fundsMoved = false) .fundsAlreadyMoved
  let bounties ← exactAdd proposal.snuffBounty proposal.proposalBounty
  let amount := saturatingSub proposal.total bounties
  let payout ← h.payout id h.beneficiary amount 0
  return .change (.proceedsMoved id payout) (.paid amount)

end House

end CandleAuction
