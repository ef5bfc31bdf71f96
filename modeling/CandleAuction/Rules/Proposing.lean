import CandleAuction.Bounty
import CandleAuction.Commitment
import CandleAuction.Rules.Bidding

/-!
# Proposing and challenging

A proposal is taken on trust: it has to carry the deposit and open its own
commitment, nothing more. While it may be challenged, anyone else can overturn
it by resubmitting the list with one bid that shows it to be wrong. The
deposit then goes to the challenger and the round awaits another proposal.
-/

namespace CandleAuction

open Ruling

namespace House

def proposeWinners (h : House) (ctx : Context) (id : UInt64) (encoding : List UInt8)
    (commitment : Word) (total : UInt64) : Ruling Plan := do
  let r ← h.requireAuction id
  r.requirePhase ctx.now .waitingClose
  let entropy ← demand r.entropy .entropyPending
  ensure (r.settings.deposit ≤ ctx.value) (.insufficientDeposit r.settings.deposit ctx.value)
  let winners ← decoded (r.settings.indexWidth.unpack encoding)
  ensure (opens encoding entropy commitment) .commitmentMismatch
  let bounties := Bounties.ofTotal r.settings r.minBid r.fee.gasPrice total
  let proposal : Proposal :=
    { commitment := commitment
      proposer := ctx.sender
      deposit := ctx.value
      snuffBounty := bounties.snuff
      proposalBounty := bounties.proposal
      timestamp := ctx.now
      winnerCount := UInt32.ofNat winners.length
      total := total
      snuffBountyClaimed := false
      proposalBountyClaimed := false }
  return .change (.proposed id proposal) .proposed

end House

/-- The live proposal is still open to challenges. -/
def Auction.requireChallengeable (r : Auction) (now : UInt64) : Ruling Unit := do
  match ← r.phaseAt now with
  | .winnersProposed => .ok ()
  | .finalized => reject .challengePeriodOver
  | got => reject (.invalidState .winnersProposed got)

/-- What a challenge is judged by: the live proposal, the entropy and the close instant. -/
def Auction.disputable? (r : Auction) : Option (Proposal × Word × UInt32) := do
  return (← r.proposal, ← r.entropy, ← r.closeOffset)

namespace House

def challenge (h : House) (ctx : Context) (id : UInt64) (encoding : List UInt8)
    (claimed : Word) (disputed : UInt32) : Ruling Plan := do
  let r ← h.requireAuction id
  r.requireChallengeable ctx.now
  let (proposal, entropy, close) ← demand r.disputable? .entropyPending
  let hash := commitment encoding entropy
  ensure (hash = claimed ∧ hash = proposal.commitment) .commitmentMismatch
  ensure (ctx.sender ≠ proposal.proposer) .selfChallenge
  let winners ← decoded (r.settings.indexWidth.unpack encoding)
  let claim : Claim := ⟨winners, proposal.total⟩
  let reason ← demand (claim.fraud? (h.ledger id) close r.settings.maxWinners disputed)
    .challengeFailed
  let balance ← demand (checkedAdd (h.balance ctx.sender) proposal.deposit) .amountOverflow
  return .change (.overturned id proposal ⟨disputed, reason⟩ ctx.sender balance)
    (.proposalOverturned reason)

end House

end CandleAuction
