import CandleAuction.Fraud
import CandleAuction.Settings

/-!
# Calls

What can be asked of the house, who asks, and what comes of it.
-/

namespace CandleAuction

inductive Call
  /-- The attached value must equal the amount. -/
  | placeBid (auction amount : UInt64)
  /-- Add to a bid of one's own; the attached value must equal the addition. -/
  | increaseBid (auction : UInt64) (index : UInt32) (added : UInt64)
  /-- Close the bidding after the nominal duration. -/
  | snuff (auction : UInt64)
  /-- Deliver the entropy of a round. -/
  | fulfillRandomness (request : UInt64) (word : Word)
  | proposeWinners (auction : UInt64) (encoding : List UInt8) (commitment : Word) (total : UInt64)
  /-- Dispute the live proposal with one bid. -/
  | challenge (auction : UInt64) (encoding : List UInt8) (claimed : Word) (disputed : UInt32)
  /-- Settle the item of the winner at a position of the final list. -/
  | claimWinningBid (auction : UInt64) (encoding : List UInt8) (position : UInt32)
  | withdrawBid (auction : UInt64) (encoding : List UInt8) (index : UInt32)
  | claimSnuffBounty (auction : UInt64)
  | claimProposalBounty (auction : UInt64)
  | transferProceeds (auction : UInt64)
  /-- Replace the settings of the rounds to come. -/
  | updateSettings (settings : Settings)
  deriving DecidableEq, Repr

/-- Who calls, when, and with what. -/
structure Context where
  sender : Address
  now : UInt64
  value : UInt64
  gasPrice : UInt64
  /-- Whether events are recorded. -/
  logging : Bool
  deriving DecidableEq, Repr

inductive Outcome
  | bidPlaced (index : UInt32)
  | bidIncreased (amount : UInt64)
  | snuffed (nextAuction : UInt64)
  | closeResolved (offset : UInt32)
  | proposed
  | proposalOverturned (reason : FraudReason)
  | itemSettled (item : UInt64)
  | paid (amount : UInt64)
  | settingsUpdated
  deriving DecidableEq, Repr

end CandleAuction
