import CandleAuction.Call
import CandleAuction.Submission
import CandleAuction.Wire.Basic

/-!
# Wire forms of the records

Every record that goes over the wire, its fields in order, and the calls.
-/

namespace CandleAuction

open Wire (encode decode decodeTag malformed)

instance : Wire IndexWidth where
  encode
    | .two => [0]
    | .three => [1]
  decode := decodeTag [.two, .three]

instance : Wire Phase where
  encode
    | .created => [0]
    | .running => [1]
    | .waitingClose => [2]
    | .winnersProposed => [3]
    | .finalized => [4]
    | .endedWithoutBids => [5]
  decode := decodeTag
    [.created, .running, .waitingClose, .winnersProposed, .finalized, .endedWithoutBids]

instance : Wire FraudReason where
  encode reason := [reason.code - 1]
  decode := decodeTag
    [.duplicateIndex, .incorrectWinnerCount, .indexOutOfRange, .incorrectOrdering,
      .lateBidIncluded, .excludedHigherBid, .incorrectTotal]

instance : Wire Settings where
  encode s :=
    encode s.duration ++ encode s.snuffPercent ++ encode s.maxWinners ++ encode s.indexWidth ++
    encode s.deposit ++ encode s.bidPrecision ++ encode s.bountyMultiplier ++
    encode s.fraudPeriod ++ encode s.snuffGas ++ encode s.proposalGas
  decode := do
    return ⟨← decode, ← decode, ← decode, ← decode, ← decode, ← decode, ← decode, ← decode,
      ← decode, ← decode⟩

instance : Wire Bid where
  encode b := encode b.bidder ++ encode b.timestamp ++ encode b.amount ++ encode b.processed
  decode := do return ⟨← decode, ← decode, ← decode, ← decode⟩

instance : Wire FeeObservation where
  encode f := encode f.gasPrice ++ encode f.observedAt
  decode := do return ⟨← decode, ← decode⟩

instance : Wire Snuff where
  encode s := encode s.sender ++ encode s.timestamp
  decode := do return ⟨← decode, ← decode⟩

instance : Wire Proposal where
  encode p :=
    encode p.commitment ++ encode p.proposer ++ encode p.deposit ++ encode p.snuffBounty ++
    encode p.proposalBounty ++ encode p.timestamp ++ encode p.winnerCount ++ encode p.total ++
    encode p.snuffBountyClaimed ++ encode p.proposalBountyClaimed
  decode := do
    return ⟨← decode, ← decode, ← decode, ← decode, ← decode, ← decode, ← decode, ← decode,
      ← decode, ← decode⟩

instance : Wire Auction where
  encode r :=
    encode r.id ++ encode r.startTime ++ encode r.settings ++ encode r.minBid ++ encode r.fee ++
    encode r.phase ++ encode r.entropy ++ encode r.closeOffset ++ encode r.request ++
    encode r.proposal ++ encode r.snuff ++ encode r.proceeds ++ encode r.fundsMoved ++
    encode r.claimedWinners
  decode := do
    return ⟨← decode, ← decode, ← decode, ← decode, ← decode, ← decode, ← decode, ← decode,
      ← decode, ← decode, ← decode, ← decode, ← decode, ← decode⟩

instance : Wire Snapshot where
  encode s :=
    encode s.auction ++ encode s.bids ++ encode s.close ++ encode s.entropy ++
    encode s.maxWinners ++ encode s.indexWidth
  decode := do return ⟨← decode, ← decode, ← decode, ← decode, ← decode, ← decode⟩

instance : Wire Submission where
  encode s :=
    encode s.auction ++ encode s.winners ++ encode s.encoding ++ encode s.commitment ++
    encode s.total
  decode := do return ⟨← decode, ← decode, ← decode, ← decode, ← decode⟩

instance : Wire Call where
  encode
    | .placeBid id amount => 0 :: encode id ++ encode amount
    | .increaseBid id index added => 1 :: encode id ++ encode index ++ encode added
    | .snuff id => 2 :: encode id
    | .fulfillRandomness request word => 3 :: encode request ++ encode word
    | .proposeWinners id encoding commitment total =>
        4 :: encode id ++ encode encoding ++ encode commitment ++ encode total
    | .challenge id encoding claimed disputed =>
        5 :: encode id ++ encode encoding ++ encode claimed ++ encode disputed
    | .claimWinningBid id encoding position =>
        6 :: encode id ++ encode encoding ++ encode position
    | .withdrawBid id encoding index => 7 :: encode id ++ encode encoding ++ encode index
    | .claimSnuffBounty id => 8 :: encode id
    | .claimProposalBounty id => 9 :: encode id
    | .transferProceeds id => 10 :: encode id
    | .updateSettings settings => 11 :: encode settings
  decode := do
    match ← Wire.byte with
    | 0 => return .placeBid (← decode) (← decode)
    | 1 => return .increaseBid (← decode) (← decode) (← decode)
    | 2 => return .snuff (← decode)
    | 3 => return .fulfillRandomness (← decode) (← decode)
    | 4 => return .proposeWinners (← decode) (← decode) (← decode) (← decode)
    | 5 => return .challenge (← decode) (← decode) (← decode) (← decode)
    | 6 => return .claimWinningBid (← decode) (← decode) (← decode)
    | 7 => return .withdrawBid (← decode) (← decode) (← decode)
    | 8 => return .claimSnuffBounty (← decode)
    | 9 => return .claimProposalBounty (← decode)
    | 10 => return .transferProceeds (← decode)
    | 11 => return .updateSettings (← decode)
    | tag => malformed (.unknownTag tag)

end CandleAuction
