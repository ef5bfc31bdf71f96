import CandleAuction.Fraud
import CandleAuction.Genesis
import CandleAuction.Json.Form
import CandleAuction.Json.Reader
import CandleAuction.Json.Writer
import CandleAuction.Query
import CandleAuction.Submission
import CandleAuction.Watchtower

/-!
# JSON forms of the records

Field names and order of every record that is exchanged as JSON.
-/

namespace CandleAuction

open Json

def IndexWidth.name : IndexWidth → String
  | two => "Two"
  | three => "Three"

instance : Form IndexWidth := ⟨fun w => string w.name, readName IndexWidth.name [.two, .three]⟩

instance : Form Phase :=
  ⟨fun p => string p.name, readName Phase.name
    [.created, .running, .waitingClose, .winnersProposed, .finalized, .endedWithoutBids]⟩

instance : Form FraudReason :=
  ⟨fun r => string r.name, readName FraudReason.name
    [.duplicateIndex, .incorrectWinnerCount, .indexOutOfRange, .incorrectOrdering,
      .lateBidIncluded, .excludedHigherBid, .incorrectTotal]⟩

def Settings.fieldNames : List String :=
  ["duration_secs", "snuff_percent", "max_winners", "index_width", "deposit", "bid_precision",
    "max_bounty_multiplier", "fraud_period_secs", "snuff_gas", "proposal_gas"]

instance : Form Settings where
  write s := record [
    ("duration_secs", write s.duration), ("snuff_percent", write s.snuffPercent),
    ("max_winners", write s.maxWinners), ("index_width", write s.indexWidth),
    ("deposit", write s.deposit), ("bid_precision", write s.bidPrecision),
    ("max_bounty_multiplier", write s.bountyMultiplier),
    ("fraud_period_secs", write s.fraudPeriod), ("snuff_gas", write s.snuffGas),
    ("proposal_gas", write s.proposalGas)]
  read j := do
    let [duration, percent, winners, width, deposit, precision, multiplier, period, snuffGas,
      proposalGas] ← j.slots Settings.fieldNames | none
    return {
      duration := ← duration.required
      snuffPercent := ← percent.required
      maxWinners := ← winners.required
      indexWidth := ← width.required
      deposit := ← deposit.required
      bidPrecision := ← precision.required
      bountyMultiplier := ← multiplier.required
      fraudPeriod := ← period.required
      snuffGas := ← snuffGas.required
      proposalGas := ← proposalGas.required }

instance : Form Bid where
  write b := record [
    ("bidder", write b.bidder), ("timestamp", write b.timestamp), ("amount", write b.amount),
    ("processed", write b.processed)]
  read j := do
    let [bidder, timestamp, amount, processed] ←
      j.slots ["bidder", "timestamp", "amount", "processed"] | none
    return ⟨← bidder.required, ← timestamp.required, ← amount.required, ← processed.required⟩

instance : Form FeeObservation where
  write f := record [("gas_price", write f.gasPrice), ("observed_at", write f.observedAt)]
  read j := do
    let [gasPrice, observedAt] ← j.slots ["gas_price", "observed_at"] | none
    return ⟨← gasPrice.required, ← observedAt.required⟩

instance : Form Snuff where
  write s := record [("sender", write s.sender), ("timestamp", write s.timestamp)]
  read j := do
    let [sender, timestamp] ← j.slots ["sender", "timestamp"] | none
    return ⟨← sender.required, ← timestamp.required⟩

def Proposal.fieldNames : List String :=
  ["commitment", "proposer", "deposit", "snuff_bounty", "proposal_bounty", "timestamp",
    "winner_count", "total_bid_amount", "snuff_bounty_claimed", "proposal_bounty_claimed"]

instance : Form Proposal where
  write p := record [
    ("commitment", write p.commitment), ("proposer", write p.proposer),
    ("deposit", write p.deposit), ("snuff_bounty", write p.snuffBounty),
    ("proposal_bounty", write p.proposalBounty), ("timestamp", write p.timestamp),
    ("winner_count", write p.winnerCount), ("total_bid_amount", write p.total),
    ("snuff_bounty_claimed", write p.snuffBountyClaimed),
    ("proposal_bounty_claimed", write p.proposalBountyClaimed)]
  read j := do
    let [commitment, proposer, deposit, snuffBounty, proposalBounty, timestamp, winnerCount, total,
      snuffClaimed, proposalClaimed] ← j.slots Proposal.fieldNames | none
    return {
      commitment := ← commitment.required
      proposer := ← proposer.required
      deposit := ← deposit.required
      snuffBounty := ← snuffBounty.required
      proposalBounty := ← proposalBounty.required
      timestamp := ← timestamp.required
      winnerCount := ← winnerCount.required
      total := ← total.required
      snuffBountyClaimed := ← snuffClaimed.required
      proposalBountyClaimed := ← proposalClaimed.required }

def Auction.fieldNames : List String :=
  ["id", "start_time", "settings", "min_bid", "fee_observation", "phase", "entropy",
    "close_offset", "randomness_request", "proposal", "snuff", "proceeds", "funds_moved",
    "claimed_winners"]

instance : Form Auction where
  write r := record [
    ("id", write r.id), ("start_time", write r.startTime), ("settings", write r.settings),
    ("min_bid", write r.minBid), ("fee_observation", write r.fee), ("phase", write r.phase),
    ("entropy", write r.entropy), ("close_offset", write r.closeOffset),
    ("randomness_request", write r.request), ("proposal", write r.proposal),
    ("snuff", write r.snuff), ("proceeds", write r.proceeds),
    ("funds_moved", write r.fundsMoved), ("claimed_winners", write r.claimedWinners)]
  read j := do
    let [id, startTime, settings, minBid, fee, phase, entropy, closeOffset, request, proposal,
      snuff, proceeds, fundsMoved, claimedWinners] ← j.slots Auction.fieldNames | none
    return {
      id := ← id.required
      startTime := ← startTime.required
      settings := ← settings.required
      minBid := ← minBid.required
      fee := ← fee.required
      phase := ← phase.required
      entropy := ← entropy.optional
      closeOffset := ← closeOffset.optional
      request := ← request.optional
      proposal := ← proposal.optional
      snuff := ← snuff.optional
      proceeds := ← proceeds.required
      fundsMoved := ← fundsMoved.required
      claimedWinners := ← claimedWinners.required }

instance : Form CloseBounds where
  write b := record [
    ("earliest", write b.earliest), ("latest", write b.latest), ("resolved", write b.resolved)]
  read j := do
    let [earliest, latest, resolved] ← j.slots ["earliest", "latest", "resolved"] | none
    return ⟨← earliest.required, ← latest.required, ← resolved.optional⟩

instance : Form Bounties where
  write b := record [("snuff", write b.snuff), ("proposal", write b.proposal)]
  read j := do
    let [snuff, proposal] ← j.slots ["snuff", "proposal"] | none
    return ⟨← snuff.required, ← proposal.required⟩

def Snapshot.fieldNames : List String :=
  ["auction_id", "bids", "close_offset", "entropy", "max_winners", "index_width"]

instance : Form Snapshot where
  write s := record [
    ("auction_id", write s.auction), ("bids", write s.bids), ("close_offset", write s.close),
    ("entropy", write s.entropy), ("max_winners", write s.maxWinners),
    ("index_width", write s.indexWidth)]
  read j := do
    let [auction, bids, close, entropy, winners, width] ← j.slots Snapshot.fieldNames | none
    return ⟨← auction.required, ← bids.required, ← close.required, ← entropy.required,
      ← winners.required, ← width.required⟩

def Submission.fieldNames : List String :=
  ["auction_id", "winners", "encoding", "commitment", "total_bid_amount"]

instance : Form Submission where
  write s := record [
    ("auction_id", write s.auction), ("winners", write s.winners),
    ("encoding", writeHex s.encoding), ("commitment", write s.commitment),
    ("total_bid_amount", write s.total)]
  read j := do
    let [auction, winners, .given encoding, commitment, total] ← j.slots Submission.fieldNames
      | none
    return ⟨← auction.required, ← winners.required, ← encoding.readHex, ← commitment.required,
      ← total.required⟩

def Summary.fieldNames : List String :=
  ["auction_id", "phase", "start_time", "bidding_deadline", "min_bid", "num_bids", "proceeds"]

instance : Form Summary where
  write s := record [
    ("auction_id", write s.auction), ("phase", write s.phase), ("start_time", write s.startTime),
    ("bidding_deadline", write s.deadline), ("min_bid", write s.minBid),
    ("num_bids", write s.bidCount), ("proceeds", write s.proceeds)]
  read j := do
    let [auction, phase, startTime, deadline, minBid, bidCount, proceeds] ←
      j.slots Summary.fieldNames | none
    return ⟨← auction.required, ← phase.required, ← startTime.required, ← deadline.required,
      ← minBid.required, ← bidCount.required, ← proceeds.required⟩

def Genesis.fieldNames : List String :=
  ["admin", "beneficiary", "oracle", "start_time", "initial_gas_price", "settings"]

instance : Form Genesis where
  write g := record [
    ("admin", write g.admin), ("beneficiary", write g.beneficiary), ("oracle", write g.oracle),
    ("start_time", write g.startTime), ("initial_gas_price", write g.gasPrice),
    ("settings", write g.settings)]
  read j := do
    let [admin, beneficiary, oracle, startTime, gasPrice, settings] ← j.slots Genesis.fieldNames
      | none
    return ⟨← admin.required, ← beneficiary.required, ← oracle.required, ← startTime.required,
      ← gasPrice.required, ← settings.withDefault .standard⟩

def WatchConfig.fieldNames : List String :=
  ["address", "poll_interval_ms", "propose", "challenge"]

/-- The address of a watchtower is written as hex text, unlike all others. -/
instance : Form WatchConfig where
  write c := record [
    ("address", writeHex c.address.toList), ("poll_interval_ms", write c.pollInterval),
    ("propose", write c.propose), ("challenge", write c.challenge)]
  read j := do
    let [address, pollInterval, propose, challenge] ← j.slots WatchConfig.fieldNames | none
    let address ← address.withDefault (⟨WatchConfig.standard.address.bytes⟩ : Word)
    return ⟨⟨address.bytes⟩, ← pollInterval.withDefault WatchConfig.standard.pollInterval,
      ← propose.withDefault WatchConfig.standard.propose,
      ← challenge.withDefault WatchConfig.standard.challenge⟩

/-- An alternative with its only field by name. -/
def Json.readField {α : Type} [Form α] (name : String) (j : Json) : Option α := do
  let [slot] ← j.slots [name] | none
  slot.required

instance : Form Query where
  write
    | .auction id => tagged "GetAuction" (record [("auction_id", write id)])
    | .auctions offset limit =>
        tagged "ListAuctions" (record [("offset", write offset), ("limit", write limit)])
    | .bids id page limit => tagged "GetBids" (record [
        ("auction_id", write id), ("page", write page), ("limit", write limit)])
    | .bid id index =>
        tagged "GetBid" (record [("auction_id", write id), ("index", write index)])
    | .currentAuction => string "GetCurrentAuction"
    | .minBid id => tagged "GetMinBid" (record [("auction_id", write id)])
    | .requiredDeposit id => tagged "GetRequiredDeposit" (record [("auction_id", write id)])
    | .closeBounds id => tagged "GetCloseBounds" (record [("auction_id", write id)])
    | .bounties id => tagged "GetBounties" (record [("auction_id", write id)])
    | .balance address => tagged "GetBalance" (record [("address", write address)])
    | .settings => string "GetSettings"
  read j := do
    match ← j.variant? with
    | ("GetCurrentAuction", none) | ("GetCurrentAuction", some .null) => some .currentAuction
    | ("GetSettings", none) | ("GetSettings", some .null) => some .settings
    | ("GetAuction", some v) => .auction <$> v.readField "auction_id"
    | ("ListAuctions", some v) => do
        let [offset, limit] ← v.slots ["offset", "limit"] | none
        return .auctions (← offset.required) (← limit.required)
    | ("GetBids", some v) => do
        let [id, page, limit] ← v.slots ["auction_id", "page", "limit"] | none
        return .bids (← id.required) (← page.required) (← limit.required)
    | ("GetBid", some v) => do
        let [id, index] ← v.slots ["auction_id", "index"] | none
        return .bid (← id.required) (← index.required)
    | ("GetMinBid", some v) => .minBid <$> v.readField "auction_id"
    | ("GetRequiredDeposit", some v) => .requiredDeposit <$> v.readField "auction_id"
    | ("GetCloseBounds", some v) => .closeBounds <$> v.readField "auction_id"
    | ("GetBounties", some v) => .bounties <$> v.readField "auction_id"
    | ("GetBalance", some v) => .balance <$> v.readField "address"
    | _ => none

instance : Form Answer where
  write
    | .auction record => tagged "Auction" (write record)
    | .auctions summaries => tagged "AuctionList" (write summaries)
    | .bids bids => tagged "Bids" (write bids)
    | .bid bid => tagged "Bid" (write bid)
    | .minBid amount => tagged "MinBid" (write amount)
    | .requiredDeposit amount => tagged "RequiredDeposit" (write amount)
    | .closeBounds bounds => tagged "CloseBounds" (write bounds)
    | .bounties bounties => tagged "Bounties" (write bounties)
    | .balance amount => tagged "Balance" (write amount)
    | .settings settings => tagged "Settings" (write settings)
  read j := do
    match ← j.variant? with
    | ("Auction", some v) => .auction <$> read v
    | ("AuctionList", some v) => .auctions <$> read v
    | ("Bids", some v) => .bids <$> read v
    | ("Bid", some v) => .bid <$> read v
    | ("MinBid", some v) => .minBid <$> read v
    | ("RequiredDeposit", some v) => .requiredDeposit <$> read v
    | ("CloseBounds", some v) => .closeBounds <$> read v
    | ("Bounties", some v) => .bounties <$> read v
    | ("Balance", some v) => .balance <$> read v
    | ("Settings", some v) => .settings <$> read v
    | _ => none

/-- A value read from JSON text. -/
def Json.readText? (α : Type) [Form α] (text : String) : Option α := do
  read (← parse? text)

/-- A configuration read from JSON text, if it is valid. -/
def Genesis.ofText (text : String) : Except GenesisError Genesis :=
  match readText? Genesis text with
  | none => .error .unreadable
  | some g =>
      match g.problem? with
      | some problem => .error problem
      | none => .ok g

end CandleAuction
