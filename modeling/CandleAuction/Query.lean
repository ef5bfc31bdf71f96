import CandleAuction.Bounty
import CandleAuction.House

/-!
# Queries

Read-only views of the house: single values, summaries by ascending number,
pages of a ledger, and the lists a watchtower works from.
-/

namespace CandleAuction

/-- A round as it appears in listings. -/
structure Summary where
  auction : UInt64
  phase : Phase
  startTime : UInt64
  deadline : UInt64
  minBid : UInt64
  bidCount : UInt64
  proceeds : UInt64
  deriving DecidableEq, Repr

def Auction.summary (r : Auction) (bidCount : UInt64) : Except Fault Summary := do
  return ⟨r.id, r.phase, r.startTime, ← r.deadline, r.minBid, bidCount, r.proceeds⟩

inductive Query
  | auction (id : UInt64)
  | auctions (offset limit : UInt64)
  /-- A limit of zero asks for the whole ledger. -/
  | bids (id page limit : UInt64)
  | bid (id : UInt64) (index : UInt32)
  | currentAuction
  | minBid (id : UInt64)
  | requiredDeposit (id : UInt64)
  | closeBounds (id : UInt64)
  | bounties (id : UInt64)
  | balance (address : Address)
  | settings
  deriving DecidableEq, Repr

inductive Answer
  | auction (record : Option Auction)
  | auctions (summaries : List Summary)
  | bids (bids : List Bid)
  | bid (bid : Option Bid)
  | minBid (amount : Option UInt64)
  | requiredDeposit (amount : Option UInt64)
  | closeBounds (bounds : Option CloseBounds)
  | bounties (bounties : Option Bounties)
  | balance (amount : UInt64)
  | settings (settings : Settings)
  deriving DecidableEq, Repr

/-- One page of a ledger. The start of the page saturates at the largest position. -/
def Ledger.page (bids : Ledger) (page limit : UInt64) : Ledger :=
  if limit = 0 then bids
  else
    let start := (saturatingMul page limit).toNat
    bids.extract start (start + limit.toNat)

namespace House

def minBid? (h : House) (id : UInt64) : Option UInt64 := (h.auction? id).map Auction.minBid

def requiredDeposit? (h : House) (id : UInt64) : Option UInt64 :=
  (h.auction? id).map fun r => r.settings.deposit

def maxWinners? (h : House) (id : UInt64) : Option UInt32 :=
  (h.auction? id).map fun r => r.settings.maxWinners

def closeBounds? (h : House) (id : UInt64) : Except Fault (Option CloseBounds) :=
  match h.auction? id with
  | none => .ok none
  | some r => some <$> r.closeBounds

/-- The bounties of the live proposal, or what the pooled proceeds would give. -/
def bounties? (h : House) (id : UInt64) : Option Bounties :=
  (h.auction? id).map fun r =>
    match r.proposal with
    | some p => ⟨p.snuffBounty, p.proposalBounty⟩
    | none => .ofTotal r.settings r.minBid r.fee.gasPrice r.proceeds

/-- All rounds by ascending number. -/
def rounds (h : House) : List Auction :=
  (h.auctions.toList.map Prod.snd).mergeSort fun a b => a.id ≤ b.id

def summaries (h : House) (offset limit : UInt64) : Except Fault (List Summary) :=
  ((h.rounds.drop offset.toNat).take limit.toNat).mapM fun r =>
    r.summary (UInt64.ofNat (h.ledger r.id).size)

/-- Rounds that wait for a proposal. -/
def awaitingProposal (h : House) : List UInt64 :=
  (h.rounds.filter Auction.awaitingProposal).map Auction.id

/-- Rounds whose live proposal may be challenged. -/
def challengeable (h : House) (now : UInt64) : Except Fault (List UInt64) := do
  let live ← h.rounds.filterM fun r => do return (← r.phaseAt now) = .winnersProposed
  return live.map Auction.id

def answer (h : House) : Query → Except Fault Answer
  | .auction id => .ok (.auction (h.auction? id))
  | .auctions offset limit => .auctions <$> h.summaries offset limit
  | .bids id page limit => .ok (.bids ((h.ledger id).page page limit).toList)
  | .bid id index => .ok (.bid (h.bid? id index))
  | .currentAuction => .ok (.auction (h.auction? h.currentId))
  | .minBid id => .ok (.minBid (h.minBid? id))
  | .requiredDeposit id => .ok (.requiredDeposit (h.requiredDeposit? id))
  | .closeBounds id => .closeBounds <$> h.closeBounds? id
  | .bounties id => .ok (.bounties (h.bounties? id))
  | .balance address => .ok (.balance (h.balance address))
  | .settings => .ok (.settings h.settings)

end House

end CandleAuction
