import CandleAuction.Settings

/-!
# Auctions

One round: its settings snapshot, its stored phase, the close instant once the
entropy is known, the live proposal and the accounts. The phase that callers
see also depends on the clock: a round is created before its start time, and a
proposal that outlives its challenge window makes the round final.
-/

namespace CandleAuction

inductive Phase
  | created
  | running
  /-- Bidding has been closed; entropy or a proposal is awaited. -/
  | waitingClose
  /-- A proposal is live and may be challenged. -/
  | winnersProposed
  | finalized
  | endedWithoutBids
  deriving DecidableEq, Repr

def Phase.name : Phase → String
  | .created => "Created"
  | .running => "Running"
  | .waitingClose => "WaitingClose"
  | .winnersProposed => "WinnersProposed"
  | .finalized => "Finalized"
  | .endedWithoutBids => "EndedWithoutBids"

/-- A ledger entry. Its position in the ledger identifies it. -/
structure Bid where
  bidder : Address
  /-- Seconds from the start of the round. -/
  timestamp : UInt32
  amount : UInt64
  /-- Claimed by a winner or withdrawn by a loser. -/
  processed : Bool
  deriving DecidableEq, Repr

/-- A bid is eligible if it was placed before the close instant. -/
def Bid.eligible (bid : Bid) (close : UInt32) : Bool := decide (bid.timestamp < close)

abbrev Ledger := Array Bid

/-- Gas price seen when the previous round was closed. -/
structure FeeObservation where
  gasPrice : UInt64
  observedAt : UInt64
  deriving DecidableEq, Repr

/-- Who closed the bidding, and when. -/
structure Snuff where
  sender : Address
  timestamp : UInt64
  deriving DecidableEq, Repr

/-- A bonded claim that names the winners by a commitment. -/
structure Proposal where
  commitment : Word
  proposer : Address
  deposit : UInt64
  snuffBounty : UInt64
  proposalBounty : UInt64
  timestamp : UInt64
  winnerCount : UInt32
  total : UInt64
  snuffBountyClaimed : Bool
  proposalBountyClaimed : Bool
  deriving DecidableEq, Repr

structure Auction where
  id : UInt64
  startTime : UInt64
  settings : Settings
  minBid : UInt64
  fee : FeeObservation
  phase : Phase
  entropy : Option Word
  closeOffset : Option UInt32
  request : Option UInt64
  proposal : Option Proposal
  snuff : Option Snuff
  /-- Bid value still pooled in this round. -/
  proceeds : UInt64
  fundsMoved : Bool
  claimedWinners : UInt32
  deriving DecidableEq, Repr

/-- The window of the close instant, and the instant itself once it is drawn. -/
structure CloseBounds where
  earliest : UInt64
  latest : UInt64
  resolved : Option UInt64
  deriving DecidableEq, Repr

namespace Auction

/-- A round about to take bids. -/
def opening (id startTime : UInt64) (settings : Settings) (minBid : UInt64)
    (fee : FeeObservation) : Auction where
  id := id
  startTime := startTime
  settings := settings
  minBid := minBid
  fee := fee
  phase := .running
  entropy := none
  closeOffset := none
  request := none
  proposal := none
  snuff := none
  proceeds := 0
  fundsMoved := false
  claimedWinners := 0

/-- The time from which no bid is taken. -/
def deadline (r : Auction) : Except Fault UInt64 :=
  exactAdd r.startTime r.settings.duration

def closeTime (r : Auction) : Except Fault (Option UInt64) :=
  match r.closeOffset with
  | none => .ok none
  | some offset => some <$> exactAdd r.startTime offset.toUInt64

def closeWindow (r : Auction) : Except Fault (UInt64 × UInt64) := do
  let earliest ← exactAdd r.startTime (← r.settings.windowStart)
  return (earliest, ← r.deadline)

def closeBounds (r : Auction) : Except Fault CloseBounds := do
  let (earliest, latest) ← r.closeWindow
  return ⟨earliest, latest, ← r.closeTime⟩

/-- The last instant at which the live proposal may be challenged. -/
def challengeDeadline (r : Auction) : Except Fault (Option UInt64) :=
  match r.proposal with
  | none => .ok none
  | some p => some <$> exactAdd p.timestamp r.settings.fraudPeriod

/-- The phase at a given time. -/
def phaseAt (r : Auction) (now : UInt64) : Except Fault Phase :=
  match r.phase with
  | .running => .ok (if now < r.startTime then .created else .running)
  | .winnersProposed => do
      match ← r.challengeDeadline with
      | some deadline => return if deadline < now then .finalized else .winnersProposed
      | none => return .winnersProposed
  | phase => .ok phase

/-- Whether the close is known and a proposal is missing. -/
def awaitingProposal (r : Auction) : Bool :=
  r.phase = .waitingClose && r.entropy.isSome

end Auction

end CandleAuction
