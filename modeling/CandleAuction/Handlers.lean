import CandleAuction.Session

/-!
# Handlers

Each call step by step: checks, questions and writes in the order in which they
happen. Every value is read from the house as it is at that moment, and every
write is made on its own, so a check that came too late would show.
-/

namespace CandleAuction

open Ruling

namespace Handler

variable {σ ω : Type}

/-- Add to a balance. Nothing is written if the sum does not fit. -/
def credit (address : Address) (amount : UInt64) : Handler σ ω Unit :=
  write fun h => (h.credit? address amount).getD h

def updateProposal (id : UInt64) (change : Proposal → Proposal) : Handler σ ω Unit :=
  write (·.updateProposal id change)

def placeBid (ctx : Context) (id amount : UInt64) : Handler σ ω Outcome := do
  let h ← house
  let r ← h.requireAuction id
  r.requireOpen ctx.now
  ctx.requireValue amount
  r.settings.requirePrecision amount
  ensure (r.minBid ≤ amount) (.bidBelowMinimum r.minBid amount)
  let index := (h.ledger id).size
  ensure (index < r.settings.indexWidth.capacity) .ledgerFull
  let timestamp ← r.relativeTime ctx.now
  let proceeds ← demand (checkedAdd r.proceeds amount) .amountOverflow
  let bid : Bid := ⟨ctx.sender, timestamp, amount, false⟩
  write (·.updateAuction id ({ · with proceeds := proceeds }))
  write (·.appendBid id bid)
  log ctx (.placed id index bid proceeds)
  return .bidPlaced (UInt32.ofNat index)

def increaseBid (ctx : Context) (id : UInt64) (index : UInt32) (added : UInt64) :
    Handler σ ω Outcome := do
  let h ← house
  let r ← h.requireAuction id
  r.requireOpen ctx.now
  ctx.requireValue added
  r.settings.requirePrecision added
  let bid ← demand (h.bid? id index) (.bidNotFound index)
  ensure (bid.bidder = ctx.sender) (.notBidOwner index)
  let amount ← demand (checkedAdd bid.amount added) .amountOverflow
  let proceeds ← demand (checkedAdd r.proceeds added) .amountOverflow
  let timestamp ← r.relativeTime ctx.now
  write (·.updateAuction id ({ · with proceeds := proceeds }))
  write (·.updateBid id index ({ · with amount := amount, timestamp := timestamp }))
  log ctx (.raised id index amount timestamp proceeds)
  return .bidIncreased amount

/-- Open a round from the current settings. The numbers may have run out. -/
def startAuction (b : Backends σ ω) (ctx : Context) (startTime : UInt64)
    (fee : FeeObservation) : Handler σ ω UInt64 := do
  let h ← house
  let round := h.nextRound startTime fee (← settlementGas b)
  let nextId ← exactAdd h.nextId 1
  write ({ · with nextId := nextId })
  write fun h => { h with auctions := h.auctions.insert round.id round }
  write (·.setLedger round.id #[])
  write ({ · with currentId := round.id })
  log ctx (.opened round nextId)
  return round.id

/-- Close a round, with its request if one was made, and open the next one. -/
def closeAndReopen (b : Backends σ ω) (ctx : Context) (id : UInt64) (request : Option UInt64) :
    Handler σ ω Outcome := do
  let closer : Snuff := ⟨ctx.sender, ctx.now⟩
  match request with
  | none =>
      write (·.updateAuction id ({ · with snuff := some closer, phase := .endedWithoutBids }))
      log ctx (.closed id closer none)
  | some request =>
      write (·.updateAuction id
        ({ · with snuff := some closer, phase := .waitingClose, request := some request }))
      log ctx (.closed id closer (some request))
      write fun h => { h with requests := h.requests.insert request id }
  let next ← startAuction b ctx ctx.now ⟨ctx.gasPrice, ctx.now⟩
  return .snuffed next

def snuff (b : Backends σ ω) (ctx : Context) (id : UInt64) : Handler σ ω Outcome := do
  let h ← house
  let r ← h.requireAuction id
  r.requirePhase ctx.now .running
  let deadline ← r.deadline
  ensure (deadline ≤ ctx.now) (.closeNotReached deadline)
  h.requireFreeSlot ctx.now id
  if (h.ledger id).isEmpty then
    closeAndReopen b ctx id none
  else
    let request ← ask b (.randomness (Seed.randomness id r.startTime))
    closeAndReopen b ctx id (some request)

def fulfillRandomness (ctx : Context) (request : UInt64) (word : Word) :
    Handler σ ω Outcome := do
  let h ← house
  ensure (ctx.sender = h.oracle) .notOracle
  let id ← demand h.requests[request]? (.unknownRequest request)
  let r ← h.requireAuction id
  ensure (r.phase = .waitingClose ∧ r.request = some request) (.unknownRequest request)
  ensure (r.entropy = none) .entropyAlreadySet
  let offset ← r.settings.closeOffset word
  write (·.updateAuction id ({ · with entropy := some word, closeOffset := some offset }))
  let closeTime ← if ctx.logging then exactAdd r.startTime offset.toUInt64 else pure 0
  log ctx (.drawn id word offset closeTime)
  return .closeResolved offset

def proposeWinners (ctx : Context) (id : UInt64) (encoding : List UInt8) (commitment : Word)
    (total : UInt64) : Handler σ ω Outcome := do
  let h ← house
  let r ← h.requireAuction id
  r.requirePhase ctx.now .waitingClose
  let entropy ← demand r.entropy .entropyPending
  ensure (r.settings.deposit ≤ ctx.value) (.insufficientDeposit r.settings.deposit ctx.value)
  let winners ← decoded (r.settings.indexWidth.unpack encoding)
  ensure (opens encoding entropy commitment) .commitmentMismatch
  let bounties := Bounties.ofTotal r.settings r.minBid r.fee.gasPrice total
  let proposal : Proposal :=
    { commitment := commitment
      proposer := ctx.sender
      deposit := ctx.value
      snuffBounty := bounties.snuff
      proposalBounty := bounties.proposal
      timestamp := ctx.now
      winnerCount := UInt32.ofNat winners.length
      total := total
      snuffBountyClaimed := false
      proposalBountyClaimed := false }
  write (·.updateAuction id ({ · with proposal := some proposal, phase := .winnersProposed }))
  log ctx (.proposed id proposal)
  return .proposed

/-- The fraud that a challenge has shown. One that shows none is logged before it is rejected. -/
def upheld (ctx : Context) (id : UInt64) (disputed : UInt32) :
    Option FraudReason → Handler σ ω FraudReason
  | some reason => return reason
  | none => do
      note ctx [⟨.debug, "challenge found no fraud", [
        ("auction_id", .number id.toNat), ("disputed_index", .number disputed.toNat)]⟩]
      reject .challengeFailed

def challenge (ctx : Context) (id : UInt64) (encoding : List UInt8) (claimed : Word)
    (disputed : UInt32) : Handler σ ω Outcome := do
  let h ← house
  let r ← h.requireAuction id
  r.requireChallengeable ctx.now
  let (proposal, entropy, close) ← demand r.disputable? .entropyPending
  let hash := commitment encoding entropy
  ensure (hash = claimed ∧ hash = proposal.commitment) .commitmentMismatch
  ensure (ctx.sender ≠ proposal.proposer) .selfChallenge
  let winners ← decoded (r.settings.indexWidth.unpack encoding)
  let claim : Claim := ⟨winners, proposal.total⟩
  let reason ← upheld ctx id disputed
    (claim.fraud? (h.ledger id) close r.settings.maxWinners disputed)
  let balance ← demand (checkedAdd (h.balance ctx.sender) proposal.deposit) .amountOverflow
  write (·.updateAuction id ({ · with proposal := none, phase := .waitingClose }))
  credit ctx.sender proposal.deposit
  log ctx (.overturned id proposal ⟨disputed, reason⟩ ctx.sender balance)
  return .proposalOverturned reason

/-- Move value out of a round into a balance, the whole of it or nothing. -/
def payOut (id : UInt64) (recipient : Address) (fromProceeds fromDeposit : UInt64) :
    Handler σ ω Payout := do
  let h ← house
  let r ← h.requireAuction id
  ensure (fromProceeds ≤ r.proceeds) (.insolvent fromProceeds r.proceeds)
  let amount ← demand (checkedAdd fromProceeds fromDeposit) .amountOverflow
  let balance ← demand (checkedAdd (h.balance recipient) amount) .amountOverflow
  let proceeds ← exactSub r.proceeds fromProceeds
  write (·.updateAuction id ({ · with proceeds := proceeds }))
  credit recipient amount
  return ⟨recipient, fromProceeds, fromDeposit, proceeds, balance⟩

/-- One more claimed winner; the count is returned. -/
def countWinner (id : UInt64) : Handler σ ω UInt32 := do
  match (← house).auction? id with
  | none => return 0
  | some r =>
      let count ← exactSucc r.claimedWinners
      write (·.updateAuction id ({ · with claimedWinners := count }))
      return count

/-- The item is handed out before the bid is marked and counted. -/
def claimWinningBid (b : Backends σ ω) (ctx : Context) (id : UInt64) (encoding : List UInt8)
    (position : UInt32) : Handler σ ω Outcome := do
  let h ← house
  let winners ← h.finalWinners ctx.now id encoding
  let index ← demand winners[position.toNat]?
    (.positionOutOfRange position (UInt32.ofNat winners.length))
  let bid ← demand (h.bid? id index) (.bidNotFound index)
  ensure (bid.processed = false) (.alreadyProcessed index)
  let r ← h.requireAuction id
  let entropy ← demand r.entropy .entropyPending
  let item ← ask b (.settle bid.bidder (Seed.item entropy index))
  write (·.updateBid id index ({ · with processed := true }))
  let count ← countWinner id
  log ctx (.claimed id index item bid.bidder count)
  return .itemSettled item

def withdrawBid (ctx : Context) (id : UInt64) (encoding : List UInt8) (index : UInt32) :
    Handler σ ω Outcome := do
  let h ← house
  let winners ← h.finalWinners ctx.now id encoding
  let bid ← demand (h.bid? id index) (.bidNotFound index)
  ensure (bid.bidder = ctx.sender) (.notBidOwner index)
  ensure (index ∉ winners) (.winnerCannotWithdraw index)
  ensure (bid.processed = false) (.alreadyProcessed index)
  let payout ← payOut id ctx.sender bid.amount 0
  write (·.updateBid id index ({ · with processed := true }))
  log ctx (.withdrawn id index payout)
  return .paid bid.amount

def claimSnuffBounty (ctx : Context) (id : UInt64) : Handler σ ω Outcome := do
  let h ← house
  let (r, proposal) ← h.finalized ctx.now id
  ensure (proposal.snuffBountyClaimed = false) .bountyAlreadyClaimed
  let snuff ← demand r.snuff (.invalidState .finalized r.phase)
  let payout ← payOut id snuff.sender proposal.snuffBounty 0
  updateProposal id ({ · with snuffBountyClaimed := true })
  log ctx (.snuffBountyPaid id payout)
  return .paid proposal.snuffBounty

def claimProposalBounty (ctx : Context) (id : UInt64) : Handler σ ω Outcome := do
  let h ← house
  let (_, proposal) ← h.finalized ctx.now id
  ensure (proposal.proposalBountyClaimed = false) .bountyAlreadyClaimed
  let payout ← payOut id proposal.proposer proposal.proposalBounty proposal.deposit
  updateProposal id ({ · with proposalBountyClaimed := true })
  log ctx (.proposalBountyPaid id payout)
  let paid ← exactAdd proposal.proposalBounty proposal.deposit
  return .paid paid

def transferProceeds (ctx : Context) (id : UInt64) : Handler σ ω Outcome := do
  let h ← house
  let (r, proposal) ← h.finalized ctx.now id
  ensure (r.fundsMoved = false) .fundsAlreadyMoved
  let bounties ← exactAdd proposal.snuffBounty proposal.proposalBounty
  let amount := saturatingSub proposal.total bounties
  let payout ← payOut id h.beneficiary amount 0
  write (·.updateAuction id ({ · with fundsMoved := true }))
  log ctx (.proceedsMoved id payout)
  return .paid amount

def updateSettings (ctx : Context) (settings : Settings) : Handler σ ω Outcome := do
  let h ← house
  ensure (ctx.sender = h.admin) .notAuthorized
  match settings.problem? with
  | some problem => reject (.invalidSettings problem)
  | none =>
      write ({ · with settings := settings })
      return .settingsUpdated

/-- The handler of each call. -/
def ofCall (b : Backends σ ω) (ctx : Context) : Call → Handler σ ω Outcome
  | .placeBid id amount => placeBid ctx id amount
  | .increaseBid id index added => increaseBid ctx id index added
  | .snuff id => snuff b ctx id
  | .fulfillRandomness request word => fulfillRandomness ctx request word
  | .proposeWinners id encoding commitment total =>
      proposeWinners ctx id encoding commitment total
  | .challenge id encoding claimed disputed => challenge ctx id encoding claimed disputed
  | .claimWinningBid id encoding position => claimWinningBid b ctx id encoding position
  | .withdrawBid id encoding index => withdrawBid ctx id encoding index
  | .claimSnuffBounty id => claimSnuffBounty ctx id
  | .claimProposalBounty id => claimProposalBounty ctx id
  | .transferProceeds id => transferProceeds ctx id
  | .updateSettings settings => updateSettings ctx settings

end Handler

end CandleAuction
