import CandleAuction.Auction
import CandleAuction.Packing

/-!
# Rejections

Why a call is turned down. A rejection is final: nothing has been written, and
the caller has to change the request. A fault, in contrast, stops the program.
-/

namespace CandleAuction

/-- A failure reported by a collaborator. -/
inductive CollaboratorError
  | settlementFailed (reason : String)
  | requestFailed (reason : String)
  deriving DecidableEq, Repr

def CollaboratorError.message : CollaboratorError → String
  | .settlementFailed reason => s!"Settlement failed: {reason}"
  | .requestFailed reason => s!"Randomness request failed: {reason}"

/-- The three addresses that a house is founded with. -/
inductive Role
  | admin
  | beneficiary
  | oracle
  deriving DecidableEq, Repr

def Role.name : Role → String
  | .admin => "admin"
  | .beneficiary => "beneficiary"
  | .oracle => "oracle"

inductive GenesisError
  | missingAddress (role : Role)
  | invalidSettings (error : SettingsError)
  | unreadable
  deriving DecidableEq, Repr

def GenesisError.message : GenesisError → String
  | .missingAddress role => s!"Missing address: {role.name}"
  | .invalidSettings error => s!"Invalid settings: {error.message}"
  | .unreadable => "Invalid genesis JSON"

inductive Rejection
  | auctionNotFound (auction : UInt64)
  | invalidState (expected got : Phase)
  -- bids
  | biddingNotStarted
  | biddingEnded
  | bidBelowMinimum (minimum got : UInt64)
  | invalidPrecision (amount precision : UInt64)
  | valueMismatch (expected got : UInt64)
  | ledgerFull
  | timestampOverflow
  | bidNotFound (index : UInt32)
  | notBidOwner (index : UInt32)
  -- close
  | closeNotReached (deadline : UInt64)
  | settlingSlotBusy (auction : UInt64)
  | unknownRequest (request : UInt64)
  | entropyAlreadySet
  | notOracle
  | entropyPending
  -- proposals and challenges
  | insufficientDeposit (required got : UInt64)
  | commitmentMismatch
  | invalidEncoding (error : PackingError)
  | challengePeriodOver
  | selfChallenge
  | challengeFailed
  -- settlement
  | alreadyProcessed (index : UInt32)
  | positionOutOfRange (position count : UInt32)
  | winnerCannotWithdraw (index : UInt32)
  | bountyAlreadyClaimed
  | fundsAlreadyMoved
  | insolvent (required available : UInt64)
  | amountOverflow
  -- administration and collaborators
  | notAuthorized
  | invalidSettings (error : SettingsError)
  | invalidGenesis (error : GenesisError)
  | external (error : CollaboratorError)
  deriving DecidableEq, Repr

def Rejection.message : Rejection → String
  | .auctionNotFound auction => s!"Auction not found: {auction}"
  | .invalidState expected got => s!"Invalid state. Expected: {expected.name}, Got: {got.name}"
  | .biddingNotStarted => "Bidding period not started"
  | .biddingEnded => "Bidding period ended"
  | .bidBelowMinimum minimum got => s!"Bid below minimum: need {minimum}, got {got}"
  | .invalidPrecision amount precision =>
      s!"Amount {amount} is not a multiple of precision {precision}"
  | .valueMismatch expected got => s!"Attached value mismatch: expected {expected}, got {got}"
  | .ledgerFull => "Bid ledger full"
  | .timestampOverflow => "Bid timestamp out of range"
  | .bidNotFound index => s!"Bid not found: {index}"
  | .notBidOwner index => s!"Caller does not own bid {index}"
  | .closeNotReached deadline => s!"Close not reached: bidding runs until {deadline}"
  | .settlingSlotBusy auction => s!"Auction {auction} is still settling"
  | .unknownRequest request => s!"Unknown randomness request: {request}"
  | .entropyAlreadySet => "Entropy already set"
  | .notOracle => "Caller is not the randomness oracle"
  | .entropyPending => "Entropy not yet available"
  | .insufficientDeposit required got => s!"Insufficient deposit: need {required}, got {got}"
  | .commitmentMismatch => "Commitment mismatch"
  | .invalidEncoding error => s!"Invalid winners encoding: {error.message}"
  | .challengePeriodOver => "Challenge period over"
  | .selfChallenge => "Proposer cannot challenge own proposal"
  | .challengeFailed => "Challenge failed: no violation found"
  | .alreadyProcessed index => s!"Bid {index} already processed"
  | .positionOutOfRange position count =>
      s!"Position {position} out of range for {count} winners"
  | .winnerCannotWithdraw index => s!"Bid {index} is a winning bid"
  | .bountyAlreadyClaimed => "Bounty already claimed"
  | .fundsAlreadyMoved => "Proceeds already transferred"
  | .insolvent required available => s!"Insolvent: need {required}, available {available}"
  | .amountOverflow => "Amount overflow"
  | .notAuthorized => "Not authorized"
  | .invalidSettings error => s!"Invalid settings: {error.message}"
  | .invalidGenesis error => s!"Invalid settings: {error.message}"
  | .external error => s!"External collaborator failed: {error.message}"

/-- Why a call did not go through. -/
inductive Halt
  | rejected (rejection : Rejection)
  | fault (fault : Fault)
  deriving DecidableEq, Repr

/-- What a rule of the house says: a value, or why there is none. -/
abbrev Ruling := Except Halt

namespace Ruling

def reject {α : Type} (rejection : Rejection) : Ruling α := .error (.rejected rejection)

def ensure (condition : Prop) [Decidable condition] (rejection : Rejection) : Ruling Unit :=
  if condition then .ok () else reject rejection

def demand {α : Type} (value : Option α) (rejection : Rejection) : Ruling α :=
  match value with
  | some value => .ok value
  | none => reject rejection

/-- An exact computation inside a rule. -/
def exactly {α : Type} : Except Fault α → Ruling α
  | .ok value => .ok value
  | .error fault => .error (.fault fault)

instance : MonadLift (Except Fault) Ruling := ⟨exactly⟩

/-- A resubmitted encoding inside a rule. -/
def decoded {α : Type} : Except PackingError α → Ruling α
  | .ok value => .ok value
  | .error error => reject (.invalidEncoding error)

@[simp]
theorem ensure_eq_ok {condition : Prop} [Decidable condition] {rejection : Rejection} {u : Unit} :
    ensure condition rejection = .ok u ↔ condition := by
  unfold ensure reject
  split <;> simp [*]

@[simp]
theorem demand_eq_ok {α : Type} {value : Option α} {rejection : Rejection} {result : α} :
    demand value rejection = .ok result ↔ value = some result := by
  cases value <;> simp [demand, reject]

@[simp]
theorem exactly_eq_ok {α : Type} {value : Except Fault α} {result : α} :
    exactly value = .ok result ↔ value = .ok result := by
  cases value <;> simp [exactly]

@[simp]
theorem lift_eq_ok {α : Type} {value : Except Fault α} {result : α} :
    (liftM value : Ruling α) = .ok result ↔ value = .ok result := exactly_eq_ok

@[simp]
theorem decoded_eq_ok {α : Type} {value : Except PackingError α} {result : α} :
    decoded value = .ok result ↔ value = .ok result := by
  cases value <;> simp [decoded, reject]

theorem bind_eq_ok {α β : Type} {first : Ruling α} {next : α → Ruling β} {result : β} :
    (first >>= next) = .ok result ↔ ∃ value, first = .ok value ∧ next value = .ok result := by
  cases first <;> simp [bind, Except.bind]

end Ruling

end CandleAuction
