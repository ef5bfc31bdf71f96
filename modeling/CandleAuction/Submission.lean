import CandleAuction.Commitment
import CandleAuction.House
import CandleAuction.Ranking

/-!
# Submissions

Off the chain, the winners of a round are computed from a snapshot of its
ledger and packed for a proposal.
-/

namespace CandleAuction

/-- All that determines the winners of a round. -/
structure Snapshot where
  auction : UInt64
  bids : Ledger
  close : UInt32
  entropy : Word
  maxWinners : UInt32
  indexWidth : IndexWidth
  deriving DecidableEq, Repr

/-- A winner list ready to be proposed. -/
structure Submission where
  auction : UInt64
  winners : List UInt32
  encoding : List UInt8
  commitment : Word
  total : UInt64
  deriving DecidableEq, Repr

inductive SubmissionError
  | noBids
  | zeroWinners
  | tooManyBids
  | packing (error : PackingError)
  | auctionNotFound (auction : UInt64)
  | closeUnresolved (auction : UInt64)
  deriving DecidableEq, Repr

def SubmissionError.message : SubmissionError → String
  | .noBids => "No bids to rank"
  | .zeroWinners => "Max winners cannot be zero"
  | .tooManyBids => "Bid count exceeds index width"
  | .packing error => error.message
  | .auctionNotFound auction => s!"auction {auction} not found"
  | .closeUnresolved auction => s!"auction {auction} has no resolved close yet"

/-- What is wrong with a snapshot, if anything. The first finding counts. -/
def Snapshot.problem? (s : Snapshot) : Option SubmissionError :=
  if s.bids.isEmpty then some .noBids
  else if s.maxWinners = 0 then some .zeroWinners
  else if s.indexWidth.capacity < s.bids.size then some .tooManyBids
  else none

def Snapshot.submission (s : Snapshot) : Except SubmissionError Submission :=
  match s.problem? with
  | some problem => .error problem
  | none =>
      let winners := s.bids.winnerSet s.close s.maxWinners
      match commitWinners winners.indices s.indexWidth s.entropy with
      | .error error => .error (.packing error)
      | .ok (encoding, commitment) =>
          .ok ⟨s.auction, winners.indices, encoding, commitment, winners.total⟩

/-- The snapshot of a round whose close instant is known. -/
def House.snapshot (h : House) (id : UInt64) : Except SubmissionError Snapshot :=
  match h.auction? id with
  | none => .error (.auctionNotFound id)
  | some r =>
      match r.entropy, r.closeOffset with
      | some entropy, some close =>
          .ok ⟨id, h.ledger id, close, entropy, r.settings.maxWinners, r.settings.indexWidth⟩
      | _, _ => .error (.closeUnresolved id)

end CandleAuction
