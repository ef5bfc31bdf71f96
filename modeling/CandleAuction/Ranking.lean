import CandleAuction.Auction

/-!
# Canonical ranking

Eligible bids come before late ones, larger amounts before smaller ones, and
earlier ledger entries before later ones. No two entries tie, so the winners
are determined: late bids fill only the places that eligible ones leave.
-/

namespace CandleAuction

/-- A bid with its position in the ledger. -/
structure Entry where
  index : UInt32
  bid : Bid
  deriving DecidableEq, Repr

namespace Entry

/-- Less means that the first entry ranks ahead. -/
def rank (close : UInt32) (a b : Entry) : Ordering :=
  (compare (b.bid.eligible close) (a.bid.eligible close)).then <|
    (compare b.bid.amount a.bid.amount).then (compare a.index b.index)

def ahead (close : UInt32) (a b : Entry) : Bool := rank close a b == .lt

end Entry

namespace Ledger

def entries (bids : Ledger) : List Entry :=
  bids.toList.zipIdx.map fun (bid, index) => ⟨UInt32.ofNat index, bid⟩

def entry? (bids : Ledger) (index : UInt32) : Option Entry :=
  bids[index.toNat]?.map (Entry.mk index)

/-- How many winners a correct proposal names. -/
def winnerCount (bidCount : Nat) (maxWinners : UInt32) : Nat :=
  min bidCount maxWinners.toNat

def ranked (bids : Ledger) (close : UInt32) : List Entry :=
  bids.entries.mergeSort fun a b => (a.rank close b).isLE

def winningEntries (bids : Ledger) (close maxWinners : UInt32) : List Entry :=
  (bids.ranked close).take (winnerCount bids.size maxWinners)

def canonicalWinners (bids : Ledger) (close maxWinners : UInt32) : List UInt32 :=
  (bids.winningEntries close maxWinners).map Entry.index

end Ledger

/-- The winners with their aggregate values. -/
structure WinnerSet where
  indices : List UInt32
  /-- Sum of the winners' amounts, or the largest amount if it does not fit. -/
  total : UInt64
  /-- How many bids of the ledger are eligible. -/
  eligible : UInt32
  deriving DecidableEq, Repr

def Ledger.winnerSet (bids : Ledger) (close maxWinners : UInt32) : WinnerSet :=
  let winners := bids.winningEntries close maxWinners
  { indices := winners.map Entry.index
    total := winners.foldl (fun sum entry => saturatingAdd sum entry.bid.amount) 0
    eligible := UInt32.ofNat (bids.toList.countP fun bid => bid.eligible close) }

end CandleAuction
