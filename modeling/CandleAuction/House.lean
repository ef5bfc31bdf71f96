import CandleAuction.Rejection
import Std.Data.ExtTreeMap

/-!
# The auction house

All rounds with their bid ledgers, the outstanding requests for randomness, the
balances that payouts are credited to, and the settings of the rounds to come.
Equal contents make equal houses.
-/

namespace CandleAuction

open Std (ExtTreeMap)

structure House where
  nextId : UInt64
  currentId : UInt64
  auctions : ExtTreeMap UInt64 Auction
  /-- Bids of each round in the order they were placed. -/
  ledgers : ExtTreeMap UInt64 Ledger
  /-- Request for randomness, and the round it was made for. -/
  requests : ExtTreeMap UInt64 UInt64
  balances : ExtTreeMap Address UInt64
  settings : Settings
  admin : Address
  beneficiary : Address
  oracle : Address

namespace House

def empty : House where
  nextId := 1
  currentId := 0
  auctions := ∅
  ledgers := ∅
  requests := ∅
  balances := ∅
  settings := .standard
  admin := .zero
  beneficiary := .zero
  oracle := .zero

def auction? (h : House) (id : UInt64) : Option Auction := h.auctions[id]?

/-- The bids of a round; none if the round is unknown. -/
def ledger (h : House) (id : UInt64) : Ledger := h.ledgers.getD id #[]

def bid? (h : House) (id : UInt64) (index : UInt32) : Option Bid := (h.ledger id)[index.toNat]?

def balance (h : House) (address : Address) : UInt64 := h.balances.getD address 0

def updateAuction (h : House) (id : UInt64) (change : Auction → Auction) : House :=
  { h with auctions := h.auctions.modify id change }

def appendBid (h : House) (id : UInt64) (bid : Bid) : House :=
  { h with ledgers := h.ledgers.alter id fun bids => some ((bids.getD #[]).push bid) }

def updateBid (h : House) (id : UInt64) (index : UInt32) (change : Bid → Bid) : House :=
  { h with ledgers := h.ledgers.modify id fun bids => bids.modify index.toNat change }

def setBalance (h : House) (address : Address) (amount : UInt64) : House :=
  { h with balances := h.balances.insert address amount }

/-- Add to a balance, if the sum fits. -/
def credit? (h : House) (address : Address) (amount : UInt64) : Option House :=
  (checkedAdd (h.balance address) amount).map (h.setBalance address)

/-- A fresh round number. -/
def allocate (h : House) : Except Fault (UInt64 × House) := do
  let next ← exactAdd h.nextId 1
  return (h.nextId, { h with nextId := next })

def setLedger (h : House) (id : UInt64) (bids : Ledger) : House :=
  { h with ledgers := h.ledgers.insert id bids }

/-- Record a round under its number, with an empty ledger, as the current one. -/
def openRound (h : House) (round : Auction) (nextId : UInt64) : House :=
  { h with
    nextId := nextId
    currentId := round.id
    auctions := h.auctions.insert round.id round
    ledgers := h.ledgers.insert round.id #[] }

/-- The round that would be opened next. Its minimum bid covers the settlement
of one item at the observed gas price. -/
def nextRound (h : House) (startTime : UInt64) (fee : FeeObservation) (settlementGas : UInt64) :
    Auction :=
  let minBid := h.settings.roundUp (saturatingMul fee.gasPrice settlementGas)
  .opening h.nextId startTime h.settings minBid fee

@[simp]
theorem auction?_updateAuction (h : House) (id other : UInt64) (change : Auction → Auction) :
    (h.updateAuction id change).auction? other =
      if id = other then (h.auction? id).map change else h.auction? other := by
  simp [auction?, updateAuction, ExtTreeMap.getElem?_modify]

@[simp]
theorem ledger_updateAuction (h : House) (id other : UInt64) (change : Auction → Auction) :
    (h.updateAuction id change).ledger other = h.ledger other := rfl

@[simp]
theorem auction?_appendBid (h : House) (id other : UInt64) (bid : Bid) :
    (h.appendBid id bid).auction? other = h.auction? other := rfl

@[simp]
theorem ledger_appendBid (h : House) (id other : UInt64) (bid : Bid) :
    (h.appendBid id bid).ledger other =
      if id = other then (h.ledger id).push bid else h.ledger other := by
  simp only [ledger, appendBid, ExtTreeMap.getD_eq_getD_getElem?, ExtTreeMap.getElem?_alter,
    Std.LawfulEqCmp.compare_eq_iff_eq]
  split <;> rfl

@[simp]
theorem auction?_updateBid (h : House) (id other : UInt64) (index : UInt32)
    (change : Bid → Bid) : (h.updateBid id index change).auction? other = h.auction? other := rfl

@[simp]
theorem balance_setBalance (h : House) (address other : Address) (amount : UInt64) :
    (h.setBalance address amount).balance other =
      if address = other then amount else h.balance other := by
  simp [balance, setBalance, ExtTreeMap.getD_insert]

end House

end CandleAuction
