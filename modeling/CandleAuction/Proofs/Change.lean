import CandleAuction.Change

/-!
# What a change touches

A change is about at most one round that exists: it revises the record of that
round and enters something into its ledger. It sets at most one balance. All
other rounds and balances stay as they are, and a round is opened beside them.
-/

namespace CandleAuction

open Std (ExtTreeMap)

/-- A round as it was opened. -/
def Auction.origin (r : Auction) : Auction :=
  .opening r.id r.startTime r.settings r.minBid r.fee

/-- Two houses hold the same record and the same ledger of a round, or neither. -/
structure House.SameRound (h h' : House) (id : UInt64) : Prop where
  record : h'.auction? id = h.auction? id
  bids : h'.ledgers[id]? = h.ledgers[id]?

namespace House.SameRound

variable {h h' h'' : House} {id : UInt64}

theorem symm (same : h.SameRound h' id) : h'.SameRound h id :=
  ⟨same.record.symm, same.bids.symm⟩

theorem trans (first : h.SameRound h' id) (second : h'.SameRound h'' id) : h.SameRound h'' id :=
  ⟨second.record.trans first.record, second.bids.trans first.bids⟩

theorem ledger (same : h.SameRound h' id) : h'.ledger id = h.ledger id := by
  rw [House.ledger, House.ledger, ExtTreeMap.getD_eq_getD_getElem?,
    ExtTreeMap.getD_eq_getD_getElem?, same.bids]

end House.SameRound

namespace Change

/-- The round that a change is about. A round being opened is none yet. -/
def round? : Change → Option UInt64
  | placed id .. | raised id .. | closed id .. | drawn id .. | proposed id _ | overturned id ..
  | claimed id .. | withdrawn id .. | snuffBountyPaid id _ | proposalBountyPaid id _
  | proceedsMoved id _ => some id
  | opened .. | configured _ => none

/-- The round that a change opens. -/
def opens? : Change → Option UInt64
  | opened round _ => some round.id
  | _ => none

/-- What becomes of the record of the round. -/
def revise : Change → Auction → Auction
  | placed _ _ _ proceeds, r => { r with proceeds := proceeds }
  | raised _ _ _ _ proceeds, r => { r with proceeds := proceeds }
  | closed _ snuff (some request), r =>
      { r with snuff := some snuff, phase := .waitingClose, request := some request }
  | closed _ snuff none, r => { r with snuff := some snuff, phase := .endedWithoutBids }
  | drawn _ entropy offset _, r => { r with entropy := some entropy, closeOffset := some offset }
  | proposed _ p, r => { r with proposal := some p, phase := .winnersProposed }
  | overturned .., r => { r with proposal := none, phase := .waitingClose }
  | claimed _ _ _ _ count, r => { r with claimedWinners := count }
  | withdrawn _ _ payout, r => { r with proceeds := payout.proceeds }
  | snuffBountyPaid _ payout, r =>
      { r with
        proceeds := payout.proceeds
        proposal := r.proposal.map ({ · with snuffBountyClaimed := true }) }
  | proposalBountyPaid _ payout, r =>
      { r with
        proceeds := payout.proceeds
        proposal := r.proposal.map ({ · with proposalBountyClaimed := true }) }
  | proceedsMoved _ payout, r => { r with proceeds := payout.proceeds, fundsMoved := true }
  | opened .., r | configured _, r => r

/-- What becomes of the ledger of the round. -/
def enter : Change → Ledger → Ledger
  | placed _ _ bid _, bids => bids.push bid
  | raised _ index amount timestamp _, bids =>
      bids.modify index.toNat ({ · with amount := amount, timestamp := timestamp })
  | claimed _ index .., bids => bids.modify index.toNat ({ · with processed := true })
  | withdrawn _ index _, bids => bids.modify index.toNat ({ · with processed := true })
  | _, bids => bids

/-- The balance that a change sets. -/
def balance? : Change → Option (Address × UInt64)
  | overturned _ _ _ challenger balance => some (challenger, balance)
  | withdrawn _ _ payout | snuffBountyPaid _ payout | proposalBountyPaid _ payout
  | proceedsMoved _ payout => some (payout.recipient, payout.balance)
  | _ => none

/-- The request that a change keeps, with the round it was made for. -/
def request? : Change → Option (UInt64 × UInt64)
  | closed id _ (some request) => some (request, id)
  | _ => none

variable {h : House} {change : Change} {id : UInt64} {r : Auction}

theorem origin_revise : (change.revise r).origin = r.origin := by
  cases change with
  | closed _ _ request => cases request <;> rfl
  | _ => rfl

theorem auctions_apply (about : change.round? = some id) (found : h.auction? id = some r) :
    (change.apply h).auctions = h.auctions.insert id (change.revise r) := by
  refine ExtTreeMap.ext_getElem? fun key => ?_
  replace found : h.auctions[id]? = some r := found
  cases change with
  | opened | configured => cases about
  | closed _ _ request =>
      cases about
      cases request <;>
        simp only [apply, House.updateAuction, revise, ExtTreeMap.getElem?_modify,
          ExtTreeMap.getElem?_insert, found] <;>
        split <;> rfl
  | _ =>
      cases about
      simp only [apply, House.updateAuction, House.appendBid, House.updateBid, House.setBalance,
        House.pay, House.updateProposal, revise, ExtTreeMap.getElem?_modify,
        ExtTreeMap.getElem?_insert, Std.LawfulEqCmp.compare_eq_iff_eq, if_true, found]
      split <;> rfl

theorem auction?_apply (about : change.round? = some id) (found : h.auction? id = some r) :
    (change.apply h).auction? id = some (change.revise r) := by
  rw [House.auction?, auctions_apply about found, ExtTreeMap.getElem?_insert_self]

theorem auction?_apply_of_ne {other : UInt64} (about : change.round? = some id)
    (ne : other ≠ id) : (change.apply h).auction? other = h.auction? other := by
  have ne : ¬ id = other := fun same => ne same.symm
  cases change with
  | opened | configured => cases about
  | closed _ _ request =>
      cases about
      cases request <;>
        simp [apply, House.auction?, House.updateAuction, ExtTreeMap.getElem?_modify, ne]
  | _ =>
      cases about
      simp [apply, House.auction?, House.updateAuction, House.appendBid, House.updateBid,
        House.setBalance, House.pay, House.updateProposal, ExtTreeMap.getElem?_modify, ne]

/-- A round after a change is the one that the change is about, or was there before. -/
theorem auction?_apply_cases {other : UInt64} {r' : Auction} (about : change.round? = some id)
    (found : h.auction? id = some r) (found' : (change.apply h).auction? other = some r') :
    other = id ∧ r' = change.revise r ∨ other ≠ id ∧ h.auction? other = some r' := by
  by_cases same : other = id
  · subst same
    rw [auction?_apply about found] at found'
    exact .inl ⟨rfl, (Option.some.inj found').symm⟩
  · rw [auction?_apply_of_ne about same] at found'
    exact .inr ⟨same, found'⟩

theorem ledger_apply (about : change.round? = some id) :
    (change.apply h).ledger id = change.enter (h.ledger id) := by
  cases change with
  | opened | configured => cases about
  | closed _ _ request => cases request <;> rfl
  | placed _ _ bid proceeds =>
      cases about
      simp [apply, enter]
  | raised | claimed | withdrawn =>
      cases about
      simp only [apply, enter, House.ledger, House.updateAuction, House.updateBid, House.pay,
        House.setBalance, ExtTreeMap.getD_eq_getD_getElem?, ExtTreeMap.getElem?_modify_self]
      cases h.ledgers[id]? with
      | none => simp
      | some bids => rfl
  | _ => rfl

theorem ledgers_apply_of_ne {other : UInt64} (about : change.round? = some id)
    (ne : other ≠ id) : (change.apply h).ledgers[other]? = h.ledgers[other]? := by
  have ne : ¬ id = other := fun same => ne same.symm
  cases change with
  | opened | configured => cases about
  | closed _ _ request => cases request <;> rfl
  | _ =>
      cases about
      simp [apply, House.updateAuction, House.appendBid, House.updateBid, House.setBalance,
        House.pay, House.updateProposal, ExtTreeMap.getElem?_modify, ExtTreeMap.getElem?_alter, ne]

theorem sameRound_apply_of_ne {other : UInt64} (about : change.round? = some id)
    (ne : other ≠ id) : h.SameRound (change.apply h) other :=
  ⟨auction?_apply_of_ne about ne, ledgers_apply_of_ne about ne⟩

theorem ledger_apply_of_ne {other : UInt64} (about : change.round? = some id)
    (ne : other ≠ id) : (change.apply h).ledger other = h.ledger other :=
  (sameRound_apply_of_ne about ne).ledger

theorem auction?_apply_opened {round : Auction} {nextId : UInt64} :
    ((opened round nextId).apply h).auction? id =
      if round.id = id then some round else h.auction? id := by
  simp [apply, House.auction?, House.openRound, ExtTreeMap.getElem?_insert]

theorem auction?_apply_opened_cases {round : Auction} {nextId : UInt64}
    (found : ((opened round nextId).apply h).auction? id = some r) :
    id = round.id ∧ r = round ∨ id ≠ round.id ∧ h.auction? id = some r := by
  rw [auction?_apply_opened] at found
  split at found
  · rename_i number
    exact .inl ⟨number.symm, (Option.some.inj found).symm⟩
  · rename_i other
    exact .inr ⟨Ne.symm other, found⟩

theorem ledgers_apply_opened {round : Auction} {nextId : UInt64} :
    ((opened round nextId).apply h).ledgers[id]? =
      if round.id = id then some #[] else h.ledgers[id]? := by
  simp [apply, House.openRound, ExtTreeMap.getElem?_insert]

theorem sameRound_apply {other : UInt64} (elsewhere : change.round? ≠ some other)
    (unopened : change.opens? ≠ some other) : h.SameRound (change.apply h) other := by
  cases about : change.round? with
  | some id => exact sameRound_apply_of_ne about fun same => elsewhere (same ▸ about)
  | none =>
      cases change with
      | opened round nextId =>
          have ne : round.id ≠ other := fun same => unopened (congrArg some same)
          exact ⟨auction?_apply_opened.trans (if_neg ne), ledgers_apply_opened.trans (if_neg ne)⟩
      | configured => exact ⟨rfl, rfl⟩
      | _ => cases about

theorem ledger_apply_opened {round : Auction} {nextId : UInt64} :
    ((opened round nextId).apply h).ledger id = if round.id = id then #[] else h.ledger id := by
  simp [apply, House.ledger, House.openRound, ExtTreeMap.getD_insert]

theorem balances_apply :
    (change.apply h).balances =
      change.balance?.elim h.balances fun set => h.balances.insert set.1 set.2 := by
  cases change with
  | closed _ _ request => cases request <;> rfl
  | _ => rfl

theorem balance_apply {payee account : Address} {amount : UInt64}
    (credits : change.balance? = some (payee, amount)) :
    (change.apply h).balance account = if payee = account then amount else h.balance account := by
  rw [House.balance, balances_apply, credits, Option.elim_some]
  exact House.balance_setBalance h payee account amount

theorem requests_apply :
    (change.apply h).requests =
      change.request?.elim h.requests fun set => h.requests.insert set.1 set.2 := by
  cases change with
  | closed _ _ request => cases request <;> rfl
  | _ => rfl

theorem nextId_apply (about : change.round? = some id) : (change.apply h).nextId = h.nextId := by
  cases change with
  | opened | configured => cases about
  | closed _ _ request => cases request <;> rfl
  | _ => rfl

theorem settings_apply (about : change.round? = some id) :
    (change.apply h).settings = h.settings := by
  cases change with
  | opened | configured => cases about
  | closed _ _ request => cases request <;> rfl
  | _ => rfl

end Change

end CandleAuction
