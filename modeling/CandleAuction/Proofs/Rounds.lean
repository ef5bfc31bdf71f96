import CandleAuction.Proofs.Run

/-!
# The rounds of a run

A granted call makes at most one change to each existing round, and only a
change that the round allows. So a law about single rounds is shown for every
allowed change and for a round just opened, and then holds in every run.
-/

namespace CandleAuction

namespace Auction

/-- An amount leaves the proceeds. -/
structure Spends (r : Auction) (amount : UInt64) (payout : Payout) : Prop where
  pooled : payout.fromProceeds = amount
  rest : payout.proceeds.toNat + amount.toNat = r.proceeds.toNat

/-- The changes that an accepted call may make to the round it is about. -/
inductive Allows (r : Auction) (bids : Ledger) (ctx : Context) : Call → Change → Outcome → Prop
  | placed {id amount timestamp proceeds} :
      r.TakesBid bids ctx amount timestamp proceeds →
      Allows r bids ctx (.placeBid id amount)
        (.placed id bids.size ⟨ctx.sender, timestamp, amount, false⟩ proceeds)
        (.bidPlaced (UInt32.ofNat bids.size))
  | raised {id index added bid amount timestamp proceeds} :
      r.TakesRaise bids ctx index added bid amount timestamp proceeds →
      Allows r bids ctx (.increaseBid id index added) (.raised id index amount timestamp proceeds)
        (.bidIncreased amount)
  | closed {id request next} :
      r.Closes ctx.now → (request = none ↔ bids.isEmpty = true) →
      Allows r bids ctx (.snuff id) (.closed id ⟨ctx.sender, ctx.now⟩ request) (.snuffed next)
  | drawn {id request word offset closeTime} :
      r.Draws ctx request word offset closeTime →
      Allows r bids ctx (.fulfillRandomness request word) (.drawn id word offset closeTime)
        (.closeResolved offset)
  | proposed {id encoding posted total entropy winners} :
      r.TakesProposal ctx encoding posted entropy winners →
      Allows r bids ctx (.proposeWinners id encoding posted total)
        (.proposed id (r.proposalFor ctx posted winners.length total)) .proposed
  | overturned {id encoding named disputed p entropy close winners reason balance} :
      r.Overturns bids ctx encoding named disputed p entropy close winners reason →
      Allows r bids ctx (.challenge id encoding named disputed)
        (.overturned id p ⟨disputed, reason⟩ ctx.sender balance) (.proposalOverturned reason)
  | claimed {id encoding position p entropy winners index bid item count} :
      r.Claims bids ctx.now encoding position p entropy winners index bid →
      exactSucc r.claimedWinners = .ok count →
      Allows r bids ctx (.claimWinningBid id encoding position)
        (.claimed id index item bid.bidder count) (.itemSettled item)
  | withdrawn {id encoding index p entropy winners bid payout} :
      r.Withdraws bids ctx encoding index p entropy winners bid → r.Spends bid.amount payout →
      Allows r bids ctx (.withdrawBid id encoding index) (.withdrawn id index payout)
        (.paid bid.amount)
  | snuffBountyPaid {id p payout} :
      r.Settles ctx.now p → p.snuffBountyClaimed = false → r.Spends p.snuffBounty payout →
      Allows r bids ctx (.claimSnuffBounty id) (.snuffBountyPaid id payout) (.paid p.snuffBounty)
  | proposalBountyPaid {id p payout paid} :
      r.Settles ctx.now p → p.proposalBountyClaimed = false → r.Spends p.proposalBounty payout →
      UInt64.toNat paid = p.proposalBounty.toNat + p.deposit.toNat →
      Allows r bids ctx (.claimProposalBounty id) (.proposalBountyPaid id payout) (.paid paid)
  | proceedsMoved {id p bounties payout} :
      r.Settles ctx.now p → r.fundsMoved = false →
      UInt64.toNat bounties = p.snuffBounty.toNat + p.proposalBounty.toNat →
      r.Spends (saturatingSub p.total bounties) payout →
      Allows r bids ctx (.transferProceeds id) (.proceedsMoved id payout)
        (.paid (saturatingSub p.total bounties))

end Auction

/-- The round that a call names. Entropy is delivered to a request instead. -/
def Call.round? : Call → Option UInt64
  | placeBid id _ | increaseBid id .. | snuff id | proposeWinners id .. | challenge id ..
  | claimWinningBid id .. | withdrawBid id .. | claimSnuffBounty id | claimProposalBounty id
  | transferProceeds id => some id
  | fulfillRandomness .. | updateSettings _ => none

theorem Auction.Allows.named {r : Auction} {bids : Ledger} {ctx : Context} {call : Call}
    {change : Change} {outcome : Outcome} {id other : UInt64}
    (allowed : r.Allows bids ctx call change outcome)
    (about : change.round? = some id) (named : call.round? = some other) : other = id := by
  cases allowed <;> cases about <;> cases named <;> rfl

/-- The round that a call is about. Entropy is for the round that its request was made for. -/
def House.addressee? (h : House) : Call → Option UInt64
  | .fulfillRandomness request _ => h.requests[request]?
  | call => call.round?

theorem House.addressee?_of_round? {h : House} {call : Call} {id : UInt64}
    (named : call.round? = some id) : h.addressee? call = some id := by
  cases call with
  | fulfillRandomness => cases named
  | _ => exact named

/-- The changes of a granted call, sorted by what they do to the set of rounds. -/
inductive Carries (h : House) (ctx : Context) (c : Collaborators) (call : Call)
    (outcome : Outcome) : List Change → Prop
  | change {id r change} :
      Change.round? change = some id → h.auction? id = some r →
      r.Allows (h.ledger id) ctx call change outcome → h.addressee? call = some id →
      Carries h ctx c call outcome [change]
  | renewal {id r change nextId} :
      Change.round? change = some id → h.auction? id = some r →
      r.Allows (h.ledger id) ctx call change outcome →
      UInt64.toNat nextId = h.nextId.toNat + 1 → h.addressee? call = some id →
      Carries h ctx c call outcome
        [change, .opened (h.nextRound ctx.now ⟨ctx.gasPrice, ctx.now⟩ c.settlementGas) nextId]
  | configured {settings} :
      Settings.Valid settings → call.round? = none → h.addressee? call = none →
      Carries h ctx c call outcome [.configured settings]

theorem House.Pays.spends {h : House} {r : Auction} {recipient : Address}
    {fromProceeds fromDeposit : UInt64} {payout : Payout}
    (pays : h.Pays r recipient fromProceeds fromDeposit payout) : r.Spends fromProceeds payout :=
  ⟨pays.pooled, pays.rest⟩

theorem Grants.carries {h : House} {ctx : Context} {c : Collaborators} {call : Call}
    {changes : List Change} {outcome : Outcome} (grant : Grants h ctx c call changes outcome) :
    Carries h ctx c call outcome changes := by
  cases grant with
  | placeBid found g => exact .change rfl found (.placed g) rfl
  | increaseBid found g => exact .change rfl found (.raised g) rfl
  | snuff found closes _ asks _ next => exact .renewal rfl found (.closed closes asks) next rfl
  | fulfillRandomness _ known found g => exact .change rfl found (.drawn g) known
  | proposeWinners found g => exact .change rfl found (.proposed g) rfl
  | challenge found g _ => exact .change rfl found (.overturned g) rfl
  | claimWinningBid found g _ counted => exact .change rfl found (.claimed g counted) rfl
  | withdrawBid found g pays => exact .change rfl found (.withdrawn g pays.spends) rfl
  | claimSnuffBounty found g unclaimed _ pays =>
      exact .change rfl found (.snuffBountyPaid g unclaimed pays.spends) rfl
  | claimProposalBounty found g unclaimed pays paid =>
      exact .change rfl found (.proposalBountyPaid g unclaimed pays.spends paid) rfl
  | transferProceeds found g unmoved bounties pays =>
      exact .change rfl found (.proceedsMoved g unmoved bounties pays.spends) rfl
  | updateSettings _ valid => exact .configured valid rfl rfl

theorem Carries.allows {h : House} {ctx : Context} {c : Collaborators} {call : Call}
    {changes : List Change} {outcome : Outcome} {id : UInt64}
    (carries : Carries h ctx c call outcome changes) (addressed : h.addressee? call = some id) :
    ∃ r, h.auction? id = some r ∧ ∃ change ∈ changes, change.round? = some id ∧
      r.Allows (h.ledger id) ctx call change outcome := by
  cases carries with
  | change about found allowed same | renewal about found allowed _ same =>
      cases addressed.symm.trans same
      exact ⟨_, found, _, List.mem_cons_self, about, allowed⟩
  | configured _ _ none => cases addressed.symm.trans none

namespace House

/-- Rounds are kept under their numbers, in use up to the next one. -/
structure Orderly (h : House) : Prop where
  valid : h.settings.Valid
  numbered : ∀ {id r}, h.auction? id = some r → r.id = id ∧ id.toNat < h.nextId.toNat
  blank : ∀ {id}, h.auction? id = none → h.ledger id = #[]

variable {h : House} {id : UInt64} {r : Auction} {change : Change}

theorem Orderly.unused (orderly : h.Orderly) : h.auction? h.nextId = none := by
  cases found : h.auction? h.nextId with
  | none => rfl
  | some r => exact absurd (orderly.numbered found).2 (Nat.lt_irrefl _)

@[simp]
theorem revise_id : (change.revise r).id = r.id := (congrArg Auction.id Change.origin_revise :)

@[simp]
theorem nextRound_id {startTime : UInt64} {fee : FeeObservation} {settlementGas : UInt64} :
    (h.nextRound startTime fee settlementGas).id = h.nextId := rfl

theorem Orderly.apply (orderly : h.Orderly) (about : change.round? = some id)
    (found : h.auction? id = some r) : (change.apply h).Orderly where
  valid := by
    rw [Change.settings_apply about]
    exact orderly.valid
  numbered := by
    intro other r' found'
    rw [Change.nextId_apply about]
    rcases Change.auction?_apply_cases about found found' with ⟨rfl, rfl⟩ | ⟨-, before⟩
    · rw [revise_id]
      exact orderly.numbered found
    · exact orderly.numbered before
  blank := by
    intro other absent
    have ne : other ≠ id := by
      rintro rfl
      simp [Change.auction?_apply about found] at absent
    rw [Change.auction?_apply_of_ne about ne] at absent
    rw [Change.ledger_apply_of_ne about ne]
    exact orderly.blank absent

theorem Orderly.opened (orderly : h.Orderly) {startTime : UInt64} {fee : FeeObservation}
    {settlementGas nextId : UInt64} (next : nextId.toNat = h.nextId.toNat + 1) :
    ((Change.opened (h.nextRound startTime fee settlementGas) nextId).apply h).Orderly where
  valid := orderly.valid
  numbered := by
    intro other r' found'
    have nextId_eq : ((Change.opened (h.nextRound startTime fee settlementGas) nextId).apply
      h).nextId = nextId := rfl
    rw [nextId_eq, next]
    rcases Change.auction?_apply_opened_cases found' with ⟨rfl, rfl⟩ | ⟨-, before⟩
    · exact ⟨rfl, Nat.lt_succ_self _⟩
    · obtain ⟨number, bound⟩ := orderly.numbered before
      exact ⟨number, Nat.lt_succ_of_lt bound⟩
  blank := by
    intro other absent
    rw [Change.auction?_apply_opened] at absent
    rw [Change.ledger_apply_opened]
    split at absent
    · cases absent
    · rename_i ne
      rw [if_neg ne]
      exact orderly.blank absent

theorem Orderly.configured (orderly : h.Orderly) {settings : Settings} (valid : settings.Valid) :
    ((Change.configured settings).apply h).Orderly where
  valid := valid
  numbered := orderly.numbered
  blank := orderly.blank

theorem nextRound_apply (about : change.round? = some id) {startTime : UInt64}
    {fee : FeeObservation} {settlementGas : UInt64} :
    (change.apply h).nextRound startTime fee settlementGas =
      h.nextRound startTime fee settlementGas := by
  rw [nextRound, Change.nextId_apply about, Change.settings_apply about]
  rfl

theorem Orderly.carry {ctx : Context} {c : Collaborators} {call : Call} {outcome : Outcome}
    {changes : List Change} (orderly : h.Orderly)
    (carries : Carries h ctx c call outcome changes) :
    (changes.foldl Change.apply h).Orderly := by
  cases carries with
  | change about found _ => exact orderly.apply about found
  | @renewal id r change nextId about found _ next =>
      have closed := orderly.apply about found
      rw [List.foldl_cons, ← nextRound_apply about]
      exact closed.opened (by rw [next, Change.nextId_apply about])
  | configured valid _ => exact orderly.configured valid

end House

namespace Genesis

variable {g : Genesis} {settlementGas : UInt64} {h : House}

theorem valid_of_problem? (none : g.problem? = none) : g.settings.Valid := by
  unfold problem? at none
  iterate 3
    split at none
    · cases none
  rwa [Option.map_eq_none_iff, Settings.problem?_eq_none_iff] at none

theorem found_eq_ok :
    g.found settlementGas = .ok h ↔
      g.problem? = none ∧ h = (g.firstRound settlementGas).apply g.house := by
  unfold found
  cases g.problem? <;> simp [eq_comm]

theorem first_of_found {id : UInt64} {r : Auction} (founded : g.found settlementGas = .ok h)
    (found : h.auction? id = some r) : id = 1 ∧ r.phase = .running := by
  obtain ⟨-, rfl⟩ := found_eq_ok.mp founded
  rcases Change.auction?_apply_opened_cases found with ⟨rfl, rfl⟩ | ⟨-, absent⟩
  · exact ⟨rfl, rfl⟩
  · simp [house, House.empty, House.auction?] at absent

theorem orderly_house (valid : g.settings.Valid) : g.house.Orderly where
  valid := valid
  numbered := by
    intro id r found
    simp [house, House.empty, House.auction?] at found
  blank := by
    intro id _
    simp [house, House.empty, House.ledger]

theorem orderly_of_found (founded : g.found settlementGas = .ok h) : h.Orderly := by
  obtain ⟨none, rfl⟩ := found_eq_ok.mp founded
  exact (orderly_house (valid_of_problem? none)).opened rfl

end Genesis

end CandleAuction
