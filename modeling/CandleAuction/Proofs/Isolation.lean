import CandleAuction.Proofs.Bids
import CandleAuction.Proofs.Deposits

/-!
# Rounds are isolated

An accepted call writes to the round it is about and to nothing else among the
rounds, but for the round that a closing opens under a number never used. What
a round was opened with stays, and so do the roles. A payout goes in full to
one account, and no account is ever charged.
-/

namespace CandleAuction

/-- The round that an accepted call opens. -/
def House.opens? (h : House) : Call → Option UInt64
  | .snuff _ => some h.nextId
  | _ => none

/-- What an accepted call about a round pays, and to whom. -/
def Auction.payment? (r : Auction) (bids : Ledger) (ctx : Context) (beneficiary : Address) :
    Call → Option (Address × Nat)
  | .challenge .. => r.proposal.map fun p => (ctx.sender, p.deposit.toNat)
  | .withdrawBid _ _ index =>
      bids[index.toNat]?.map fun bid => (ctx.sender, bid.amount.toNat)
  | .claimSnuffBounty _ => do return ((← r.snuff).sender, (← r.proposal).snuffBounty.toNat)
  | .claimProposalBounty _ => r.proposal.map fun p =>
      (p.proposer, p.proposalBounty.toNat + p.deposit.toNat)
  | .transferProceeds _ => r.proposal.map fun p =>
      (beneficiary, p.total.toNat - (p.snuffBounty.toNat + p.proposalBounty.toNat))
  | _ => none

namespace House

def payment? (h : House) (ctx : Context) (call : Call) : Option (Address × Nat) := do
  let id ← h.addressee? call
  (← h.auction? id).payment? (h.ledger id) ctx h.beneficiary call

/-- What an account gets of a payment. -/
def paid (h : House) (ctx : Context) (call : Call) (account : Address) : Nat :=
  (h.payment? ctx call).elim 0 fun payment => if payment.1 = account then payment.2 else 0

/-- What an accepted call may do outside the round it is about. -/
structure Isolates (h : House) (ctx : Context) (c : Collaborators) (call : Call) (h' : House) :
    Prop where
  elsewhere : ∀ id, h.addressee? call ≠ some id → h.opens? call ≠ some id → h.SameRound h' id
  opened : ∀ id, h.opens? call = some id → h.auction? id = none ∧ h.ledger id = #[] ∧
    h'.auction? id = some (h.nextRound ctx.now ⟨ctx.gasPrice, ctx.now⟩ c.settlementGas) ∧
    h'.ledgers[id]? = some #[]
  configured : h'.settings = h.settings ∨
    ctx.sender = h.admin ∧ call = .updateSettings h'.settings
  paying : (h.payment? ctx call).isSome = (call.paysOut || call.releases)
  credited : ∀ account,
    (h'.balance account).toNat = (h.balance account).toNat + h.paid ctx call account

variable {h : House} {ctx : Context} {c : Collaborators} {call : Call} {id : UInt64} {r : Auction}
  {change : Change} {changes : List Change} {outcome : Outcome} {account payee : Address}

theorem payment?_eq (addressed : h.addressee? call = some id) (found : h.auction? id = some r) :
    h.payment? ctx call = r.payment? (h.ledger id) ctx h.beneficiary call := by
  simp only [payment?, addressed, found, Option.bind_eq_bind, Option.bind_some]

theorem isolates_single (about : change.round? = some id) (addressed : h.addressee? call = some id)
    (unopened : h.opens? call = none)
    (paying : (h.payment? ctx call).isSome = (call.paysOut || call.releases))
    (credited : ∀ account, ((change.apply h).balance account).toNat =
      (h.balance account).toNat + h.paid ctx call account) :
    h.Isolates ctx c call ([change].foldl Change.apply h) where
  elsewhere := by
    intro other elsewhere _
    have ne : other ≠ id := by
      rintro rfl
      exact elsewhere addressed
    exact Change.sameRound_apply_of_ne about ne
  opened := by
    intro other opens
    cases unopened.symm.trans opens
  configured := .inl (Change.settings_apply about)
  paying := paying
  credited := credited

theorem paid_of_none (nothing : h.payment? ctx call = none) : h.paid ctx call account = 0 := by
  rw [paid, nothing, Option.elim_none]

section Single

variable (about : change.round? = some id) (addressed : h.addressee? call = some id)
  (found : h.auction? id = some r) (unopened : h.opens? call = none)

include about addressed found unopened

theorem isolates_of_unpaid (nothing : r.payment? (h.ledger id) ctx h.beneficiary call = none)
    (holds : (call.paysOut || call.releases) = false) (quiet : change.balance? = none) :
    h.Isolates ctx c call ([change].foldl Change.apply h) := by
  rw [← payment?_eq addressed found] at nothing
  refine isolates_single about addressed unopened (by rw [nothing, holds]; rfl) fun account => ?_
  rw [paid_of_none nothing, balance, Change.balances_apply, quiet]
  rfl

theorem isolates_of_paid {amount : Nat} {balance : UInt64}
    (payment : r.payment? (h.ledger id) ctx h.beneficiary call = some (payee, amount))
    (pays : (call.paysOut || call.releases) = true)
    (credits : change.balance? = some (payee, balance))
    (credited : balance.toNat = (h.balance payee).toNat + amount) :
    h.Isolates ctx c call ([change].foldl Change.apply h) := by
  rw [← payment?_eq addressed found] at payment
  refine isolates_single about addressed unopened (by rw [payment, pays]; rfl) fun account => ?_
  rw [Change.balance_apply credits, paid, payment, Option.elim_some]
  by_cases same : payee = account
  · rw [if_pos same, if_pos same, credited, same]
  · rw [if_neg same, if_neg same, Nat.add_zero]

theorem isolates_of_payout {fromProceeds fromDeposit : UInt64} {payout : Payout}
    (payment : r.payment? (h.ledger id) ctx h.beneficiary call =
      some (payee, fromProceeds.toNat + fromDeposit.toNat))
    (paysOut : call.paysOut = true) (pays : h.Pays r payee fromProceeds fromDeposit payout)
    (credits : change.balance? = some (payout.recipient, payout.balance)) :
    h.Isolates ctx c call ([change].foldl Change.apply h) := by
  rw [pays.payee] at credits
  exact isolates_of_paid about addressed found unopened payment (by rw [paysOut]; rfl) credits
    pays.credited

end Single

theorem isolates_of_renewal {snuff : Snuff} {request : Option UInt64} {nextId : UInt64}
    (orderly : h.Orderly) (found : h.auction? id = some r) :
    h.Isolates ctx c (.snuff id) ([.closed id snuff request,
      .opened (h.nextRound ctx.now ⟨ctx.gasPrice, ctx.now⟩ c.settlementGas) nextId].foldl
        Change.apply h) := by
  have about : (Change.closed id snuff request).round? = some id := rfl
  have nothing : h.payment? ctx (.snuff id) = none := payment?_eq rfl found
  rw [List.foldl_cons, List.foldl_cons, List.foldl_nil]
  constructor
  · intro other elsewhere unopened
    have closed : h.SameRound ((Change.closed id snuff request).apply h) other :=
      Change.sameRound_apply elsewhere (Option.some_ne_none other).symm
    exact closed.trans (Change.sameRound_apply (Option.some_ne_none other).symm unopened)
  · intro other opens
    cases opens
    rw [Change.auction?_apply_opened, Change.ledgers_apply_opened, nextRound_id, if_pos rfl,
      if_pos rfl]
    exact ⟨orderly.unused, orderly.blank orderly.unused, rfl, rfl⟩
  · exact .inl (Change.settings_apply about)
  · rw [nothing]
    rfl
  · intro account
    rw [paid_of_none nothing]
    cases request <;> rfl

end House

/-- What is granted stays with the round it is about. -/
theorem Grants.isolates {h : House} {ctx : Context} {c : Collaborators} {call : Call}
    {changes : List Change} {outcome : Outcome} (grant : Grants h ctx c call changes outcome)
    (orderly : h.Orderly) : h.Isolates ctx c call (changes.foldl Change.apply h) := by
  cases grant with
  | snuff found => exact House.isolates_of_renewal orderly found
  | fulfillRandomness _ known found g =>
      exact House.isolates_of_unpaid rfl known found rfl rfl rfl rfl
  | challenge found g credited =>
      exact House.isolates_of_paid rfl rfl found rfl (by rw [Auction.payment?, g.live]; rfl) rfl rfl
        credited
  | withdrawBid found g pays =>
      refine House.isolates_of_payout rfl rfl found rfl ?_ rfl pays rfl
      rw [Auction.payment?, g.found]
      rfl
  | claimSnuffBounty found g unclaimed closed pays =>
      refine House.isolates_of_payout rfl rfl found rfl ?_ rfl pays rfl
      rw [Auction.payment?, g.live, closed]
      rfl
  | claimProposalBounty found g unclaimed pays paid =>
      refine House.isolates_of_payout rfl rfl found rfl ?_ rfl pays rfl
      rw [Auction.payment?, g.live]
      rfl
  | transferProceeds found g unmoved bounties pays =>
      refine House.isolates_of_payout rfl rfl found rfl ?_ rfl pays rfl
      rw [Auction.payment?, g.live, saturatingSub_toNat, bounties]
      rfl
  | updateSettings admin valid =>
      refine ⟨fun _ _ _ => ⟨rfl, rfl⟩, fun id opens => ?_, .inr ⟨admin, rfl⟩, rfl, fun _ => rfl⟩
      cases opens
  | placeBid found | increaseBid found | proposeWinners found | claimWinningBid found =>
      exact House.isolates_of_unpaid rfl rfl found rfl rfl rfl rfl

/-- The three parties that may do more than bid. -/
def House.roles (h : House) : Address × Address × Address := (h.admin, h.beneficiary, h.oracle)

theorem House.roles_foldl {h : House} {changes : List Change} :
    (changes.foldl Change.apply h).roles = h.roles := by
  induction changes generalizing h with
  | nil => rfl
  | cons change changes inductionHypothesis =>
      rw [List.foldl_cons, inductionHypothesis]
      cases change with
      | closed _ _ request => cases request <;> rfl
      | _ => rfl

namespace Run

variable {g : Genesis} {settlementGas : UInt64} {start h : House} {past : List Served}
  {id : UInt64} {r : Auction}

theorem roles (run : Run start past h) : h.roles = start.roles :=
  run.invariant (motive := fun h => h.roles = start.roles) rfl fun _ same =>
    House.roles_foldl.trans same

theorem origin (run : Run start past h) (orderly : start.Orderly)
    (found : start.auction? id = some r) :
    ∃ r', h.auction? id = some r' ∧ r'.origin = r.origin := by
  refine run.follow (motive := fun _ r' _ => r'.origin = r.origin) orderly found rfl ?_
  intro past s r' r'' bids'' run found' moves same
  cases moves with
  | rest _ => exact same
  | change _ _ _ => exact Change.origin_revise.trans same

theorem balance_le (run : Run start past h) (orderly : start.Orderly) (account : Address) :
    start.balance account ≤ h.balance account := by
  refine run.induct (motive := fun _ h => start.balance account ≤ h.balance account)
    (UInt64.le_refl _) (fun _ _ holds => holds) ?_
  intro past h q changes outcome run _ grant holds
  have credited := (grant.isolates (run.orderly orderly)).credited account
  rw [UInt64.le_iff_toNat_le] at holds ⊢
  omega

/-- Whatever is called, by whom and when, rounds do not interfere. An accepted call leaves
every other round and its ledger as they were, opens at most one round beside them, and pays
exactly what it owes to one account. Only the admin changes the settings of rounds to come.
In the whole run no round loses what it was opened with, no account loses money, and the
roles stay as they were founded. -/
theorem rounds_are_isolated (founded : g.found settlementGas = .ok start)
    (run : Run start past h) :
    (∀ (ctx : Context) (c : Collaborators) (call : Call) (outcome : Outcome),
      (h.dispatch ctx c call).result = .ok outcome →
      h.Isolates ctx c call (h.dispatch ctx c call).house) ∧
    h.roles = (g.admin, g.beneficiary, g.oracle) ∧
    ∀ newer s older, past = newer ++ s :: older →
      (∀ id r, s.house.auction? id = some r →
        ∃ r', h.auction? id = some r' ∧ r'.origin = r.origin) ∧
      ∀ account, s.house.balance account ≤ h.balance account := by
  have initial := Genesis.orderly_of_found founded
  refine ⟨?_, ?_, ?_⟩
  · intro ctx c call outcome accepted
    obtain ⟨changes, grant⟩ := House.grants_of_dispatch accepted
    rw [(House.dispatch_of_grants grant).2]
    exact grant.isolates (run.orderly initial)
  · rw [run.roles]
    obtain ⟨-, rfl⟩ := Genesis.found_eq_ok.mp founded
    rfl
  · rintro newer s older rfl
    have met := run.before.orderly initial
    exact ⟨fun id r found => run.since.origin met found, run.since.balance_le met⟩

/-- The refund of the loser goes to the loser, and the running round does not notice. -/
theorem rounds_are_isolated_refunded :
    Sample.genesis.found 0 = .ok Sample.opened ∧ Run Sample.opened Sample.past Sample.proposed ∧
      Sample.proposed.payment? Sample.refunding.context Sample.refunding.call =
        some (.fill 5, 3000) ∧
      Sample.proposed.Isolates Sample.refunding.context Sample.refunding.parties
        Sample.refunding.call Sample.refunded := by
  obtain ⟨isolates, -, -⟩ := rounds_are_isolated Sample.founded Sample.run_proposed
  obtain ⟨accepted, after⟩ := House.dispatch_of_grants Sample.grant_refunding
  have confined := isolates _ _ _ _ accepted
  rw [after] at confined
  exact ⟨Sample.founded, Sample.run_proposed, rfl, confined⟩

end Run

end CandleAuction
