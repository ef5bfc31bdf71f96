import CandleAuction.Dispatch
import CandleAuction.Proofs.Change
import CandleAuction.Proofs.Rules.Closing
import CandleAuction.Proofs.Rules.Proposing
import CandleAuction.Proofs.Rules.Settling

/-!
# What the house grants

All that an accepted call can do is said here once: the conditions it met, the
changes it carried out in order, and its outcome. Laws of the house are shown
by cases on a grant, not by looking into the rules again.
-/

namespace CandleAuction

open Ruling

/-- An accepted call with the changes it carries out and its outcome. -/
inductive Grants (h : House) (ctx : Context) (c : Collaborators) :
    Call → List Change → Outcome → Prop
  | placeBid {id amount r timestamp proceeds} :
      h.auction? id = some r → r.TakesBid (h.ledger id) ctx amount timestamp proceeds →
      Grants h ctx c (.placeBid id amount)
        [.placed id (h.ledger id).size ⟨ctx.sender, timestamp, amount, false⟩ proceeds]
        (.bidPlaced (UInt32.ofNat (h.ledger id).size))
  | increaseBid {id index added r bid amount timestamp proceeds} :
      h.auction? id = some r →
      r.TakesRaise (h.ledger id) ctx index added bid amount timestamp proceeds →
      Grants h ctx c (.increaseBid id index added) [.raised id index amount timestamp proceeds]
        (.bidIncreased amount)
  /-- A request is made exactly if there are bids. -/
  | snuff {id r request nextId} :
      h.auction? id = some r → r.Closes ctx.now → h.FreeSlot ctx.now id →
      (request = none ↔ (h.ledger id).isEmpty = true) →
      (∀ answer ∈ request, c.request (Seed.randomness id r.startTime) = .ok answer) →
      UInt64.toNat nextId = h.nextId.toNat + 1 →
      Grants h ctx c (.snuff id)
        [.closed id ⟨ctx.sender, ctx.now⟩ request,
          .opened (h.nextRound ctx.now ⟨ctx.gasPrice, ctx.now⟩ c.settlementGas) nextId]
        (.snuffed h.nextId)
  | fulfillRandomness {request word id r offset closeTime} :
      ctx.sender = h.oracle → h.requests[request]? = some id → h.auction? id = some r →
      r.Draws ctx request word offset closeTime →
      Grants h ctx c (.fulfillRandomness request word) [.drawn id word offset closeTime]
        (.closeResolved offset)
  | proposeWinners {id encoding posted total r entropy winners} :
      h.auction? id = some r → r.TakesProposal ctx encoding posted entropy winners →
      Grants h ctx c (.proposeWinners id encoding posted total)
        [.proposed id (r.proposalFor ctx posted winners.length total)] .proposed
  | challenge {id encoding claimed disputed r p entropy close winners reason balance} :
      h.auction? id = some r →
      r.Overturns (h.ledger id) ctx encoding claimed disputed p entropy close winners reason →
      UInt64.toNat balance = (h.balance ctx.sender).toNat + p.deposit.toNat →
      Grants h ctx c (.challenge id encoding claimed disputed)
        [.overturned id p ⟨disputed, reason⟩ ctx.sender balance] (.proposalOverturned reason)
  | claimWinningBid {id encoding position r p entropy winners index bid item count} :
      h.auction? id = some r →
      r.Claims (h.ledger id) ctx.now encoding position p entropy winners index bid →
      c.settle bid.bidder (Seed.item entropy index) = .ok item →
      exactSucc r.claimedWinners = .ok count →
      Grants h ctx c (.claimWinningBid id encoding position)
        [.claimed id index item bid.bidder count] (.itemSettled item)
  | withdrawBid {id encoding index r p entropy winners bid payout} :
      h.auction? id = some r →
      r.Withdraws (h.ledger id) ctx encoding index p entropy winners bid →
      h.Pays r ctx.sender bid.amount 0 payout →
      Grants h ctx c (.withdrawBid id encoding index) [.withdrawn id index payout]
        (.paid bid.amount)
  | claimSnuffBounty {id r p snuff payout} :
      h.auction? id = some r → r.Settles ctx.now p → p.snuffBountyClaimed = false →
      r.snuff = some snuff → h.Pays r snuff.sender p.snuffBounty 0 payout →
      Grants h ctx c (.claimSnuffBounty id) [.snuffBountyPaid id payout] (.paid p.snuffBounty)
  | claimProposalBounty {id r p payout paid} :
      h.auction? id = some r → r.Settles ctx.now p → p.proposalBountyClaimed = false →
      h.Pays r p.proposer p.proposalBounty p.deposit payout →
      UInt64.toNat paid = p.proposalBounty.toNat + p.deposit.toNat →
      Grants h ctx c (.claimProposalBounty id) [.proposalBountyPaid id payout] (.paid paid)
  | transferProceeds {id r p bounties payout} :
      h.auction? id = some r → r.Settles ctx.now p → r.fundsMoved = false →
      UInt64.toNat bounties = p.snuffBounty.toNat + p.proposalBounty.toNat →
      h.Pays r h.beneficiary (saturatingSub p.total bounties) 0 payout →
      Grants h ctx c (.transferProceeds id) [.proceedsMoved id payout]
        (.paid (saturatingSub p.total bounties))
  | updateSettings {settings} :
      ctx.sender = h.admin → settings.Valid →
      Grants h ctx c (.updateSettings settings) [.configured settings] .settingsUpdated

namespace House

variable {h : House} {ctx : Context} {c : Collaborators} {call : Call} {plan : Plan}
  {outcome : Outcome} {changes : List Change}

theorem updateSettings_eq_ok {settings : Settings} :
    h.updateSettings ctx settings = .ok plan ↔
      ctx.sender = h.admin ∧ settings.Valid ∧
        plan = .change (.configured settings) .settingsUpdated := by
  simp only [updateSettings, bind_eq_ok, ensure_eq_ok, exists_const]
  refine and_congr_right fun _ => ?_
  rw [← Settings.problem?_eq_none_iff]
  cases settings.problem? with
  | none => simp [pure, Except.pure, eq_comm]
  | some problem => simp [reject]

theorem dispatch_of_change {change : Change}
    (planned : h.plan ctx c.settlementGas call = .ok (.change change outcome)) :
    (h.dispatch ctx c call).result = .ok outcome ∧
      (h.dispatch ctx c call).house = [change].foldl Change.apply h := by
  rw [dispatch, planned]
  exact ⟨rfl, rfl⟩

theorem dispatch_of_ask {inquiry : Inquiry} {next : UInt64 → Effect} {answer : UInt64}
    (planned : h.plan ctx c.settlementGas call = .ok (.ask inquiry next))
    (answered : c.answer inquiry = .ok answer) :
    h.dispatch ctx c call = h.perform ctx (next answer) (some (inquiry, .ok answer)) := by
  rw [dispatch, planned]
  simp only [answered]

theorem dispatch_of_declined {inquiry : Inquiry} {next : UInt64 → Effect}
    {error : CollaboratorError}
    (planned : h.plan ctx c.settlementGas call = .ok (.ask inquiry next))
    (declined : c.answer inquiry = .error error) :
    h.dispatch ctx c call =
      ⟨reject (.external error), h, some (inquiry, .error error), []⟩ := by
  rw [dispatch, planned]
  simp only [declined]

theorem closeAndReopen_eq {id : UInt64} {request : Option UInt64} {settlementGas nextId : UInt64}
    (next : nextId.toNat = h.nextId.toNat + 1) :
    h.closeAndReopen ctx settlementGas id request =
      ⟨[.closed id ⟨ctx.sender, ctx.now⟩ request,
        .opened (h.nextRound ctx.now ⟨ctx.gasPrice, ctx.now⟩ settlementGas) nextId],
        .ok (.snuffed h.nextId)⟩ := by
  have sum : exactAdd h.nextId 1 = .ok nextId := exactAdd_eq_ok.mpr next
  rw [closeAndReopen, sum]
  rfl

/-- What is granted is accepted, and carried out as said. -/
theorem dispatch_of_grants (grant : Grants h ctx c call changes outcome) :
    (h.dispatch ctx c call).result = .ok outcome ∧
      (h.dispatch ctx c call).house = changes.foldl Change.apply h := by
  cases grant with
  | placeBid found g =>
      exact dispatch_of_change (placeBid_eq_ok.mpr ⟨_, _, _, found, g, rfl⟩)
  | increaseBid found g =>
      exact dispatch_of_change (increaseBid_eq_ok.mpr ⟨_, _, _, _, _, found, g, rfl⟩)
  | @snuff id r request nextId found closes free asks answered next =>
      have planned : h.plan ctx c.settlementGas (.snuff id) = _ :=
        snuff_eq_ok.mpr ⟨r, found, closes, free, rfl⟩
      cases request with
      | none =>
          rw [if_pos (asks.mp rfl), closeAndReopen_eq next] at planned
          rw [dispatch, planned]
          exact ⟨rfl, rfl⟩
      | some answer =>
          rw [if_neg fun none => by simpa using asks.mpr none] at planned
          rw [dispatch_of_ask planned (answered answer rfl), closeAndReopen_eq next]
          exact ⟨rfl, rfl⟩
  | fulfillRandomness oracle known found g =>
      exact dispatch_of_change
        (fulfillRandomness_eq_ok.mpr ⟨_, _, _, _, oracle, known, found, g, rfl⟩)
  | proposeWinners found g =>
      exact dispatch_of_change (proposeWinners_eq_ok.mpr ⟨_, _, _, found, g, rfl⟩)
  | challenge found g credited =>
      exact dispatch_of_change
        (challenge_eq_ok.mpr ⟨_, _, _, _, _, _, _, found, g, credited, rfl⟩)
  | @claimWinningBid id encoding position _ _ _ _ _ _ _ _ found g settled counted =>
      have planned : h.plan ctx c.settlementGas (.claimWinningBid id encoding position) = _ :=
        claimWinningBid_eq_ok.mpr ⟨_, _, _, _, _, _, found, g, rfl⟩
      rw [dispatch_of_ask planned settled, counted]
      exact ⟨rfl, rfl⟩
  | withdrawBid found g pays =>
      exact dispatch_of_change (withdrawBid_eq_ok.mpr ⟨_, _, _, _, _, _, found, g, pays, rfl⟩)
  | claimSnuffBounty found g unclaimed closed pays =>
      exact dispatch_of_change
        (claimSnuffBounty_eq_ok.mpr ⟨_, _, _, _, found, g, unclaimed, closed, pays, rfl⟩)
  | claimProposalBounty found g unclaimed pays paid =>
      exact dispatch_of_change
        (claimProposalBounty_eq_ok.mpr ⟨_, _, _, _, found, g, unclaimed, pays, paid, rfl⟩)
  | transferProceeds found g unmoved bounties pays =>
      exact dispatch_of_change
        (transferProceeds_eq_ok.mpr ⟨_, _, _, _, found, g, unmoved, bounties, pays, rfl⟩)
  | updateSettings admin valid =>
      exact dispatch_of_change (updateSettings_eq_ok.mpr ⟨admin, valid, rfl⟩)

theorem result_of_act {effect : Effect}
    (planned : h.plan ctx c.settlementGas call = .ok (.act effect))
    (accepted : (h.dispatch ctx c call).result = .ok outcome) : effect.result = .ok outcome := by
  rw [dispatch, planned] at accepted
  exact exactly_eq_ok.mp accepted

theorem answer_of_ask {inquiry : Inquiry} {next : UInt64 → Effect}
    (planned : h.plan ctx c.settlementGas call = .ok (.ask inquiry next))
    (accepted : (h.dispatch ctx c call).result = .ok outcome) :
    ∃ answer, c.answer inquiry = .ok answer ∧ (next answer).result = .ok outcome := by
  cases answered : c.answer inquiry with
  | error error =>
      rw [dispatch_of_declined planned answered] at accepted
      cases accepted
  | ok answer =>
      rw [dispatch_of_ask planned answered] at accepted
      exact ⟨answer, rfl, exactly_eq_ok.mp accepted⟩

theorem closeAndReopen_result_eq_ok {id : UInt64} {request : Option UInt64}
    {settlementGas : UInt64} :
    (h.closeAndReopen ctx settlementGas id request).result = .ok outcome ↔
      outcome = .snuffed h.nextId ∧ ∃ nextId, exactAdd h.nextId 1 = .ok nextId := by
  unfold closeAndReopen
  cases exactAdd h.nextId 1 with
  | error fault => simp
  | ok nextId => simp [nextRound, Auction.opening, eq_comm]

theorem grants_of_snuff {id : UInt64}
    (planned : h.plan ctx c.settlementGas (.snuff id) = .ok plan)
    (accepted : (h.dispatch ctx c (.snuff id)).result = .ok outcome) :
    ∃ changes, Grants h ctx c (.snuff id) changes outcome := by
  obtain ⟨r, found, closes, free, rfl⟩ := snuff_eq_ok.mp planned
  split at planned
  · rename_i empty
    obtain ⟨rfl, nextId, next⟩ := closeAndReopen_result_eq_ok.mp (result_of_act planned accepted)
    exact ⟨_, .snuff found closes free (iff_of_true rfl empty) (by simp)
      (exactAdd_eq_ok.mp next)⟩
  · rename_i bids
    obtain ⟨answer, answered, closed⟩ := answer_of_ask planned accepted
    obtain ⟨rfl, nextId, next⟩ := closeAndReopen_result_eq_ok.mp closed
    exact ⟨_, .snuff found closes free (iff_of_false (Option.some_ne_none answer) bids)
      (fun _ same => Option.some.inj same ▸ answered) (exactAdd_eq_ok.mp next)⟩

theorem grants_of_claimWinningBid {id : UInt64} {encoding : List UInt8} {position : UInt32}
    (planned : h.plan ctx c.settlementGas (.claimWinningBid id encoding position) = .ok plan)
    (accepted : (h.dispatch ctx c (.claimWinningBid id encoding position)).result =
      .ok outcome) :
    ∃ changes, Grants h ctx c (.claimWinningBid id encoding position) changes outcome := by
  obtain ⟨r, p, entropy, winners, index, bid, found, g, rfl⟩ := claimWinningBid_eq_ok.mp planned
  obtain ⟨item, settled, claimed⟩ := answer_of_ask planned accepted
  cases counted : exactSucc r.claimedWinners with
  | error fault =>
      rw [counted] at claimed
      cases claimed
  | ok count =>
      rw [counted] at claimed
      cases claimed
      exact ⟨_, .claimWinningBid found g settled counted⟩

/-- What is accepted has been granted. -/
theorem grants_of_dispatch (accepted : (h.dispatch ctx c call).result = .ok outcome) :
    ∃ changes, Grants h ctx c call changes outcome := by
  have known : ∀ {change outcome'},
      h.plan ctx c.settlementGas call = .ok (.change change outcome') → outcome' = outcome := by
    intro change outcome' planned
    exact Except.ok.inj ((dispatch_of_change planned).1.symm.trans accepted)
  cases planned : h.plan ctx c.settlementGas call with
  | error halt =>
      rw [dispatch, planned] at accepted
      cases accepted
  | ok plan =>
      cases call with
      | placeBid id amount =>
          obtain ⟨r, timestamp, proceeds, found, g, rfl⟩ := placeBid_eq_ok.mp planned
          exact known planned ▸ ⟨_, .placeBid found g⟩
      | increaseBid id index added =>
          obtain ⟨r, bid, amount, timestamp, proceeds, found, g, rfl⟩ :=
            increaseBid_eq_ok.mp planned
          exact known planned ▸ ⟨_, .increaseBid found g⟩
      | snuff id => exact grants_of_snuff planned accepted
      | fulfillRandomness request word =>
          obtain ⟨id, r, offset, closeTime, oracle, requested, found, g, rfl⟩ :=
            fulfillRandomness_eq_ok.mp planned
          exact known planned ▸ ⟨_, .fulfillRandomness oracle requested found g⟩
      | proposeWinners id encoding posted total =>
          obtain ⟨r, entropy, winners, found, g, rfl⟩ := proposeWinners_eq_ok.mp planned
          exact known planned ▸ ⟨_, .proposeWinners found g⟩
      | challenge id encoding claimed disputed =>
          obtain ⟨r, p, entropy, close, winners, reason, balance, found, g, credited, rfl⟩ :=
            challenge_eq_ok.mp planned
          exact known planned ▸ ⟨_, .challenge found g credited⟩
      | claimWinningBid id encoding position => exact grants_of_claimWinningBid planned accepted
      | withdrawBid id encoding index =>
          obtain ⟨r, p, entropy, winners, bid, payout, found, g, pays, rfl⟩ :=
            withdrawBid_eq_ok.mp planned
          exact known planned ▸ ⟨_, .withdrawBid found g pays⟩
      | claimSnuffBounty id =>
          obtain ⟨r, p, snuff, payout, found, g, unclaimed, closed, pays, rfl⟩ :=
            claimSnuffBounty_eq_ok.mp planned
          exact known planned ▸ ⟨_, .claimSnuffBounty found g unclaimed closed pays⟩
      | claimProposalBounty id =>
          obtain ⟨r, p, payout, paid, found, g, unclaimed, pays, sum, rfl⟩ :=
            claimProposalBounty_eq_ok.mp planned
          exact known planned ▸ ⟨_, .claimProposalBounty found g unclaimed pays sum⟩
      | transferProceeds id =>
          obtain ⟨r, p, bounties, payout, found, g, unmoved, sum, pays, rfl⟩ :=
            transferProceeds_eq_ok.mp planned
          exact known planned ▸ ⟨_, .transferProceeds found g unmoved sum pays⟩
      | updateSettings settings =>
          obtain ⟨admin, valid, rfl⟩ := updateSettings_eq_ok.mp planned
          exact known planned ▸ ⟨_, .updateSettings admin valid⟩

theorem planned_of_asked {inquiry : Inquiry} {answer : Except CollaboratorError UInt64}
    (asked : (h.dispatch ctx c call).asked = some (inquiry, answer)) :
    (∃ next, h.plan ctx c.settlementGas call = .ok (.ask inquiry next)) ∧
      c.answer inquiry = answer := by
  unfold dispatch at asked
  split at asked
  · cases asked
  · cases asked
  · rename_i planned
    split at asked <;> rename_i answered <;> cases asked <;> exact ⟨⟨_, planned⟩, answered⟩

/-- Two kinds of calls ask somebody: a claim asks for a settlement, a snuff for randomness, the
latter only if there are bids. -/
theorem asks_cases {inquiry : Inquiry} {next : UInt64 → Effect} {settlementGas : UInt64}
    (planned : h.plan ctx settlementGas call = .ok (.ask inquiry next)) :
    (∃ winner seed id encoding position, inquiry = .settle winner seed ∧
        call = .claimWinningBid id encoding position) ∨
      ∃ seed id, inquiry = .randomness seed ∧ call = .snuff id ∧
        (h.ledger id).isEmpty = false := by
  cases call with
  | claimWinningBid =>
      obtain ⟨_, _, _, _, _, _, -, -, same⟩ := claimWinningBid_eq_ok.mp planned
      cases same
      exact .inl ⟨_, _, _, _, _, rfl, rfl⟩
  | snuff id =>
      obtain ⟨r, -, -, -, same⟩ := snuff_eq_ok.mp planned
      split at same
      · cases same
      · rename_i bids
        cases same
        exact .inr ⟨_, id, rfl, rfl, by simpa using bids⟩
  | _ =>
      simp [plan, placeBid_eq_ok, increaseBid_eq_ok, fulfillRandomness_eq_ok,
        proposeWinners_eq_ok, challenge_eq_ok, withdrawBid_eq_ok, claimSnuffBounty_eq_ok,
        claimProposalBounty_eq_ok, transferProceeds_eq_ok, updateSettings_eq_ok,
        Plan.change] at planned

theorem claims_of_settle {winner : Address} {seed : Word} {next : UInt64 → Effect}
    {settlementGas : UInt64}
    (planned : h.plan ctx settlementGas call = .ok (.ask (.settle winner seed) next)) :
    ∃ id encoding position, call = .claimWinningBid id encoding position := by
  rcases asks_cases planned with ⟨_, _, id, encoding, position, -, called⟩ | ⟨_, _, same, -⟩
  · exact ⟨id, encoding, position, called⟩
  · cases same

theorem rejected_cases {rejection : Rejection}
    (rejected : (h.dispatch ctx c call).result = .error (.rejected rejection)) :
    h.plan ctx c.settlementGas call = .error (.rejected rejection) ∨
      ∃ inquiry next error, h.plan ctx c.settlementGas call = .ok (.ask inquiry next) ∧
        c.answer inquiry = .error error ∧ rejection = .external error := by
  have performed : ∀ {effect asked}, (h.perform ctx effect asked).result ≠
      .error (.rejected rejection) := by
    intro effect asked
    simp only [perform]
    cases effect.result <;> simp [exactly]
  cases planned : h.plan ctx c.settlementGas call with
  | error halt =>
      rw [dispatch, planned] at rejected
      exact .inl (congrArg _ (Except.error.inj rejected))
  | ok plan =>
      cases plan with
      | act effect =>
          rw [dispatch, planned] at rejected
          exact absurd rejected performed
      | ask inquiry next =>
          cases answered : c.answer inquiry with
          | ok answer =>
              rw [dispatch_of_ask planned answered] at rejected
              exact absurd rejected performed
          | error error =>
              rw [dispatch_of_declined planned answered] at rejected
              cases rejected
              exact .inr ⟨inquiry, next, error, rfl, answered, rfl⟩

theorem house_of_rejected {rejection : Rejection}
    (rejected : (h.dispatch ctx c call).result = .error (.rejected rejection)) :
    (h.dispatch ctx c call).house = h := by
  rcases rejected_cases rejected with refused | ⟨inquiry, next, error, planned, declined, -⟩
  · rw [dispatch, refused]
  · rw [dispatch_of_declined planned declined]

end House

end CandleAuction
