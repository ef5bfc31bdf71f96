import CandleAuction.Proofs.Bounty
import CandleAuction.Proofs.Disclosure
import CandleAuction.Proofs.Finality
import CandleAuction.Proofs.Ranking.Refunds
import CandleAuction.Proofs.Rules.Payouts

/-!
# Solvency of rightly proposed rounds

If the list posted for a round names the canonical winners and the declared
total is what they raise, then the proceeds are at any time exactly what is
still owed: refunds to losers, bounties, and the rest to the beneficiary. So
every settlement can be paid, in any order, and nothing is left over.
-/

namespace CandleAuction

/-- An amount that is due until it is paid. -/
def due (paid : Bool) (amount : Nat) : Nat := bif paid then 0 else amount

@[simp]
theorem due_true {amount : Nat} : due true amount = 0 := rfl

@[simp]
theorem due_false {amount : Nat} : due false amount = amount := rfl

namespace Auction

/-- What a round still owes, given its proposal and its winners. -/
def owed (r : Auction) (p : Proposal) (bids : Ledger) (winners : List UInt32) : Nat :=
  bids.refunds winners + due p.snuffBountyClaimed p.snuffBounty.toNat +
    due p.proposalBountyClaimed p.proposalBounty.toNat +
    due r.fundsMoved (p.total.toNat - p.snuffBounty.toNat - p.proposalBounty.toNat)

/-- The live proposal is behind the canonical winners and what they raise. -/
structure RightlyProposed (r : Auction) (bids : Ledger) (encoding : List UInt8) (p : Proposal)
    (winners : List UInt32) : Prop where
  live : r.proposal = some p
  listed : r.settings.indexWidth.unpack encoding = .ok winners
  correct : ∃ close, r.closeOffset = some close ∧
    (⟨winners, p.total⟩ : Claim).Correct bids close r.settings.maxWinners

variable {r r' : Auction} {bids bids' : Ledger} {ctx : Context} {call : Call} {change : Change}
  {outcome : Outcome} {encoding : List UInt8} {p : Proposal} {winners : List UInt32}

theorem RightlyProposed.settled (right : r.RightlyProposed bids encoding p winners)
    (settled : r.Settled r') (cleared : bids'.cleared = bids.cleared) :
    ∃ p', p'.terms = p.terms ∧ r'.RightlyProposed bids' encoding p' winners := by
  obtain ⟨p', live, terms⟩ := settled.live right.live
  obtain ⟨close, resolved, correct⟩ := right.correct
  obtain ⟨settings, -, offset⟩ := eq_of_frozen settled.frozen
  have total : p'.total = p.total := (congrArg Proposal.total terms :)
  refine ⟨p', terms, live, by rw [settings]; exact right.listed, close, offset.trans resolved, ?_⟩
  rw [settings, total]
  exact correct.of_cleared cleared

theorem Coherent.bounties_le (coherent : r.Coherent bids) (live : r.proposal = some p) :
    p.snuffBounty.toNat + p.proposalBounty.toNat ≤ p.total.toNat := by
  have backed := coherent.backed live
  have le := Bounties.ofTotal_le_total r.settings r.minBid r.fee.gasPrice p.total
  rwa [← backed.bounties] at le

theorem Untouched.proceeds_eq_owed (untouched : r.Untouched bids) (coherent : r.Coherent bids)
    (right : r.RightlyProposed bids encoding p winners) :
    r.proceeds.toNat = r.owed p bids winners := by
  obtain ⟨close, -, correct⟩ := right.correct
  have covered := coherent.bounties_le right.live
  have worth := correct.worth_eq coherent.indexed untouched.unsettled
  have unpaid := untouched.unpaid p right.live
  have snuff : false = p.snuffBountyClaimed := (congrArg Proposal.snuffBountyClaimed unpaid :)
  have proposal : false = p.proposalBountyClaimed :=
    (congrArg Proposal.proposalBountyClaimed unpaid :)
  simp only [owed, ← snuff, ← proposal, untouched.unmoved, untouched.pooled, worth,
    due_false]
  omega

/-- A settlement takes out of the proceeds what it takes off the debts. -/
theorem Allows.proceeds_eq_owed (allowed : r.Allows bids ctx call change outcome)
    (final : r.phaseAt ctx.now = .ok .finalized) (live : r.proposal = some p)
    (listed : ∀ encoding', call.resubmits? = some encoding' →
      r.settings.indexWidth.unpack encoding' = .ok winners)
    (exact : r.proceeds.toNat = r.owed p bids winners) {p' : Proposal}
    (live' : (change.revise r).proposal = some p') :
    (change.revise r).proceeds.toNat = (change.revise r).owed p' (change.enter bids) winners := by
  have settles := allowed.settles final
  cases allowed with
  | placed | raised | closed | drawn | proposed | overturned => cases settles
  | claimed g =>
      cases live.symm.trans live'
      cases (listed _ rfl).symm.trans g.listed
      have same := Ledger.refunds_settle_winner g.found (List.mem_of_getElem? g.winner)
      simp only [owed, Change.revise, Change.enter, same] at exact ⊢
      exact exact
  | withdrawn g spends =>
      cases live.symm.trans live'
      cases (listed _ rfl).symm.trans g.listed
      have less := Ledger.refunds_settle_loser g.found g.loser g.unprocessed
      have rest := spends.rest
      simp only [owed, Change.revise, Change.enter] at exact ⊢
      omega
  | snuffBountyPaid g unclaimed spends =>
      cases live.symm.trans g.live
      rw [Change.revise, live, Option.map_some, Option.some.injEq] at live'
      subst live'
      have rest := spends.rest
      simp only [owed, Change.revise, Change.enter, unclaimed, due_true, due_false] at exact ⊢
      omega
  | proposalBountyPaid g unclaimed spends _ =>
      cases live.symm.trans g.live
      rw [Change.revise, live, Option.map_some, Option.some.injEq] at live'
      subst live'
      have rest := spends.rest
      simp only [owed, Change.revise, Change.enter, unclaimed, due_true, due_false] at exact ⊢
      omega
  | proceedsMoved g unmoved bounties spends =>
      cases live.symm.trans g.live
      cases live.symm.trans live'
      have rest := spends.rest
      rw [saturatingSub_toNat, bounties] at rest
      simp only [owed, Change.revise, Change.enter, unmoved, due_true, due_false] at exact ⊢
      omega

theorem refund_le_proceeds (exact : r.proceeds.toNat = r.owed p bids winners)
    (indexed : bids.Indexed) {index : UInt32} {bid : Bid}
    (found : bids[index.toNat]? = some bid) (loser : index ∉ winners)
    (unprocessed : bid.processed = false) : bid.amount ≤ r.proceeds := by
  have refund := Ledger.amount_le_refunds indexed found loser unprocessed
  rw [UInt64.le_iff_toNat_le, exact, owed]
  omega

theorem snuffBounty_le_proceeds (exact : r.proceeds.toNat = r.owed p bids winners)
    (unclaimed : p.snuffBountyClaimed = false) : p.snuffBounty ≤ r.proceeds := by
  rw [UInt64.le_iff_toNat_le, exact, owed, unclaimed, due_false]
  omega

theorem proposalBounty_le_proceeds (exact : r.proceeds.toNat = r.owed p bids winners)
    (unclaimed : p.proposalBountyClaimed = false) : p.proposalBounty ≤ r.proceeds := by
  rw [UInt64.le_iff_toNat_le, exact, owed, unclaimed, due_false]
  omega

theorem rest_le_proceeds (exact : r.proceeds.toNat = r.owed p bids winners)
    (unmoved : r.fundsMoved = false) :
    p.total.toNat - p.snuffBounty.toNat - p.proposalBounty.toNat ≤ r.proceeds.toNat := by
  rw [exact, owed, unmoved, due_false]
  omega

end Auction

namespace House

/-- A round is paid out when asked to: each debt once, from the time that it is final,
unless the balance that the payout goes to has no room for it. -/
structure Discharges (h : House) (id now : UInt64) (r : Auction) (encoding : List UInt8)
    (p : Proposal) (winners : List UInt32) : Prop where
  refund : ∀ {ctx : Context} {c : Collaborators} {index : UInt32} {bid : Bid}, now ≤ ctx.now →
    (h.ledger id)[index.toNat]? = some bid → bid.bidder = ctx.sender → index ∉ winners →
    bid.processed = false →
    (h.dispatch ctx c (.withdrawBid id encoding index)).PaysOut (h.balance ctx.sender)
      bid.amount.toNat
  snuffBounty : ∀ {ctx : Context} {c : Collaborators}, now ≤ ctx.now →
    p.snuffBountyClaimed = false → ∃ snuff, r.snuff = some snuff ∧
      (h.dispatch ctx c (.claimSnuffBounty id)).PaysOut (h.balance snuff.sender)
        p.snuffBounty.toNat
  proposalBounty : ∀ {ctx : Context} {c : Collaborators}, now ≤ ctx.now →
    p.proposalBountyClaimed = false →
    (h.dispatch ctx c (.claimProposalBounty id)).PaysOut (h.balance p.proposer)
      (p.proposalBounty.toNat + p.deposit.toNat)
  rest : ∀ {ctx : Context} {c : Collaborators}, now ≤ ctx.now → r.fundsMoved = false →
    (h.dispatch ctx c (.transferProceeds id)).PaysOut (h.balance h.beneficiary)
      (p.total.toNat - p.snuffBounty.toNat - p.proposalBounty.toNat)

variable {h : House} {id now : UInt64} {r : Auction} {encoding : List UInt8} {p : Proposal}
  {winners : List UInt32}

theorem discharges_of_exact (coherent : h.Coherent) (found : h.auction? id = some r)
    (final : r.phaseAt now = .ok .finalized)
    (right : r.RightlyProposed (h.ledger id) encoding p winners)
    (opened : r.OpenedBy (some encoding))
    (exact : r.proceeds.toNat = r.owed p (h.ledger id) winners) :
    h.Discharges id now r encoding p winners := by
  have round := coherent.rounds id r found
  have live := right.live
  have settles : ∀ {later : UInt64}, now ≤ later → r.Settles later p :=
    fun after => ⟨Auction.final_mono final after, live⟩
  obtain ⟨-, -, -, snuffed, -⟩ := round.proposed (round.proposed_of_final final)
  obtain ⟨snuff, closed⟩ := Option.isSome_iff_exists.mp snuffed
  constructor
  · intro ctx c index bid after entry owner loser unprocessed
    obtain ⟨_, entropy, same, drawn, opened⟩ := opened p live
    cases same
    exact withdrawBid_paysOut found
      ⟨⟨settles after, drawn, opened, right.listed⟩, entry, owner, loser, unprocessed⟩
      (Auction.refund_le_proceeds exact round.indexed entry loser unprocessed)
  · intro ctx c after unclaimed
    exact ⟨snuff, closed, claimSnuffBounty_paysOut found (settles after) unclaimed closed
      (Auction.snuffBounty_le_proceeds exact unclaimed)⟩
  · intro ctx c after unclaimed
    exact claimProposalBounty_paysOut found (settles after) unclaimed
      (Auction.proposalBounty_le_proceeds exact unclaimed)
  · intro ctx c after unmoved
    exact transferProceeds_paysOut found (settles after) unmoved (round.bounties_le live)
      (Auction.rest_le_proceeds exact unmoved)

theorem ne_insolvent_of_exact (coherent : h.Coherent) (found : h.auction? id = some r)
    (right : r.RightlyProposed (h.ledger id) encoding p winners)
    (exact : r.proceeds.toNat = r.owed p (h.ledger id) winners)
    {ctx : Context} {c : Collaborators} {call : Call} {required available : UInt64}
    (named : call.round? = some id) (settles : call.settles = true)
    (faithful : ∀ other entropy, call.resubmits? = some other → r.entropy = some entropy →
      commitment other entropy = p.commitment → other = encoding) :
    (h.dispatch ctx c call).result ≠ .error (.rejected (.insolvent required available)) := by
  intro refused
  have rejects : Ruling.Rejects Rejection.Insolvent (h.plan ctx c.settlementGas call) :=
    (rejects_dispatch (by simp [Rejection.Insolvent])).mp ⟨_, refused, _, _, rfl⟩
  have round := coherent.rounds id r found
  have live := right.live
  cases call with
  | claimWinningBid => exact not_rejects_claimWinningBid_insolvent rejects
  | withdrawBid round other index =>
      cases named
      obtain ⟨_, _, entropy, _, bid, again, g, short⟩ := withdrawBid_of_insolvent rejects
      cases found.symm.trans again
      cases live.symm.trans g.live
      cases faithful other entropy rfl g.drawn g.opened
      cases right.listed.symm.trans g.listed
      exact absurd short (UInt64.not_lt.mpr
        (Auction.refund_le_proceeds exact round.indexed g.found g.loser g.unprocessed))
  | claimSnuffBounty =>
      cases named
      obtain ⟨_, _, again, settles, unclaimed, short⟩ := claimSnuffBounty_of_insolvent rejects
      cases found.symm.trans again
      cases live.symm.trans settles.live
      exact absurd short (UInt64.not_lt.mpr (Auction.snuffBounty_le_proceeds exact unclaimed))
  | claimProposalBounty =>
      cases named
      obtain ⟨_, _, again, settles, unclaimed, short⟩ := claimProposalBounty_of_insolvent rejects
      cases found.symm.trans again
      cases live.symm.trans settles.live
      exact absurd short (UInt64.not_lt.mpr (Auction.proposalBounty_le_proceeds exact unclaimed))
  | transferProceeds =>
      cases named
      obtain ⟨_, _, bounties, again, settles, unmoved, sum, short⟩ :=
        transferProceeds_of_insolvent rejects
      cases found.symm.trans again
      cases live.symm.trans settles.live
      have rest := Auction.rest_le_proceeds exact unmoved
      rw [UInt64.lt_iff_toNat_lt, saturatingSub_toNat, sum] at short
      omega
  | _ => cases settles

end House

namespace Run

variable {g : Genesis} {settlementGas : UInt64} {start h : House} {past : List Served}
  {id : UInt64} {r : Auction} {encoding : List UInt8} {p : Proposal} {winners : List UInt32}

/-- While its live proposal is right, the proceeds of a round are what it owes. -/
theorem proceeds_eq_owed (founded : g.found settlementGas = .ok start) (run : Run start past h)
    (ordered : Chronological past) (found : h.auction? id = some r)
    (posted : posted? id past = some encoding)
    (faithful : ∀ s ∈ past, ∀ other, s.Resubmits id other → other = encoding)
    (right : r.RightlyProposed (h.ledger id) encoding p winners) :
    r.proceeds.toNat = r.owed p (h.ledger id) winners := by
  have founding := Genesis.coherent_of_found founded
  have each := run.each (motive := fun past r bids => Chronological past →
      posted? r.id past = some encoding →
      (∀ s ∈ past, ∀ other, s.Resubmits r.id other → other = encoding) →
      ∀ p, r.RightlyProposed bids encoding p winners → r.proceeds.toNat = r.owed p bids winners)
    founding.toOrderly
    (Genesis.each_of_found founded fun _ _ _ _ _ right => by cases right.live)
    (fun _ _ _ _ _ _ right => by cases right.live) (by
      intro past s id r r' bids' run found moves law ordered posted faithful p' right'
      obtain ⟨recent, ordered⟩ := List.pairwise_cons.mp ordered
      have number := run.numbered founding.toOrderly found
      cases moves with
      | rest still =>
          rw [posted?_cons, number, Served.posts?_of_still still, ← number] at posted
          exact law ordered posted (fun s member => faithful s (List.mem_cons_of_mem _ member))
            p' right'
      | @change change outcome accepted about allowed =>
          rw [House.revise_id] at posted faithful
          by_cases final : r.phaseAt s.now = .ok .finalized
          · obtain ⟨settled, cleared⟩ := allowed.settled final
            obtain ⟨p, -, right⟩ := right'.settled settled.symm cleared.symm
            have silent : s.posts? r.id = none := by
              rw [Served.posts?, accepted, Option.bind_some,
                Call.posts?_of_settles (allowed.settles final)]
            rw [posted?_cons, silent] at posted
            have exact := law ordered posted
              (fun s member => faithful s (List.mem_cons_of_mem _ member)) p right
            refine allowed.proceeds_eq_owed final right.live ?_ exact right'.live
            intro other resubmitted
            obtain ⟨round, named⟩ := Call.exists_round_of_settles (allowed.settles final)
            rw [allowed.named about named, ← number] at named
            rw [faithful s List.mem_cons_self other ⟨named, resubmitted, by rw [accepted]; rfl⟩]
            exact right.listed
          · have untouched := (run.decided founded ordered id r found).untouched recent final
            have coherent := (run.coherent founding).rounds id r found
            exact (untouched.allow allowed final).proceeds_eq_owed (coherent.allow allowed) right')
  have number := run.numbered founding.toOrderly found
  exact each id r found ordered (number ▸ posted) (number ▸ faithful) p right

/-- Once a round is final with a right proposal, its proceeds are at all times exactly what
it owes, whoever settles what and in which order. So no settlement finds it insolvent, all
that is due is paid, and nothing is left when everything is. -/
theorem final_round_solvent {later : List Served} {h' : House} {now : UInt64}
    (founded : g.found settlementGas = .ok start) (reached : Run start past h)
    (continued : Run h later h') (ordered : Chronological (later ++ past))
    (found : h.auction? id = some r) (final : r.phaseAt now = .ok .finalized)
    (after : ∀ s ∈ later, now ≤ s.now) (posted : posted? id past = some encoding)
    (right : r.RightlyProposed (h.ledger id) encoding p winners)
    (faithful : ∀ s ∈ later ++ past, ∀ other, s.Resubmits id other → other = encoding) :
    ∃ r' p', h'.auction? id = some r' ∧ r'.proposal = some p' ∧ p'.terms = p.terms ∧
      p'.snuffBounty.toNat + p'.proposalBounty.toNat ≤ p'.total.toNat ∧
      r'.proceeds.toNat = r'.owed p' (h'.ledger id) winners ∧
      (∀ {ctx : Context} {c : Collaborators} {call : Call} {required available : UInt64},
        call.round? = some id → call.settles = true →
        (∀ other entropy, call.resubmits? = some other → r'.entropy = some entropy →
          commitment other entropy = p'.commitment → other = encoding) →
        (h'.dispatch ctx c call).result ≠ .error (.rejected (.insolvent required available))) ∧
      h'.Discharges id now r' encoding p' winners ∧
      (p'.snuffBountyClaimed = true → p'.proposalBountyClaimed = true → r'.fundsMoved = true →
        (∀ (index : UInt32) (bid : Bid), (h'.ledger id)[index.toNat]? = some bid →
          index ∉ winners → bid.processed = true) → r'.proceeds = 0) := by
  have coherent := reached.coherent (Genesis.coherent_of_found founded)
  obtain ⟨r', found', settled, cleared, settling⟩ :=
    continued.settled coherent.toOrderly found final after
  obtain ⟨p', terms, right'⟩ := right.settled settled cleared
  have silent : ∀ s ∈ later, s.posts? id = none := by
    intro s member
    refine Served.posts?_eq_none fun named accepted => ?_
    exact Call.posts?_of_settles
      (settling s member (House.addressee?_of_round? named) accepted)
  have run := reached.append continued
  have posted' : posted? id (later ++ past) = some encoding := by
    rw [posted?_append_of_silent silent, posted]
  have exact := run.proceeds_eq_owed founded ordered found' posted' faithful right'
  have opened : r'.OpenedBy (some encoding) := posted' ▸ run.openedBy founded found'
  have coherent' := continued.coherent coherent
  have round := coherent'.rounds id r' found'
  refine ⟨r', p', found', right'.live, terms, round.bounties_le right'.live, exact,
    House.ne_insolvent_of_exact coherent' found' right' exact,
    House.discharges_of_exact coherent' found' (settled.phaseAt.trans final) right' opened exact,
    ?_⟩
  intro snuffed proposed moved refunded
  rw [Auction.owed, snuffed, proposed, moved,
    Ledger.refunds_eq_zero round.indexed refunded] at exact
  exact UInt64.toNat_inj.mp exact

/-- The sample round after the refund of its one loser. -/
theorem final_round_solvent_refunded :
    Sample.proposedRound.phaseAt 270000 = .ok .finalized ∧
      posted? 1 Sample.past = some [0, 0] ∧
      Sample.proposedRound.RightlyProposed (Sample.proposed.ledger 1) [0, 0] Sample.proposal [0] ∧
      ∃ r p, Sample.refunded.auction? 1 = some r ∧ r.proposal = some p ∧
        r.proceeds.toNat = r.owed p (Sample.refunded.ledger 1) [0] ∧
        Sample.refunded.Discharges 1 270000 r [0, 0] p [0] := by
  have final : Sample.proposedRound.phaseAt 270000 = .ok .finalized := rfl
  have after : ∀ s ∈ [(⟨Sample.proposed, Sample.refunding⟩ : Served)], 270000 ≤ s.now := by decide
  have posted : posted? 1 Sample.past = some [0, 0] := by
    have accepted := Served.outcome?_eq_some (s := ⟨Sample.drawn, Sample.proposing⟩).mpr
      (House.dispatch_of_grants Sample.grant_proposing).1
    rw [Sample.past, posted?_cons, Served.posts?, accepted]
    rfl
  have correct : (⟨[0], 5000⟩ : Claim).Correct
      #[⟨.fill 4, 10, 5000, false⟩, ⟨.fill 5, 20, 3000, false⟩] 251680 1 := ⟨by cbv, by cbv⟩
  have right : Sample.proposedRound.RightlyProposed (Sample.proposed.ledger 1) [0, 0]
      Sample.proposal [0] := ⟨rfl, rfl, 251680, rfl, correct⟩
  have faithful : ∀ s ∈ [⟨Sample.proposed, Sample.refunding⟩] ++ Sample.past,
      ∀ other ∈ s.request.call.resubmits?, other = [0, 0] := by decide
  obtain ⟨r, p, found, live, -, -, exact, -, discharges, -⟩ :=
    final_round_solvent (r := Sample.proposedRound) Sample.founded Sample.run_proposed
      Sample.run_refunded Sample.chronological rfl final after posted right
      fun s member other resubmits => faithful s member other resubmits.2.1
  exact ⟨final, posted, right, r, p, found, live, exact, discharges⟩

end Run

end CandleAuction
