import CandleAuction.Proofs.Conservation

/-!
# Settlement is final and deposits are released once

As long as the bounty of a live proposal is unclaimed, the deposit comes from
the last proposal accepted for its round, and nothing has released it since.
Both ways to release it end that, so no deposit is given away twice. From the
first settlement on neither the draw nor the terms of the proposal change.
-/

namespace CandleAuction

namespace Call

def proposes : Call → Bool
  | proposeWinners .. => true
  | _ => false

/-- The calls that give the deposit of a proposal to the challenger or back to the proposer. -/
def releases : Call → Bool
  | challenge .. | claimProposalBounty _ => true
  | _ => false

theorem not_releases_of_proposes {call : Call} (proposes : call.proposes = true) :
    ¬ call.releases = true := by
  cases call with
  | proposeWinners => nofun
  | _ => cases proposes

theorem exists_round_of_releases {call : Call} (releases : call.releases = true) :
    ∃ id, call.round? = some id := by
  cases call with
  | challenge | claimProposalBounty => exact ⟨_, rfl⟩
  | _ => cases releases

end Call

namespace House

/-- What an account gains between two states beyond what leaves the proceeds. -/
def freed (h h' : House) (account : Address) : Nat :=
  (h'.balance account).toNat - (h.balance account).toNat - (h.pooled - h'.pooled)

variable {h : House} {id : UInt64} {r : Auction} {change : Change} {ctx : Context}
  {c : Collaborators} {call : Call} {changes : List Change} {outcome : Outcome}
  {account payee : Address}

theorem freed_of_balances {h' : House} (same : h'.balances = h.balances) :
    h.freed h' account = 0 := by
  rw [freed, balance, balance, same, Nat.sub_self, Nat.zero_sub]

theorem freed_foldl_single {balance : UInt64} {spent released : Nat}
    (about : change.round? = some id) (found : h.auction? id = some r)
    (credits : change.balance? = some (payee, balance))
    (rest : (change.revise r).proceeds.toNat + spent = r.proceeds.toNat)
    (credited : balance.toNat = (h.balance payee).toNat + (spent + released)) :
    h.freed ([change].foldl Change.apply h) account = if payee = account then released else 0 := by
  have pool := mapTotal_auctions_apply (fun r => r.proceeds.toNat) about found
  rw [List.foldl_cons, List.foldl_nil, freed, Change.balance_apply credits, pooled, pooled]
  by_cases same : payee = account
  · subst same
    rw [if_pos rfl, if_pos rfl]
    omega
  · rw [if_neg same, if_neg same]
    omega

theorem freed_foldl_payout {fromProceeds fromDeposit : UInt64} {payout : Payout}
    (about : change.round? = some id) (found : h.auction? id = some r)
    (pays : h.Pays r payee fromProceeds fromDeposit payout)
    (credits : change.balance? = some (payout.recipient, payout.balance))
    (spends : (change.revise r).proceeds = payout.proceeds) :
    h.freed ([change].foldl Change.apply h) account =
      if payee = account then fromDeposit.toNat else 0 := by
  rw [pays.payee] at credits
  exact freed_foldl_single about found credits (spends ▸ pays.rest) pays.credited

theorem freed_foldl_settlement {fromProceeds : UInt64} {payout : Payout}
    (about : change.round? = some id) (found : h.auction? id = some r)
    (pays : h.Pays r payee fromProceeds 0 payout)
    (credits : change.balance? = some (payout.recipient, payout.balance))
    (spends : (change.revise r).proceeds = payout.proceeds) :
    h.freed ([change].foldl Change.apply h) account = 0 :=
  (freed_foldl_payout about found pays credits spends).trans (ite_self 0)

end House

namespace Grants

variable {h : House} {id : UInt64} {ctx : Context} {c : Collaborators} {call : Call}
  {changes : List Change} {outcome : Outcome}

theorem freed_eq_zero (grant : Grants h ctx c call changes outcome)
    (holds : call.releases = false) (account : Address) :
    h.freed (changes.foldl Change.apply h) account = 0 := by
  cases grant with
  | challenge | claimProposalBounty => cases holds
  | withdrawBid found _ pays => exact House.freed_foldl_settlement rfl found pays rfl rfl
  | claimSnuffBounty found _ _ _ pays =>
      exact House.freed_foldl_settlement rfl found pays rfl rfl
  | transferProceeds found _ _ _ pays =>
      exact House.freed_foldl_settlement rfl found pays rfl rfl
  | @snuff _ _ request => cases request <;> exact House.freed_of_balances rfl
  | _ => exact House.freed_of_balances rfl

/-- A release credits the deposit of the live proposal, and nothing else. -/
theorem freed_of_releases (grant : Grants h ctx c call changes outcome)
    (releases : call.releases = true) (addressed : h.addressee? call = some id) :
    ∃ r p payee, h.auction? id = some r ∧ r.proposal = some p ∧
      (r.phaseAt ctx.now = .ok .winnersProposed ∨ p.proposalBountyClaimed = false) ∧
      ((∃ encoding named disputed, call = .challenge id encoding named disputed) ∧
          payee = ctx.sender ∨
        call = .claimProposalBounty id ∧ payee = p.proposer) ∧
      ∀ account, h.freed (changes.foldl Change.apply h) account =
        if payee = account then p.deposit.toNat else 0 := by
  cases grant with
  | @challenge _ encoding named disputed r p _ _ _ _ _ found g credited =>
      cases addressed
      refine ⟨r, p, ctx.sender, found, g.live, .inl g.inTime,
        .inl ⟨⟨encoding, named, disputed, rfl⟩, rfl⟩, fun account => ?_⟩
      exact House.freed_foldl_single rfl found rfl (Nat.add_zero _) (by rw [credited, Nat.zero_add])
  | @claimProposalBounty _ r p _ _ found g unclaimed pays _ =>
      cases addressed
      exact ⟨r, p, p.proposer, found, g.live, .inr unclaimed, .inr ⟨rfl, rfl⟩,
        fun account => House.freed_foldl_payout rfl found pays rfl rfl⟩
  | _ => cases releases

end Grants

/-- A proposal is the last one accepted for its round, and its deposit has not been released. -/
def Served.Outstanding (t : Served) (id : UInt64) (past : List Served) : Prop :=
  t.Does Call.proposes id ∧ ∃ between before, past = between ++ t :: before ∧
    ∀ u ∈ between, ¬ u.Does Call.proposes id ∧ ¬ u.Does Call.releases id

theorem Served.Outstanding.later {t s : Served} {id : UInt64} {past : List Served}
    (outstanding : t.Outstanding id past) (proposes : ¬ s.Does Call.proposes id)
    (releases : ¬ s.Does Call.releases id) : t.Outstanding id (s :: past) := by
  rcases outstanding with ⟨proposed, between, before, rfl, quiet⟩
  exact ⟨proposed, s :: between, before, rfl,
    List.forall_mem_cons.mpr ⟨⟨proposes, releases⟩, quiet⟩⟩

theorem Served.Outstanding.mem_of_releases {t s : Served} {id : UInt64} {later past : List Served}
    (outstanding : t.Outstanding id (later ++ s :: past)) (releases : s.Does Call.releases id) :
    t ∈ later := by
  obtain ⟨proposes, between, before, split, quiet⟩ := outstanding
  have ne : s ≠ t := by
    rintro rfl
    exact absurd releases.2.1 (Call.not_releases_of_proposes proposes.2.1)
  rcases List.append_eq_append_iff.mp split with ⟨rest, rfl, same⟩ | ⟨rest, rfl, same⟩
  · cases rest with
    | nil => exact absurd (List.cons.inj same).1 ne
    | cons first rest =>
        cases same
        exact absurd releases (quiet s (by simp)).2
  · cases rest with
    | nil => exact absurd (List.cons.inj same).1.symm ne
    | cons first rest =>
        cases same
        simp

/-- The deposit of a proposal comes from the last one accepted for its round. -/
def Proposal.Held (p : Proposal) (id : UInt64) (past : List Served) : Prop :=
  ∃ t : Served, t.Outstanding id past ∧ p.proposer = t.request.context.sender ∧
    p.deposit = t.request.context.value

/-- A round holds the deposit of its live proposal until the bounty is claimed. -/
def Auction.Holds (past : List Served) (r : Auction) : Prop :=
  ∀ p, r.proposal = some p → p.proposalBountyClaimed = false → p.Held r.id past

theorem Auction.Holds.moves {past : List Served} {s : Served} {id : UInt64} {r r' : Auction}
    {bids' : Ledger} (holds : r.Holds past) (number : r.id = id) (moves : s.Moves id r r' bids') :
    r'.Holds (s :: past) := by
  subst number
  have later : ¬ s.Does Call.proposes r.id → ¬ s.Does Call.releases r.id → r.Holds (s :: past) :=
    fun proposes releases p live unclaimed =>
      (holds p live unclaimed).imp fun _ held => ⟨held.1.later proposes releases, held.2⟩
  cases moves with
  | rest still => exact later (s.not_does_of_still still) (s.not_does_of_still still)
  | change accepted about allowed =>
      obtain ⟨house, ctx, parties, call⟩ := s
      have later : call.proposes = false → call.releases = false →
          r.Holds (⟨house, ctx, parties, call⟩ :: past) := by
        intro proposes releases
        apply later
        · rintro ⟨-, does, -⟩
          simp [proposes] at does
        · rintro ⟨-, does, -⟩
          simp [releases] at does
      cases allowed with
      | @closed _ request => cases request <;> exact later rfl rfl
      | proposed g =>
          cases about
          intro p live _
          cases live
          have proposed : Served.Does ⟨house, ctx, parties, _⟩ Call.proposes r.id :=
            ⟨rfl, rfl, by rw [accepted]; rfl⟩
          exact ⟨_, ⟨proposed, [], past, rfl, List.forall_mem_nil _⟩, rfl, rfl⟩
      | overturned =>
          intro p live
          cases live
      | snuffBountyPaid =>
          intro paid marked unclaimed
          obtain ⟨p, live, rfl⟩ := Option.map_eq_some_iff.mp marked
          exact later rfl rfl p live unclaimed
      | proposalBountyPaid =>
          intro paid marked unclaimed
          obtain ⟨p, live, rfl⟩ := Option.map_eq_some_iff.mp marked
          cases unclaimed
      | _ => exact later rfl rfl

/-- What an account gains by a call beyond what leaves the proceeds. -/
def Served.freed (s : Served) (account : Address) : Nat := s.house.freed s.receipt.house account

/-- A call credits the deposit of a proposal to one account: a challenge to the challenger,
the bounty claim to the proposer. -/
def Served.Frees (s t : Served) (id : UInt64) : Prop :=
  ∃ payee,
    ((∃ encoding named disputed, s.request.call = .challenge id encoding named disputed) ∧
        payee = s.request.context.sender ∨
      s.request.call = .claimProposalBounty id ∧ payee = t.request.context.sender) ∧
    ∀ account, s.freed account = if payee = account then t.request.context.value.toNat else 0

theorem Served.freed_eq_zero {s : Served} (answered : s.Answered)
    (holds : ∀ id, ¬ s.Does Call.releases id) (account : Address) : s.freed account = 0 := by
  cases result : s.receipt.result with
  | error halt =>
      cases halt with
      | fault fault => exact absurd result (answered fault)
      | rejected rejection =>
          exact House.freed_of_balances (congrArg House.balances (House.house_of_rejected result))
  | ok outcome =>
      have accepted : s.outcome?.isSome = true := by rw [Served.outcome?_eq_some.mpr result]; rfl
      obtain ⟨changes, outcome, -, grant, after⟩ := Served.grants_of_isSome accepted
      rw [Served.freed, after]
      refine grant.freed_eq_zero ?_ account
      rw [Bool.eq_false_iff]
      intro releases
      obtain ⟨id, about⟩ := Call.exists_round_of_releases releases
      exact holds id ⟨House.addressee?_of_round? about, releases, accepted⟩

namespace Run

variable {g : Genesis} {settlementGas : UInt64} {start h : House} {past newer older : List Served}
  {s : Served} {id : UInt64}

theorem holds (founded : g.found settlementGas = .ok start) (run : Run start past h) :
    h.Each fun r _ => r.Holds past := by
  have orderly := Genesis.orderly_of_found founded
  refine run.each (motive := fun past r _ => r.Holds past) orderly
    (Genesis.each_of_found founded fun _ _ live => by cases live)
    (fun _ _ _ live => by cases live) ?_
  intro past s id r r' bids' run found moves holds
  exact holds.moves (run.numbered orderly found) moves

/-- A release gives away the deposit of the last proposal, which no call has released yet. -/
theorem released (founded : g.found settlementGas = .ok start)
    (run : Run start (newer ++ s :: older) h) (ordered : Chronological (newer ++ s :: older))
    (releases : s.Does Call.releases id) :
    ∃ t : Served, t.Outstanding id older ∧ s.Frees t id := by
  have before := run.before
  obtain ⟨ordered, recent⟩ := ordered.before
  obtain ⟨about, releases, accepted⟩ := releases
  obtain ⟨changes, outcome, -, grant, after⟩ := Served.grants_of_isSome accepted
  obtain ⟨r, p, payee, found, live, pending, paid, freed⟩ := grant.freed_of_releases releases about
  have unclaimed : p.proposalBountyClaimed = false := by
    rcases pending with inTime | unclaimed
    · exact before.unclaimed founded ordered recent found inTime live
    · exact unclaimed
  have number := before.numbered (Genesis.orderly_of_found founded) found
  obtain ⟨t, outstanding, proposer, deposit⟩ :=
    number ▸ before.holds founded id r found p live unclaimed
  refine ⟨t, outstanding, payee, proposer ▸ paid, fun account => ?_⟩
  rw [← deposit, Served.freed, after]
  exact freed account

/-- From its first settlement on a round is settled only. -/
theorem settled_since (founded : g.found settlementGas = .ok start)
    (run : Run start (newer ++ s :: older) h) (ordered : Chronological (newer ++ s :: older))
    (settles : s.Does Call.settles id) :
    ∃ r p r' p', s.house.auction? id = some r ∧ r.proposal = some p ∧
      h.auction? id = some r' ∧ r'.proposal = some p' ∧ p'.terms = p.terms ∧
      r'.entropy = r.entropy ∧ r'.closeOffset = r.closeOffset ∧
      ∀ t ∈ newer, t.round? = some id → t.outcome?.isSome = true →
        t.request.call.settles = true := by
  have coherent := run.before.coherent (Genesis.coherent_of_found founded)
  obtain ⟨about, settles, accepted⟩ := settles
  obtain ⟨changes, outcome, -, grant, -⟩ := Served.grants_of_isSome accepted
  obtain ⟨r, found, change, -, -, allowed⟩ := grant.carries.allows about
  have final : r.phaseAt s.now = .ok .finalized := by
    by_contra notFinal
    exact absurd (settles.symm.trans (allowed.settles_eq_false notFinal)) nofun
  obtain ⟨r', found', settled, -, settling⟩ :=
    run.since.settled coherent.toOrderly found final ordered.since
  have round := coherent.rounds id r found
  obtain ⟨-, -, -, -, p, live, -⟩ := round.proposed (round.proposed_of_final final)
  obtain ⟨p', live', terms⟩ := settled.live live
  obtain ⟨-, entropy, closeOffset⟩ := Auction.eq_of_frozen settled.frozen
  exact ⟨r, p, r', p', found, live, found', live', terms, entropy, closeOffset,
    fun t member => settling t (List.mem_append_left _ member)⟩

/-- Once a settlement of a round has been accepted, only settlements of it are, and the
draw and the terms of the proposal stay as they are. A challenge or bounty claim credits
the deposit of the last proposal, to the challenger or to the proposer. Before the next
of them another proposal is accepted, so no deposit is credited twice; and no other call
credits more than what leaves the proceeds. -/
theorem settlement_is_final (founded : g.found settlementGas = .ok start) (run : Run start past h)
    (ordered : Chronological past) :
    (∀ {newer older s id}, past = newer ++ s :: older → s.Does Call.settles id →
      ∃ r p r' p', s.house.auction? id = some r ∧ r.proposal = some p ∧
        h.auction? id = some r' ∧ r'.proposal = some p' ∧ p'.terms = p.terms ∧
        r'.entropy = r.entropy ∧ r'.closeOffset = r.closeOffset ∧
        ∀ t ∈ newer, t.round? = some id → t.outcome?.isSome = true →
          t.request.call.settles = true) ∧
    (∀ {newer older s id}, past = newer ++ s :: older → s.Does Call.releases id →
      ∃ t : Served, t.Outstanding id older ∧ s.Frees t id) ∧
    (∀ {newer middle older s s' id}, past = newer ++ s' :: (middle ++ s :: older) →
      s'.Does Call.releases id → s.Does Call.releases id →
      ∃ t ∈ middle, t.Does Call.proposes id) ∧
    ∀ s ∈ past, (∀ id, ¬ s.Does Call.releases id) → ∀ account, s.freed account = 0 := by
  refine ⟨?_, ?_, ?_, fun s member => Served.freed_eq_zero (run.answered s member)⟩
  · rintro newer older s id rfl settles
    exact run.settled_since founded ordered settles
  · rintro newer older s id rfl releases
    exact run.released founded ordered releases
  · rintro newer middle older s s' id rfl releases' releases
    obtain ⟨t, outstanding, -⟩ := run.released founded ordered releases'
    exact ⟨t, outstanding.mem_of_releases releases, outstanding.1⟩

end Run

namespace Sample

/-- The proposal bounty is claimed after the refund. -/
def redeeming : Request := request 9 270010 0 (.claimProposalBounty 1)

def repayment : Payout := ⟨.fill 8, 2000, 1000000, 3000, 1002000⟩

def redeemed : House := [.proposalBountyPaid 1 repayment].foldl Change.apply refunded

theorem grant_redeeming :
    Grants refunded redeeming.context redeeming.parties redeeming.call
      [.proposalBountyPaid 1 repayment] (.paid 1002000) :=
  have empty : refunded.balance (.fill 8) = 0 := by decide +kernel
  have pays : refunded.Pays refundedRound (.fill 8) 2000 1000000 repayment :=
    ⟨rfl, rfl, rfl, rfl, by rw [empty]; rfl⟩
  .claimProposalBounty (r := refundedRound) (p := proposal) rfl ⟨rfl, rfl⟩ rfl pays rfl

end Sample

/-- The sample round after the refund and the bounty: the proposer has its deposit back. -/
theorem Run.settlement_is_final_redeemed :
    Sample.genesis.found 0 = .ok Sample.opened ∧
      Run Sample.opened (⟨Sample.refunded, Sample.redeeming⟩ ::
        ⟨Sample.proposed, Sample.refunding⟩ :: Sample.past) Sample.redeemed ∧
      Chronological (⟨Sample.refunded, Sample.redeeming⟩ ::
        ⟨Sample.proposed, Sample.refunding⟩ :: Sample.past) ∧
      Served.Does ⟨Sample.proposed, Sample.refunding⟩ Call.settles 1 ∧
      Served.Does ⟨Sample.refunded, Sample.redeeming⟩ Call.releases 1 ∧
      (∃ r p, Sample.redeemed.auction? 1 = some r ∧ r.proposal = some p ∧
        p.terms = Sample.proposal) ∧
      ∃ t : Served, t.Outstanding 1 (⟨Sample.proposed, Sample.refunding⟩ :: Sample.past) ∧
        Served.Frees ⟨Sample.refunded, Sample.redeeming⟩ t 1 := by
  have run := (Sample.run_proposed.append Sample.run_refunded).grant Sample.grant_redeeming
  have ordered : Chronological (⟨Sample.refunded, Sample.redeeming⟩ ::
      ⟨Sample.proposed, Sample.refunding⟩ :: Sample.past) :=
    List.pairwise_cons.mpr ⟨by decide, Sample.chronological⟩
  have settles : Served.Does ⟨Sample.proposed, Sample.refunding⟩ Call.settles 1 :=
    ⟨rfl, rfl, Served.accepted_of_grants Sample.grant_refunding⟩
  have releases : Served.Does ⟨Sample.refunded, Sample.redeeming⟩ Call.releases 1 :=
    ⟨rfl, rfl, Served.accepted_of_grants Sample.grant_redeeming⟩
  obtain ⟨settled, released, -⟩ := settlement_is_final Sample.founded run ordered
  refine ⟨Sample.founded, run, ordered, settles, releases, ?_, ?_⟩
  · obtain ⟨r, p, r', p', found, live, found', live', terms, -⟩ :=
      settled (show _ = [_] ++ _ :: Sample.past from rfl) settles
    cases found
    cases live
    exact ⟨r', p', found', live', terms⟩
  · exact released (show _ = [] ++ _ :: _ :: Sample.past from rfl) releases

end CandleAuction
