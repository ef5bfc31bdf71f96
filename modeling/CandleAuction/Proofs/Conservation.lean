import CandleAuction.Proofs.Coherence
import CandleAuction.Proofs.Finality
import CandleAuction.Proofs.Totals

/-!
# Conservation of value

The value attached to accepted bids, raises and proposals is never lost and
never multiplied: at any time it lies in the proceeds of the rounds, in the
deposits of live proposals and in the balances. Round by round, the proceeds
and what settlement took out of them sum up to the ledger.
-/

namespace CandleAuction

/-- The calls whose attached value the house takes in. -/
def Call.pays : Call → Bool
  | placeBid .. | increaseBid .. | proposeWinners .. => true
  | _ => false

/-- The deposit bound by the live proposal until its bounty is claimed. -/
def Auction.bond (r : Auction) : Nat :=
  match r.proposal with
  | some p => if p.proposalBountyClaimed then 0 else p.deposit.toNat
  | none => 0

namespace House

/-- The sum of all balances. -/
def credited (h : House) : Nat := mapTotal UInt64.toNat h.balances

/-- The sum of the proceeds of all rounds. -/
def pooled (h : House) : Nat := mapTotal (fun r : Auction => r.proceeds.toNat) h.auctions

/-- The sum of the deposits of all live proposals. -/
def bonded (h : House) : Nat := mapTotal Auction.bond h.auctions

/-- All value that the house accounts for. -/
def value (h : House) : Nat := h.credited + h.pooled + h.bonded

variable {h : House} {id : UInt64} {r : Auction} {change : Change} {ctx : Context}
  {c : Collaborators} {call : Call} {changes : List Change} {outcome : Outcome}

theorem mapTotal_auctions_apply (held : Auction → Nat) (about : change.round? = some id)
    (found : h.auction? id = some r) :
    mapTotal held (change.apply h).auctions + held r =
      mapTotal held h.auctions + held (change.revise r) := by
  have sum := mapTotal_insert held h.auctions id (change.revise r)
  rw [← Change.auctions_apply about found] at sum
  replace found : h.auctions[id]? = some r := found
  rwa [found, Option.elim_some] at sum

theorem credited_apply (h : House) (change : Change) :
    (change.apply h).credited + change.balance?.elim 0 (fun set => (h.balance set.1).toNat) =
      h.credited + change.balance?.elim 0 (fun set => set.2.toNat) := by
  rw [credited, Change.balances_apply]
  cases change.balance? with
  | none => rfl
  | some set =>
      have sum := mapTotal_insert UInt64.toNat h.balances set.1 set.2
      have old : h.balances[set.1]?.elim 0 UInt64.toNat = (h.balance set.1).toNat := by
        rw [balance, Std.ExtTreeMap.getD_eq_getD_getElem?]
        cases h.balances[set.1]? <;> rfl
      rwa [old] at sum

theorem value_foldl_single (paid : Nat) (about : change.round? = some id)
    (found : h.auction? id = some r)
    (moved : (change.revise r).proceeds.toNat + (change.revise r).bond +
        change.balance?.elim 0 (fun set => set.2.toNat) =
      r.proceeds.toNat + r.bond + change.balance?.elim 0 (fun set => (h.balance set.1).toNat) +
        paid) :
    ([change].foldl Change.apply h).value = h.value + paid := by
  have credit := credited_apply h change
  have pool := mapTotal_auctions_apply (fun r => r.proceeds.toNat) about found
  have bond := mapTotal_auctions_apply Auction.bond about found
  rw [List.foldl_cons, List.foldl_nil]
  simp only [value, pooled, bonded] at *
  omega

theorem value_foldl_payout {recipient : Address} {fromProceeds fromDeposit : UInt64}
    {payout : Payout} (about : change.round? = some id) (found : h.auction? id = some r)
    (pays : h.Pays r recipient fromProceeds fromDeposit payout)
    (credits : change.balance? = some (payout.recipient, payout.balance))
    (spends : (change.revise r).proceeds = payout.proceeds)
    (releases : (change.revise r).bond + fromDeposit.toNat = r.bond) :
    ([change].foldl Change.apply h).value = h.value := by
  apply value_foldl_single 0 about found
  have rest := pays.rest
  simp only [credits, Option.elim_some, pays.payee, pays.credited, spends]
  omega

theorem value_apply_opened {startTime : UInt64} {fee : FeeObservation} {gas nextId : UInt64}
    (unused : h.auction? h.nextId = none) :
    ((Change.opened (h.nextRound startTime fee gas) nextId).apply h).value = h.value := by
  replace unused : h.auctions[h.nextId]? = none := unused
  have pool := mapTotal_insert_of_absent (fun r : Auction => r.proceeds.toNat)
    (h.nextRound startTime fee gas) unused
  have bond := mapTotal_insert_of_absent Auction.bond (h.nextRound startTime fee gas) unused
  simp only [value, pooled, bonded, credited]
  exact congrArg₂ _ (congrArg _ pool) bond

end House

/-- A granted call adds the value that it pays in, and nothing else. The bounty of a
proposal that can be overturned has to be unclaimed, as it is while time moves forward. -/
theorem Grants.value {h : House} {ctx : Context} {c : Collaborators} {call : Call}
    {changes : List Change} {outcome : Outcome} (grant : Grants h ctx c call changes outcome)
    (orderly : h.Orderly)
    (bound : ∀ {id r p}, h.auction? id = some r → r.phaseAt ctx.now = .ok .winnersProposed →
      r.proposal = some p → p.proposalBountyClaimed = false)
    (single : h.Each fun r _ => r.phase = .waitingClose → r.proposal = none) :
    (changes.foldl Change.apply h).value = h.value + if call.pays then ctx.value.toNat else 0 := by
  cases grant with
  | placeBid found g =>
      apply House.value_foldl_single _ rfl found
      simp only [Change.revise, Auction.bond, Change.balance?, Option.elim_none, Call.pays, if_true,
        g.pooled, g.value]
      omega
  | increaseBid found g =>
      apply House.value_foldl_single _ rfl found
      simp only [Change.revise, Auction.bond, Change.balance?, Option.elim_none, Call.pays, if_true,
        g.pooled, g.value]
      omega
  | @snuff id r request nextId found _ _ _ _ _ =>
      have about : (Change.closed id ⟨ctx.sender, ctx.now⟩ request).round? = some id := rfl
      have closed : ([Change.closed id ⟨ctx.sender, ctx.now⟩ request].foldl Change.apply h).value =
          h.value := by
        apply House.value_foldl_single 0 about found
        cases request <;> rfl
      rw [List.foldl_cons, List.foldl_cons, List.foldl_nil, ← House.nextRound_apply about,
        House.value_apply_opened (orderly.apply about found).unused]
      exact closed
  | fulfillRandomness _ _ found g => exact House.value_foldl_single _ rfl found rfl
  | proposeWinners found g =>
      apply House.value_foldl_single _ rfl found
      have free : _ = none := single _ _ found g.waiting
      simp [Change.revise, Auction.bond, Change.balance?, free, Auction.proposalFor, Call.pays]
  | challenge found g credited =>
      apply House.value_foldl_single _ rfl found
      have unclaimed := bound found g.inTime g.live
      simp only [Change.revise, Auction.bond, Change.balance?, Option.elim_some, g.live, unclaimed,
        credited, Call.pays, Bool.false_eq_true, if_false]
      omega
  | claimWinningBid found g _ _ => exact House.value_foldl_single _ rfl found rfl
  | withdrawBid found g pays => exact House.value_foldl_payout rfl found pays rfl rfl rfl
  | claimSnuffBounty found g _ _ pays =>
      apply House.value_foldl_payout rfl found pays rfl rfl
      simp [Change.revise, Auction.bond, g.live]
  | claimProposalBounty found g unclaimed pays _ =>
      apply House.value_foldl_payout rfl found pays rfl rfl
      simp [Change.revise, Auction.bond, g.live, unclaimed]
  | transferProceeds found g _ _ pays => exact House.value_foldl_payout rfl found pays rfl rfl rfl
  | updateSettings _ valid => rfl

namespace House

/-- The deposit of the live proposal of a round. -/
def deposit (h : House) (id : UInt64) : Nat :=
  ((h.auction? id).bind Auction.proposal).elim 0 fun p => p.deposit.toNat

/-- What an accepted settlement takes out of the proceeds of a round: all that it
pays, but for the deposit that comes back with the proposal bounty. -/
def taken (h : House) (id : UInt64) : Call → Outcome → Nat
  | .withdrawBid round _ _, .paid amount | .claimSnuffBounty round, .paid amount
  | .transferProceeds round, .paid amount => if round = id then amount.toNat else 0
  | .claimProposalBounty round, .paid amount =>
      if round = id then amount.toNat - h.deposit id else 0
  | _, _ => 0

variable {h : House} {id : UInt64} {r : Auction} {change : Change} {ctx : Context}
  {call : Call} {outcome : Outcome}

theorem taken_eq_zero (elsewhere : call.round? ≠ some id) : h.taken id call outcome = 0 := by
  unfold taken
  split <;> first | rfl | exact if_neg fun same => elsewhere (congrArg some same)

theorem proceeds_allow (found : h.auction? id = some r) (about : change.round? = some id)
    (allowed : r.Allows (h.ledger id) ctx call change outcome) :
    (change.revise r).proceeds.toNat + h.taken id call outcome + (h.ledger id).worth =
      r.proceeds.toNat + (change.enter (h.ledger id)).worth := by
  have settled {position : Nat} : Ledger.worth ((h.ledger id).modify position
      ({ · with processed := true })) = (h.ledger id).worth :=
    Ledger.worth_eq_of_cleared Ledger.cleared_modify_processed
  cases allowed with
  | placed g =>
      simp only [Change.revise, Change.enter, taken, Ledger.worth_push, g.pooled]
      omega
  | raised g =>
      simp only [Change.revise, Change.enter, taken, Ledger.worth_raise g.found g.raised, g.pooled]
      omega
  | @closed _ request _ _ _ => cases request <;> rfl
  | drawn | proposed | overturned => rfl
  | claimed => simp only [Change.revise, Change.enter, taken, settled, Nat.add_zero]
  | withdrawn g spends =>
      cases about
      simp only [Change.revise, Change.enter, taken, settled, if_true, spends.rest]
  | snuffBountyPaid g _ spends =>
      cases about
      simp only [Change.revise, Change.enter, taken, if_true, spends.rest]
  | proposalBountyPaid g _ spends paid =>
      cases about
      simp only [Change.revise, Change.enter, taken, if_true, House.deposit, found,
        Option.bind_some, g.live, Option.elim_some, paid, Nat.add_sub_cancel, spends.rest]
  | proceedsMoved g _ _ spends =>
      cases about
      simp only [Change.revise, Change.enter, taken, if_true, spends.rest]

end House

namespace Served

/-- The value that a call has paid in. -/
def paidIn (s : Served) : Nat :=
  s.outcome?.elim 0 fun _ => if s.request.call.pays then s.request.context.value.toNat else 0

/-- What a call has taken out of the proceeds of a round. -/
def taken (id : UInt64) (s : Served) : Nat :=
  s.outcome?.elim 0 (s.house.taken id s.request.call)

theorem taken_of_still {s : Served} {id : UInt64}
    (still : s.round? = some id → s.outcome? = none) : s.taken id = 0 := by
  rw [taken]
  cases accepted : s.outcome? with
  | none => rfl
  | some outcome =>
      refine House.taken_eq_zero fun named => ?_
      simp [still (House.addressee?_of_round? named)] at accepted

theorem Moves.proceeds {s : Served} {id : UInt64} {r r' : Auction} {bids' : Ledger}
    (moves : s.Moves id r r' bids') (found : s.house.auction? id = some r) :
    r'.proceeds.toNat + s.taken id + (s.house.ledger id).worth =
      r.proceeds.toNat + bids'.worth := by
  cases moves with
  | rest still =>
      have nothing := taken_of_still still
      omega
  | change accepted about allowed =>
      rw [taken, accepted, Option.elim_some]
      exact House.proceeds_allow found about allowed

end Served

def paidIn (past : List Served) : Nat := (past.map Served.paidIn).sum

def takenFrom (id : UInt64) (past : List Served) : Nat := (past.map (Served.taken id)).sum

namespace Run

variable {g : Genesis} {settlementGas : UInt64} {start h : House} {past : List Served}

theorem value_eq_paidIn (founded : g.found settlementGas = .ok start) (run : Run start past h)
    (ordered : Chronological past) : h.value = paidIn past := by
  refine run.induct (motive := fun past h => Chronological past → h.value = paidIn past)
    ?_ ?_ ?_ ordered
  · intro _
    obtain ⟨-, rfl⟩ := Genesis.found_eq_ok.mp founded
    exact House.value_apply_opened rfl
  · intro past h q run refused holds ordered
    rw [holds ordered.of_cons, paidIn, paidIn, List.map_cons, List.sum_cons, Served.paidIn, refused]
    exact (Nat.zero_add _).symm
  · intro past h q changes outcome run accepted grant holds ordered
    obtain ⟨recent, ordered⟩ := List.pairwise_cons.mp ordered
    have coherent := run.coherent (Genesis.coherent_of_found founded)
    have single : h.Each fun r _ => r.phase = .waitingClose → r.proposal = none := by
      intro id r found waiting
      obtain ⟨-, -, unproposed, -⟩ := (coherent.rounds id r found).waiting waiting
      exact unproposed
    rw [grant.value coherent.toOrderly (run.unclaimed founded ordered recent) single,
      holds ordered, paidIn, paidIn, List.map_cons, List.sum_cons, Served.paidIn, accepted,
      Option.elim_some, Nat.add_comm]

theorem proceeds_add_takenFrom {id : UInt64} {r : Auction}
    (founded : g.found settlementGas = .ok start) (run : Run start past h)
    (found : h.auction? id = some r) :
    r.proceeds.toNat + takenFrom id past = (h.ledger id).worth := by
  have orderly := Genesis.orderly_of_found founded
  have each := run.each (motive := fun past r bids =>
    r.proceeds.toNat + takenFrom r.id past = bids.worth) orderly
    (Genesis.each_of_found founded fun _ => rfl) ?_ ?_
  · exact run.numbered orderly found ▸ each id r found
  · intro past h startTime fee gas _ fresh
    have nothing : takenFrom h.nextId past = 0 := by
      refine List.sum_eq_zero fun amount listed => ?_
      obtain ⟨s, member, rfl⟩ := List.mem_map.mp listed
      exact Served.taken_of_still (fresh s member)
    exact (Nat.zero_add _).trans nothing
  · intro past s id r r' bids' run found moves sum
    have moved := moves.proceeds found
    rw [run.numbered orderly found] at sum
    rw [moves.id_eq, run.numbered orderly found, takenFrom, List.map_cons, List.sum_cons,
      ← takenFrom]
    omega

/-- No value is lost and none appears. What accepted bids, raises and proposals have
paid in is in the balances, in the proceeds and in the deposits of live proposals; and
the proceeds of each round, with all that settlement took out of them, sum up to its
ledger. -/
theorem conserves_value (founded : g.found settlementGas = .ok start) (run : Run start past h)
    (ordered : Chronological past) :
    h.credited + h.pooled + h.bonded = paidIn past ∧
      ∀ id r, h.auction? id = some r →
        r.proceeds.toNat + takenFrom id past = (h.ledger id).worth := by
  exact ⟨run.value_eq_paidIn founded ordered,
    fun id r found => run.proceeds_add_takenFrom founded found⟩

/-- Two bids and a deposit have been paid in when the loser is refunded. -/
theorem conserves_value_refunded :
    Sample.genesis.found 0 = .ok Sample.opened ∧
      Run Sample.opened ([⟨Sample.proposed, Sample.refunding⟩] ++ Sample.past) Sample.refunded ∧
      Chronological ([⟨Sample.proposed, Sample.refunding⟩] ++ Sample.past) ∧
      paidIn ([⟨Sample.proposed, Sample.refunding⟩] ++ Sample.past) = 1008000 ∧
      takenFrom 1 ([⟨Sample.proposed, Sample.refunding⟩] ++ Sample.past) = 3000 := by
  have run := Sample.run_proposed.append Sample.run_refunded
  obtain ⟨whole, rounds⟩ := conserves_value Sample.founded run Sample.chronological
  have value : Sample.refunded.credited + Sample.refunded.pooled + Sample.refunded.bonded =
      1008000 := by decide +kernel
  have worth : (Sample.refunded.ledger 1).worth = 8000 := by decide +kernel
  have round := rounds 1 Sample.refundedRound rfl
  have rest : Sample.refundedRound.proceeds.toNat = 5000 := rfl
  exact ⟨Sample.founded, run, Sample.chronological, whole ▸ value, by omega⟩

end Run

end CandleAuction
