import CandleAuction.Proofs.Settlement

/-!
# Coherent rounds

The fields of a round are not independent. What has been drawn, requested,
proposed and pooled follows its stored phase, the close instant is the one that
the entropy picks, and the ledger fits the index width and sums to a word.
This holds in every run, whatever the callers, the times and the outside
parties do.
-/

namespace CandleAuction

namespace Auction

/-- A live proposal carries the deposit, and the bounties that its total gives. -/
structure Backed (r : Auction) (p : Proposal) : Prop where
  bonded : r.settings.deposit ≤ p.deposit
  bounties : (⟨p.snuffBounty, p.proposalBounty⟩ : Bounties) =
    .ofTotal r.settings r.minBid r.fee.gasPrice p.total

/-- What the stored phase says about the rest of a round. -/
def Stage (r : Auction) (bids : Ledger) : Prop :=
  match r.phase with
  | .running => r.entropy = none ∧ r.request = none ∧ r.proposal = none ∧ r.snuff = none ∧
      r.proceeds.toNat = bids.worth
  | .endedWithoutBids => bids.isEmpty = true ∧ r.entropy = none ∧ r.request = none ∧
      r.proposal = none ∧ r.snuff.isSome = true
  | .waitingClose => bids.isEmpty = false ∧ r.request.isSome = true ∧ r.proposal = none ∧
      r.snuff.isSome = true
  | .winnersProposed => bids.isEmpty = false ∧ r.request.isSome = true ∧
      r.entropy.isSome = true ∧ r.snuff.isSome = true ∧ ∃ p, r.proposal = some p ∧ r.Backed p
  | .created | .finalized => False

/-- The close instant is known as soon as the entropy is, and is the one it picks. -/
def Resolved (r : Auction) : Prop :=
  match r.entropy with
  | none => r.closeOffset = none
  | some entropy => ∃ close, r.settings.closeOffset entropy = .ok close ∧
      r.closeOffset = some close

structure Coherent (r : Auction) (bids : Ledger) : Prop where
  valid : r.settings.Valid
  room : bids.size ≤ r.settings.indexWidth.capacity
  fits : bids.worth < UInt64.size
  resolved : r.Resolved
  stage : r.Stage bids

variable {r : Auction} {bids : Ledger} {ctx : Context} {call : Call} {change : Change}
  {outcome : Outcome} {now : UInt64} {p : Proposal}

theorem Resolved.exists_close {entropy : Word} (resolved : r.Resolved)
    (drawn : r.entropy = some entropy) :
    ∃ close, r.settings.closeOffset entropy = .ok close ∧ r.closeOffset = some close := by
  rwa [Resolved, drawn] at resolved

theorem Coherent.running (coherent : r.Coherent bids) (stored : r.phase = .running) :
    r.entropy = none ∧ r.request = none ∧ r.proposal = none ∧ r.snuff = none ∧
      r.proceeds.toNat = bids.worth := by
  have stage := coherent.stage
  rwa [Stage, stored] at stage

theorem Coherent.waiting (coherent : r.Coherent bids) (stored : r.phase = .waitingClose) :
    bids.isEmpty = false ∧ r.request.isSome = true ∧ r.proposal = none ∧
      r.snuff.isSome = true := by
  have stage := coherent.stage
  rwa [Stage, stored] at stage

theorem Coherent.proposed (coherent : r.Coherent bids) (stored : r.phase = .winnersProposed) :
    bids.isEmpty = false ∧ r.request.isSome = true ∧ r.entropy.isSome = true ∧
      r.snuff.isSome = true ∧ ∃ p, r.proposal = some p ∧ r.Backed p := by
  have stage := coherent.stage
  rwa [Stage, stored] at stage

theorem Coherent.backed (coherent : r.Coherent bids) (live : r.proposal = some p) :
    r.Backed p := by
  have stage := coherent.stage
  rw [Stage] at stage
  cases stored : r.phase <;> simp_all

/-- No stored phase is final: a final round has a live proposal. -/
theorem Coherent.proposed_of_final (coherent : r.Coherent bids)
    (final : r.phaseAt now = .ok .finalized) : r.phase = .winnersProposed := by
  rcases phaseAt_eq_finalized.mp final with stored | ⟨stored, -⟩
  · have stage := coherent.stage
    rw [Stage, stored] at stage
    exact stage.elim
  · exact stored

theorem Coherent.indexed (coherent : r.Coherent bids) : bids.Indexed := by
  apply Nat.le_trans coherent.room
  cases r.settings.indexWidth <;> decide

theorem Coherent.pooled (coherent : r.Coherent bids) {bids' : Ledger} {proceeds : UInt64}
    (running : r.phase = .running) (room : bids'.size ≤ r.settings.indexWidth.capacity)
    (pooled : proceeds.toNat = bids'.worth) :
    ({ r with proceeds := proceeds } : Auction).Coherent bids' where
  valid := coherent.valid
  room := room
  fits := pooled ▸ proceeds.toNat_lt
  resolved := coherent.resolved
  stage := by
    obtain ⟨entropy, request, proposal, snuff, -⟩ := coherent.running running
    rw [Stage]
    simp only [running]
    exact ⟨entropy, request, proposal, snuff, pooled⟩

theorem Backed.of_terms {r' : Auction} {p' : Proposal} (frozen : r'.frozen = r.frozen)
    (terms : p'.terms = p.terms) (backed : r.Backed p) : r'.Backed p' := by
  obtain ⟨settings, -, -⟩ := eq_of_frozen frozen
  have minBid : r'.minBid = r.minBid := (congrArg Auction.minBid frozen :)
  have fee : r'.fee = r.fee := (congrArg Auction.fee frozen :)
  have deposit : p'.deposit = p.deposit := (congrArg Proposal.deposit terms :)
  have snuff : p'.snuffBounty = p.snuffBounty := (congrArg Proposal.snuffBounty terms :)
  have proposal : p'.proposalBounty = p.proposalBounty :=
    (congrArg Proposal.proposalBounty terms :)
  have total : p'.total = p.total := (congrArg Proposal.total terms :)
  constructor
  · rw [settings, deposit]
    exact backed.bonded
  · rw [settings, minBid, fee, snuff, proposal, total]
    exact backed.bounties

theorem Coherent.settled (coherent : r.Coherent bids) {r' : Auction} {bids' : Ledger}
    (proposed : r.phase = .winnersProposed) (settled : r.Settled r')
    (cleared : bids'.cleared = bids.cleared) : r'.Coherent bids' := by
  obtain ⟨settings, entropy, closeOffset⟩ := eq_of_frozen settled.frozen
  have size : bids'.size = bids.size := by
    rw [← Ledger.size_cleared, cleared, Ledger.size_cleared]
  constructor
  · rw [settings]
    exact coherent.valid
  · rw [settings, size]
    exact coherent.room
  · rw [Ledger.worth_eq_of_cleared cleared]
    exact coherent.fits
  · rw [Resolved, settings, entropy, closeOffset]
    exact coherent.resolved
  · have request : r'.request = r.request := (congrArg Auction.request settled.frozen :)
    have snuff : r'.snuff = r.snuff := (congrArg Auction.snuff settled.frozen :)
    obtain ⟨bidden, requested, drawn, snuffed, p, live, backed⟩ := coherent.proposed proposed
    obtain ⟨p', live', terms⟩ := settled.live live
    rw [Stage, settled.phase, proposed, request, entropy, snuff]
    rw [Array.isEmpty, ← size] at bidden
    exact ⟨bidden, requested, drawn, snuffed, p', live', backed.of_terms settled.frozen terms⟩

/-- Every allowed change keeps a round coherent. -/
theorem Coherent.allow (coherent : r.Coherent bids)
    (allowed : r.Allows bids ctx call change outcome) :
    (change.revise r).Coherent (change.enter bids) := by
  by_cases final : r.phaseAt ctx.now = .ok .finalized
  · obtain ⟨settled, cleared⟩ := allowed.settled final
    exact coherent.settled (coherent.proposed_of_final final) settled cleared
  have pending := allowed.settles_eq_false final
  cases allowed with
  | @placed id amount timestamp proceeds g =>
      have stage := coherent.running g.isOpen.running
      refine coherent.pooled g.isOpen.running ?_ ?_
      · rw [Change.enter, Array.size_push]
        exact g.room
      · rw [Change.enter, Ledger.worth_push, g.pooled, stage.2.2.2.2]
  | @raised id index added bid amount timestamp proceeds g =>
      have stage := coherent.running g.isOpen.running
      refine coherent.pooled g.isOpen.running ?_ ?_
      · rw [Change.enter, Array.size_modify]
        exact coherent.room
      · rw [Change.enter, Ledger.worth_raise g.found g.raised, g.pooled, stage.2.2.2.2]
  | @closed id request _ closes asks =>
      obtain ⟨entropy, unrequested, proposal, -, -⟩ := coherent.running closes.running
      refine ⟨?_, ?_, coherent.fits, ?_, ?_⟩
      · cases request <;> exact coherent.valid
      · cases request <;> exact coherent.room
      · cases request <;> exact coherent.resolved
      · cases request with
        | none => exact ⟨asks.mp rfl, entropy, unrequested, proposal, rfl⟩
        | some request =>
            have bidden : bids.isEmpty = false := by
              rw [← Bool.not_eq_true, ← asks]
              exact Option.some_ne_none _
            exact ⟨bidden, rfl, proposal, rfl⟩
  | drawn g =>
      refine ⟨coherent.valid, coherent.room, coherent.fits, ⟨_, g.drawn, rfl⟩, ?_⟩
      simp only [Stage, Change.revise, g.waiting]
      exact coherent.waiting g.waiting
  | proposed g =>
      obtain ⟨bidden, request, -, snuff⟩ := coherent.waiting g.waiting
      have drawn : r.entropy.isSome = true := by rw [g.drawn]; rfl
      exact ⟨coherent.valid, coherent.room, coherent.fits, coherent.resolved,
        bidden, request, drawn, snuff, _, rfl, g.bonded, rfl⟩
  | overturned g =>
      have proposed := (phaseAt_eq_winnersProposed.mp g.inTime).1
      obtain ⟨bidden, request, -, snuff, -⟩ := coherent.proposed proposed
      exact ⟨coherent.valid, coherent.room, coherent.fits, coherent.resolved,
        bidden, request, rfl, snuff⟩
  | claimed | withdrawn | snuffBountyPaid | proposalBountyPaid | proceedsMoved => cases pending

theorem coherent_nextRound {h : House} {startTime : UInt64} {fee : FeeObservation} {gas : UInt64}
    (orderly : h.Orderly) : (h.nextRound startTime fee gas).Coherent #[] where
  valid := orderly.valid
  room := Nat.zero_le _
  fits := by decide
  resolved := rfl
  stage := ⟨rfl, rfl, rfl, rfl, rfl⟩

end Auction

/-- An orderly house of coherent rounds. -/
structure House.Coherent (h : House) : Prop extends h.Orderly where
  rounds : h.Each Auction.Coherent

theorem Genesis.coherent_of_found {g : Genesis} {settlementGas : UInt64} {h : House}
    (founded : g.found settlementGas = .ok h) : h.Coherent where
  toOrderly := orderly_of_found founded
  rounds := each_of_found founded Auction.coherent_nextRound

theorem Run.coherent {start h : House} {past : List Served} (run : Run start past h)
    (initial : start.Coherent) : h.Coherent := by
  refine ⟨run.orderly initial.toOrderly, run.each (motive := fun _ => Auction.Coherent)
    initial.toOrderly initial.rounds
    (fun orderly _ => Auction.coherent_nextRound orderly) ?_⟩
  intro past s id r r' bids' _ _ moves coherent
  cases moves with
  | rest _ => exact coherent
  | change _ _ allowed => exact coherent.allow allowed

end CandleAuction
