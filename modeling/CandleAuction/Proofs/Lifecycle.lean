import CandleAuction.Proofs.Rules.Refusals

/-!
# The life of a round

A round opens running, is closed once, and then goes back and forth between
waiting for a proposal and holding one. Whatever its stored phase is, the
record holds what belongs to that phase and nothing else. The closer, the
entropy and the close instant are written once.
-/

namespace CandleAuction

open Ruling

/-- The stored phases that may follow each other. -/
inductive Phase.Precedes : Phase → Phase → Prop
  | closed : Precedes .running .waitingClose
  | unbidden : Precedes .running .endedWithoutBids
  | proposed : Precedes .waitingClose .winnersProposed
  | overturned : Precedes .winnersProposed .waitingClose

theorem Phase.Precedes.ne_running {before after : Phase} (precedes : before.Precedes after) :
    after ≠ .running := by
  cases precedes <;> simp

namespace Auction

/-- The record of a round, with its ledger, as its stored phase has it. -/
structure WellFormed (r : Auction) (bids : Ledger) : Prop where
  stored : r.phase ≠ .created ∧ r.phase ≠ .finalized
  running : r.phase = .running →
    r.entropy = none ∧ r.closeOffset = none ∧ r.request = none ∧ r.proposal = none ∧ r.snuff = none
  unbidden : r.phase = .endedWithoutBids →
    bids.size = 0 ∧ r.snuff.isSome = true ∧ r.request = none ∧ r.entropy = none ∧
      r.proposal = none
  waiting : r.phase = .waitingClose →
    0 < bids.size ∧ r.snuff.isSome = true ∧ r.request.isSome = true ∧ r.proposal = none
  proposed : r.phase = .winnersProposed →
    0 < bids.size ∧ r.snuff.isSome = true ∧ r.entropy.isSome = true ∧
      ∃ p, r.proposal = some p ∧ r.settings.deposit ≤ p.deposit ∧
        (⟨p.snuffBounty, p.proposalBounty⟩ : Bounties) =
          .ofTotal r.settings r.minBid r.fee.gasPrice p.total
  resolved : r.entropy.isSome = r.closeOffset.isSome
  drawn : ∀ entropy ∈ r.entropy, ∀ close ∈ r.closeOffset,
    r.settings.closeOffset entropy = .ok close

/-- What is known of the close stays as it is. -/
structure Keeps (r r' : Auction) : Prop where
  entropy : ∀ entropy ∈ r.entropy, r'.entropy = some entropy
  closeOffset : ∀ close ∈ r.closeOffset, r'.closeOffset = some close
  snuff : ∀ snuff ∈ r.snuff, r'.snuff = some snuff

/-- What one call may make of the phase and the close of a round. -/
structure Advances (id : UInt64) (r r' : Auction) (call : Call) (outcome : Option Outcome) : Prop
    extends r.Keeps r' where
  phase : r'.phase = r.phase ∨ r.phase.Precedes r'.phase
  overturned : r.phase = .winnersProposed → r'.phase = .waitingClose →
    ∃ encoding claimed disputed reason, call = .challenge id encoding claimed disputed ∧
      outcome = some (.proposalOverturned reason)

variable {r r' r'' : Auction} {bids : Ledger} {ctx : Context} {call : Call} {change : Change}
  {outcome : Outcome} {id : UInt64}

theorem Keeps.of_eq (entropy : r'.entropy = r.entropy)
    (closeOffset : r'.closeOffset = r.closeOffset) (snuff : r'.snuff = r.snuff) : r.Keeps r' :=
  ⟨fun _ known => entropy.trans known, fun _ known => closeOffset.trans known,
    fun _ known => snuff.trans known⟩

theorem Keeps.trans (first : r.Keeps r') (second : r'.Keeps r'') : r.Keeps r'' where
  entropy entropy known := second.entropy entropy (first.entropy entropy known)
  closeOffset close known := second.closeOffset close (first.closeOffset close known)
  snuff snuff known := second.snuff snuff (first.snuff snuff known)

theorem Advances.still {outcome : Option Outcome} (keeps : r.Keeps r') (same : r'.phase = r.phase) :
    Advances id r r' call outcome where
  toKeeps := keeps
  phase := .inl same
  overturned proposed waiting := by
    rw [same, proposed] at waiting
    cases waiting

theorem Coherent.wellFormed (coherent : r.Coherent bids) : r.WellFormed bids := by
  have stage := coherent.stage
  have bidden : bids.isEmpty = false ↔ 0 < bids.size := by simp [Array.size_pos_iff]
  have unbidden : bids.isEmpty = true ↔ bids.size = 0 := by simp
  have unresolved : r.entropy = none → r.closeOffset = none := by
    intro unset
    have resolved := coherent.resolved
    rwa [Resolved, unset] at resolved
  constructor
  case stored =>
    rw [Stage] at stage
    constructor <;> rintro stored <;> rw [stored] at stage <;> exact stage
  case running =>
    intro stored
    obtain ⟨entropy, request, proposal, snuff, -⟩ := coherent.running stored
    exact ⟨entropy, unresolved entropy, request, proposal, snuff⟩
  case unbidden =>
    intro stored
    rw [Stage, stored] at stage
    obtain ⟨empty, entropy, request, proposal, snuff⟩ := stage
    exact ⟨unbidden.mp empty, snuff, request, entropy, proposal⟩
  case waiting =>
    intro stored
    obtain ⟨bids, request, proposal, snuff⟩ := coherent.waiting stored
    exact ⟨bidden.mp bids, snuff, request, proposal⟩
  case proposed =>
    intro stored
    obtain ⟨bids, -, entropy, snuff, p, live, backed⟩ := coherent.proposed stored
    exact ⟨bidden.mp bids, snuff, entropy, p, live, backed.bonded, backed.bounties⟩
  case resolved =>
    have resolved := coherent.resolved
    rw [Resolved] at resolved
    cases entropy : r.entropy with
    | none => rw [unresolved entropy]; rfl
    | some word =>
        rw [entropy] at resolved
        obtain ⟨close, -, known⟩ := resolved
        rw [known]
        rfl
  case drawn =>
    intro entropy set close known
    have resolved := coherent.resolved
    rw [Resolved, set] at resolved
    obtain ⟨picked, draws, same⟩ := resolved
    cases known.symm.trans same
    exact draws

/-- An allowed change takes a round at most one phase on. -/
theorem Allows.advances (coherent : r.Coherent bids)
    (allowed : r.Allows bids ctx call change outcome) (about : change.round? = some id) :
    Advances id r (change.revise r) call (some outcome) := by
  have wellFormed := coherent.wellFormed
  cases allowed with
  | @closed _ request _ closes _ =>
      obtain ⟨-, -, -, -, unsnuffed⟩ := wellFormed.running closes.running
      have notProposed : r.phase ≠ .winnersProposed := by simp [closes.running]
      cases request with
      | none =>
          refine ⟨⟨fun _ known => known, fun _ known => known, by simp [unsnuffed]⟩, .inr ?_,
            fun proposed => absurd proposed notProposed⟩
          rw [closes.running]
          exact .unbidden
      | some request =>
          refine ⟨⟨fun _ known => known, fun _ known => known, by simp [unsnuffed]⟩, .inr ?_,
            fun proposed => absurd proposed notProposed⟩
          rw [closes.running]
          exact .closed
  | drawn g =>
      have closeOffset : r.closeOffset = none := by
        have resolved := wellFormed.resolved
        rw [g.unset] at resolved
        simpa using resolved.symm
      refine .still ⟨?_, ?_, fun _ known => known⟩ rfl
      · simp [g.unset]
      · simp [closeOffset]
  | proposed g =>
      refine ⟨.of_eq rfl rfl rfl, .inr ?_, fun _ waiting => nomatch waiting⟩
      rw [g.waiting]
      exact .proposed
  | @overturned _ encoding claimed disputed _ _ _ _ reason _ g =>
      cases about
      refine ⟨.of_eq rfl rfl rfl, .inr ?_,
        fun _ _ => ⟨encoding, claimed, disputed, reason, rfl, rfl⟩⟩
      rw [(phaseAt_eq_winnersProposed.mp g.inTime).1]
      exact .overturned
  | _ => exact .still (.of_eq rfl rfl rfl) rfl

end Auction

namespace Served

variable {s : Served} {id : UInt64} {r r' : Auction} {bids' : Ledger}

theorem Moves.advances (moves : s.Moves id r r' bids') (coherent : s.house.Coherent)
    (found : s.house.auction? id = some r) :
    Auction.Advances id r r' s.request.call s.outcome? := by
  cases moves with
  | rest _ => exact .still (.of_eq rfl rfl rfl) rfl
  | change accepted about allowed _ =>
      rw [accepted]
      exact allowed.advances (coherent.rounds _ _ found) about

theorem Answered.advances (answered : s.Answered) (coherent : s.house.Coherent)
    (found : s.receipt.house.auction? id = some r') :
    (s.house.auction? id = none ∧ r'.phase = .running) ∨
      ∃ r, s.house.auction? id = some r ∧
        Auction.Advances id r r' s.request.call s.outcome? := by
  cases before : s.house.auction? id with
  | none =>
      obtain ⟨⟨_, _, _, rfl⟩, -⟩ := answered.opened before found
      exact .inl ⟨rfl, rfl⟩
  | some r =>
      obtain ⟨_, again, moves⟩ := answered.moves coherent.toOrderly before
      cases found.symm.trans again
      exact .inr ⟨r, rfl, moves.advances coherent before⟩

end Served

theorem Run.keeps {start h : House} {past : List Served} {id : UInt64} {r : Auction}
    (run : Run start past h) (coherent : start.Coherent) (found : start.auction? id = some r) :
    ∃ r', h.auction? id = some r' ∧ r.Keeps r' := by
  refine run.follow (motive := fun _ r' _ => r.Keeps r') coherent.toOrderly found
    (.of_eq rfl rfl rfl) ?_
  intro past s r' r'' bids'' run found' moves keeps
  exact keeps.trans (moves.advances (run.coherent coherent) found').toKeeps

namespace House

variable {h : House} {ctx : Context} {c : Collaborators} {call : Call}

/-- In a coherent house only a proposal that comes before the draw finds no entropy. -/
theorem Coherent.entropyPending_iff (coherent : h.Coherent) :
    (h.dispatch ctx c call).result = .error (.rejected .entropyPending) ↔
      ∃ id encoding posted total r, call = .proposeWinners id encoding posted total ∧
        h.auction? id = some r ∧ r.phase = .waitingClose ∧ r.entropy = none := by
  constructor
  · intro refused
    exact ((trips_of_dispatch (.inl rfl) refused).unproposed coherent).2
  · rintro ⟨id, encoding, posted, total, r, rfl, found, waiting, unset⟩
    refine dispatch_of_refusal ?_
    exact bind_eq_error_of_ok (requireAuction_eq_ok.mpr found)
      (bind_eq_error_of_ok
        ((Auction.requirePhase_eq_ok (u := ())).mpr (Auction.phaseAt_eq_waitingClose.mpr waiting))
      (bind_eq_error.mpr (.inl (demand_eq_error.mpr ⟨unset, rfl⟩))))

end House

namespace Sample

/-- The house once its first round is closed. -/
def closed : House := opened.serve (bidding.take 3)

theorem run_closed : Run opened (opened.served (bidding.take 3)) closed :=
  House.run_serve (List.all_eq_true.mp rfl)

end Sample

namespace Run

variable {g : Genesis} {settlementGas : UInt64} {start h : House} {past : List Served}

/-- The phase machine. In every state a run leads to, all records are well formed. Every call
takes a round at most one phase on, and back from a proposal only as an accepted challenge;
a new round is running. What is written of a close is never written again. Entropy is missed
by a proposal that comes before the draw and by no other call. -/
theorem phase_machine (founded : g.found settlementGas = .ok start) (run : Run start past h) :
    h.Each Auction.WellFormed ∧
    (∀ newer s older, past = newer ++ s :: older →
      (∀ id r', s.receipt.house.auction? id = some r' →
        (s.house.auction? id = none ∧ r'.phase = .running) ∨
          ∃ r, s.house.auction? id = some r ∧
            Auction.Advances id r r' s.request.call s.outcome?) ∧
      ∀ id r, s.house.auction? id = some r → ∃ r', h.auction? id = some r' ∧ r.Keeps r') ∧
    ∀ ctx c call, (h.dispatch ctx c call).result = .error (.rejected .entropyPending) ↔
      ∃ id encoding posted total r, call = .proposeWinners id encoding posted total ∧
        h.auction? id = some r ∧ r.phase = .waitingClose ∧ r.entropy = none := by
  have initial := Genesis.coherent_of_found founded
  refine ⟨fun id r found => ((run.coherent initial).rounds id r found).wellFormed, ?_,
    fun ctx c call => (run.coherent initial).entropyPending_iff⟩
  rintro newer s older rfl
  have met := run.before.coherent initial
  have answered := run.answered s (by simp)
  exact ⟨fun id r' found => answered.advances met found,
    fun id r found => run.since.keeps met found⟩

/-- A proposal that comes too early in the sample run. -/
theorem phase_machine_closed :
    Sample.genesis.found 0 = .ok Sample.opened ∧
      Run Sample.opened (Sample.opened.served (Sample.bidding.take 3)) Sample.closed ∧
      (∃ r, Sample.closed.auction? 1 = some r ∧ r.WellFormed (Sample.closed.ledger 1)) ∧
      (Sample.closed.dispatch Sample.proposing.context Sample.parties
        Sample.proposing.call).result = .error (.rejected .entropyPending) := by
  obtain ⟨wellFormed, -, pending⟩ := phase_machine Sample.founded Sample.run_closed
  exact ⟨Sample.founded, Sample.run_closed, ⟨_, rfl, wellFormed 1 _ rfl⟩,
    (pending _ _ _).mpr ⟨1, _, _, _, _, rfl, rfl, rfl, rfl⟩⟩

/-- It is not so that entropy is never missed. -/
theorem exists_entropyPending : ¬ ∀ (g : Genesis) (settlementGas : UInt64) (start h : House)
    (past : List Served) (ctx : Context) (c : Collaborators) (call : Call),
    g.found settlementGas = .ok start → Run start past h →
      (h.dispatch ctx c call).result ≠ .error (.rejected .entropyPending) := by
  intro never
  refine never _ _ _ _ _ Sample.proposing.context Sample.parties Sample.proposing.call
    Sample.founded Sample.run_closed (House.dispatch_of_refusal ?_)
  rfl

end Run

end CandleAuction
