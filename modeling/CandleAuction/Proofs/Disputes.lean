import CandleAuction.Proofs.Chain
import CandleAuction.Proofs.Query
import CandleAuction.Proofs.Rules.Payouts
import CandleAuction.Proofs.Succession

/-!
# Proposals that can be disputed

The log of a chain holds the list behind each live proposal, and at most one
proposal at a time is within its challenge window. A stranger who resubmits the
list with a bid that shows it to be wrong meets every condition of a challenge,
so that only a full balance can keep the deposit from him.
-/

namespace CandleAuction

namespace Auction

variable {r : Auction} {p : Proposal} {now : UInt64}

theorem exists_challengeDeadline (live : r.proposal = some p)
    (fits : p.timestamp.toNat + r.settings.fraudPeriod.toNat < UInt64.size) :
    ∃ deadline, r.challengeDeadline = .ok (some deadline) ∧ p.timestamp ≤ deadline := by
  have sum := UInt64.toNat_ofNat_of_lt' fits
  refine ⟨.ofNat (p.timestamp.toNat + r.settings.fraudPeriod.toNat), ?_, ?_⟩
  · rw [challengeDeadline, live]
    exact congrArg (some <$> ·) (exactAdd_eq_ok.mpr sum)
  · rw [UInt64.le_iff_toNat_le, sum]
    exact Nat.le_add_right _ _

theorem exists_phaseAt
    (fits : ∀ p, r.proposal = some p →
      p.timestamp.toNat + r.settings.fraudPeriod.toNat < UInt64.size) :
    ∃ phase, r.phaseAt now = .ok phase := by
  have window : ∃ deadline, r.challengeDeadline = .ok deadline := by
    cases live : r.proposal with
    | none => exact ⟨none, by rw [challengeDeadline, live]⟩
    | some p =>
        obtain ⟨deadline, known, -⟩ := exists_challengeDeadline live (fits p live)
        exact ⟨some deadline, known⟩
  obtain ⟨deadline, known⟩ := window
  simp only [phaseAt_eq_ok]
  cases r.phase with
  | winnersProposed => exact ⟨_, deadline, known, rfl⟩
  | _ => exact ⟨_, rfl⟩

theorem phaseAt_of_proposed (stored : r.phase = .winnersProposed) (live : r.proposal = some p)
    (fits : p.timestamp.toNat + r.settings.fraudPeriod.toNat < UInt64.size)
    (fresh : now ≤ p.timestamp) : r.phaseAt now = .ok .winnersProposed := by
  obtain ⟨deadline, known, later⟩ := exists_challengeDeadline live fits
  refine phaseAt_eq_winnersProposed.mpr ⟨stored, some deadline, known, ?_⟩
  rintro _ ⟨⟩
  exact UInt64.le_trans fresh later

end Auction

theorem eq_nil_or_singleton {ids : List UInt64} (ascending : ids.Pairwise (· < ·))
    (same : ∀ id ∈ ids, ∀ other ∈ ids, id = other) : ids = [] ∨ ∃ id, ids = [id] := by
  cases ids with
  | nil => exact .inl rfl
  | cons first rest =>
      cases rest with
      | nil => exact .inr ⟨first, rfl⟩
      | cons second rest =>
          have below := (List.pairwise_cons.mp ascending).1 second List.mem_cons_self
          have equal := same first (by simp) second (by simp)
          exact absurd (equal ▸ below) (UInt64.lt_irrefl _)

theorem eq_singleton {ids : List UInt64} {id : UInt64} (ascending : ids.Pairwise (· < ·))
    (member : id ∈ ids) (only : ∀ other ∈ ids, other = id) : ids = [id] := by
  rcases eq_nil_or_singleton ascending fun first member other member' =>
    (only first member).trans (only other member').symm with rfl | ⟨other, rfl⟩
  · cases member
  · rw [only other (List.mem_singleton_self other)]

open Ruling

namespace House

variable {h : House} {ctx : Context} {c : Collaborators} {id : UInt64} {r : Auction}
  {encoding : List UInt8} {claimed : Word} {disputed : UInt32} {p : Proposal} {entropy : Word}
  {close : UInt32} {winners : List UInt32} {reason : FraudReason}

theorem overturned_or_overflows (found : h.auction? id = some r)
    (overturns : r.Overturns (h.ledger id) ctx encoding claimed disputed p entropy close winners
      reason) :
    (∃ balance : UInt64, balance.toNat = (h.balance ctx.sender).toNat + p.deposit.toNat ∧
      Grants h ctx c (.challenge id encoding claimed disputed)
        [.overturned id p ⟨disputed, reason⟩ ctx.sender balance] (.proposalOverturned reason)) ∨
      (h.dispatch ctx c (.challenge id encoding claimed disputed)).result =
          .error (.rejected .amountOverflow) ∧
        UInt64.size ≤ (h.balance ctx.sender).toNat + p.deposit.toNat := by
  cases credit : checkedAdd (h.balance ctx.sender) p.deposit with
  | some balance =>
      have credited := checkedAdd_eq_some.mp credit
      exact .inl ⟨balance, credited, .challenge found overturns credited⟩
  | none =>
      refine .inr ⟨dispatch_of_refusal ?_, checkedAdd_eq_none.mp credit⟩
      have inTime : r.requireChallengeable ctx.now = .ok () :=
        Auction.requireChallengeable_eq_ok.mpr overturns.inTime
      have judged := Auction.disputable?_eq_some.mpr
        ⟨overturns.live, overturns.drawn, overturns.resolved⟩
      exact bind_eq_error_of_ok (requireAuction_eq_ok.mpr found)
        (bind_eq_error_of_ok inTime
        (bind_eq_error_of_ok (demand_eq_ok.mpr judged)
        (ensure_bind_eq_error ⟨overturns.named, overturns.opened⟩
        (ensure_bind_eq_error overturns.stranger
        (bind_eq_error_of_ok (decoded_eq_ok.mpr overturns.listed)
        (bind_eq_error_of_ok (demand_eq_ok.mpr overturns.fraud)
        (bind_eq_error.mpr (.inl (demand_eq_error.mpr ⟨credit, rfl⟩)))))))))

end House

namespace Chain

/-- A live proposal within its window, made by somebody else, with the list it stands for. -/
structure Disputable (c : Chain) (tower : Address) (id : UInt64) (r : Auction) (p : Proposal)
    (encoding : List UInt8) (winners : List UInt32) : Prop where
  found : c.house.auction? id = some r
  live : r.proposal = some p
  inTime : r.phaseAt c.now = .ok .winnersProposed
  stranger : p.proposer ≠ tower
  posts : c.Posts id p encoding
  listed : r.settings.indexWidth.unpack encoding = .ok winners

/-- A disputable proposal whose list or total is not the one that the ledger gives. -/
def Wrong (c : Chain) (tower : Address) (id : UInt64) (p : Proposal) : Prop :=
  ∃ r encoding winners close, c.Disputable tower id r p encoding winners ∧
    r.closeOffset = some close ∧
    ¬ (⟨winners, p.total⟩ : Claim).Correct (c.house.ledger id) close r.settings.maxWinners

/-- The list that was posted with a proposal and its total are the ones that the ledger gives. -/
def Right (c : Chain) (id : UInt64) (r : Auction) (p : Proposal) : Prop :=
  ∃ encoding winners close, c.Posts id p encoding ∧
    r.settings.indexWidth.unpack encoding = .ok winners ∧ r.closeOffset = some close ∧
    (⟨winners, p.total⟩ : Claim).Correct (c.house.ledger id) close r.settings.maxWinners

/-- A wrong proposal that a challenge of the tower takes away. The deposit goes to the tower,
and the round awaits another proposal. -/
structure Overturned (c : Chain) (logging : Bool) (tower : Address) (id : UInt64) (p : Proposal)
    (encoding : List UInt8) (found : CounterExample) (after : Chain) : Prop where
  wrong : c.Wrong tower id p
  posts : c.Posts id p encoding
  accepted : (c.submit logging tower 0
    (.challenge id encoding p.commitment found.disputed)).result =
      .ok (.proposalOverturned found.reason)
  after_eq : after =
    (c.submit logging tower 0 (.challenge id encoding p.commitment found.disputed)).chain
  credited : (after.house.balance tower).toNat =
    (c.house.balance tower).toNat + p.deposit.toNat
  awaits : id ∈ after.house.awaitingProposal

/-- What every chain with a clock that is never set back has in common. -/
structure Sound (c : Chain) : Prop where
  coherent : c.house.Coherent
  single : ∀ {id r other r'}, c.house.auction? id = some r → c.house.auction? other = some r' →
    r.Settling c.now → r'.Settling c.now → id = other
  posted : ∀ {id r p}, c.house.auction? id = some r → r.proposal = some p →
    ∃ encoding winners, c.Posts id p encoding ∧
      r.settings.indexWidth.unpack encoding = .ok winners
  opened : ∀ {id r p encoding}, c.house.auction? id = some r → r.proposal = some p →
    c.Posts id p encoding → ∃ entropy, r.entropy = some entropy ∧
      commitment encoding entropy = p.commitment

theorem Reached.sound {g : Genesis} {settlementGas : UInt64} {c : Chain}
    (reached : Reached (· ≤ ·) g settlementGas c) : c.Sound := by
  obtain ⟨start, past, founded, traces⟩ := reached.exists_run
  obtain ⟨ordered, recent⟩ := traces.timed fun _ _ => id
  have succession := traces.run.succession founded ordered
  constructor
  case coherent => exact traces.run.coherent (Genesis.coherent_of_found founded)
  case single =>
    intro id r other r' found found' settles settles'
    have first := succession.number_of_settling recent found settles
    have second := succession.number_of_settling recent found' settles'
    rw [← UInt64.toNat_inj]
    omega
  case posted =>
    intro id r p found live
    exact traces.posted (traces.run.postedIn founded found) live
  case opened =>
    intro id r p encoding found live posts
    obtain ⟨posted, entropy, last, drawn, opens⟩ := traces.run.openedBy founded found p live
    rw [← traces.posted?_eq, posts.posted?] at last
    cases last
    exact ⟨entropy, drawn, opens⟩

/-- No challenge window ends beyond a word: none of a live proposal and, if a tower is to
propose, none that it would open now. -/
structure Dated (c : Chain) (proposing : Bool) : Prop where
  live : ∀ id r p, c.house.auction? id = some r → r.proposal = some p →
    p.timestamp.toNat + r.settings.fraudPeriod.toNat < UInt64.size
  next : proposing = true → ∀ id ∈ c.house.awaitingProposal, ∀ r, c.house.auction? id = some r →
    c.now.toNat + r.settings.fraudPeriod.toNat < UInt64.size

/-- The phase of every round can be told at the present time. -/
def Readable (c : Chain) : Prop :=
  ∀ id r, c.house.auction? id = some r → ∃ phase, r.phaseAt c.now = .ok phase

theorem Dated.readable {c : Chain} {proposing : Bool} (dated : c.Dated proposing) : c.Readable :=
  fun id r found => Auction.exists_phaseAt fun p live => dated.live id r p found live

theorem readable_of_all {c : Chain}
    (checked : (c.house.auctions.toList.all fun (_, r) =>
      (r.phaseAt c.now).toOption.isSome) = true) : c.Readable := by
  intro id r found
  have member := Std.ExtTreeMap.mem_toList_iff_getElem?_eq_some.mpr found
  have known := List.all_eq_true.mp checked _ member
  cases effective : r.phaseAt c.now with
  | ok phase => exact ⟨phase, rfl⟩
  | error fault => simp [effective, Except.toOption] at known

variable {c : Chain} {tower : Address} {id : UInt64} {r : Auction} {p : Proposal}
  {encoding : List UInt8} {winners : List UInt32} {logging : Bool}

namespace Sound

theorem awaiting (sound : c.Sound) :
    c.house.awaitingProposal = [] ∨ ∃ id, c.house.awaitingProposal = [id] := by
  have orderly := sound.coherent.toOrderly
  refine eq_nil_or_singleton (House.awaitingProposal_ascending orderly) ?_
  intro id member other member'
  obtain ⟨r, found, waiting, -⟩ := (House.mem_awaitingProposal orderly).mp member
  obtain ⟨r', found', waiting', -⟩ := (House.mem_awaitingProposal orderly).mp member'
  exact sound.single found found' (.inl (Auction.phaseAt_eq_waitingClose.mpr waiting))
    (.inl (Auction.phaseAt_eq_waitingClose.mpr waiting'))

theorem waiting (sound : c.Sound) (awaits : c.house.awaitingProposal = [id]) :
    ∃ r, c.house.auction? id = some r ∧ r.phase = .waitingClose ∧ r.entropy.isSome = true :=
  (House.mem_awaitingProposal sound.coherent.toOrderly).mp (awaits ▸ List.mem_cons_self)

theorem awaiting_eq (sound : c.Sound) (awaits : id ∈ c.house.awaitingProposal) :
    c.house.awaitingProposal = [id] := by
  rcases sound.awaiting with idle | ⟨other, alone⟩
  · rw [idle] at awaits
    cases awaits
  · rw [alone, List.mem_singleton] at awaits
    rw [alone, awaits]

theorem challengeable (sound : c.Sound) (readable : c.Readable) :
    ∃ ids, c.house.challengeable c.now = .ok ids ∧ (ids = [] ∨ ∃ id, ids = [id]) ∧
      ∀ id, id ∈ ids ↔
        ∃ r, c.house.auction? id = some r ∧ r.phaseAt c.now = .ok .winnersProposed := by
  obtain ⟨ids, listed, ascending, member⟩ :=
    House.challengeable_eq_ok sound.coherent.toOrderly readable
  refine ⟨ids, listed, eq_nil_or_singleton ascending ?_, member⟩
  intro id first other second
  obtain ⟨r, found, inTime⟩ := (member id).mp first
  obtain ⟨r', found', inTime'⟩ := (member other).mp second
  exact sound.single found found' (.inr inTime) (.inr inTime')

theorem challengeable_eq (sound : c.Sound) (readable : c.Readable)
    (found : c.house.auction? id = some r) (inTime : r.phaseAt c.now = .ok .winnersProposed) :
    c.house.challengeable c.now = .ok [id] := by
  obtain ⟨ids, listed, few, member⟩ := sound.challengeable readable
  have here := (member id).mpr ⟨r, found, inTime⟩
  rcases few with rfl | ⟨_, rfl⟩
  · cases here
  · rw [listed, List.mem_singleton.mp here]

end Sound

namespace Disputable

theorem judged (disputable : c.Disputable tower id r p encoding winners) (sound : c.Sound) :
    ∃ entropy close, r.entropy = some entropy ∧ r.closeOffset = some close ∧
      commitment encoding entropy = p.commitment := by
  obtain ⟨entropy, drawn, opened⟩ :=
    sound.opened disputable.found disputable.live disputable.posts
  obtain ⟨close, -, resolved⟩ :=
    (sound.coherent.rounds id r disputable.found).resolved.exists_close drawn
  exact ⟨entropy, close, drawn, resolved, opened⟩

theorem overturns (disputable : c.Disputable tower id r p encoding winners) (logging : Bool)
    (sound : c.Sound) {close disputed : UInt32} {reason : FraudReason}
    (resolved : r.closeOffset = some close)
    (fraud : (⟨winners, p.total⟩ : Claim).fraud? (c.house.ledger id) close r.settings.maxWinners
      disputed = some reason) :
    ∃ entropy, r.Overturns (c.house.ledger id) (c.context logging tower 0) encoding p.commitment
      disputed p entropy close winners reason := by
  obtain ⟨entropy, -, drawn, -, opened⟩ := disputable.judged sound
  exact ⟨entropy, disputable.inTime, disputable.live, drawn, resolved, opened, opened,
    Ne.symm disputable.stranger, disputable.listed, fraud⟩

end Disputable

theorem Wrong.of_settling {other : UInt64} (wrong : c.Wrong tower other p) (sound : c.Sound)
    (found : c.house.auction? id = some r) (settles : r.Settling c.now) :
    other = id ∧ r.proposal = some p ∧ r.phaseAt c.now = .ok .winnersProposed ∧
      p.proposer ≠ tower := by
  obtain ⟨r', encoding, winners, close, disputable, -, -⟩ := wrong
  have same := sound.single disputable.found found (.inr disputable.inTime) settles
  subst same
  cases found.symm.trans disputable.found
  exact ⟨rfl, disputable.live, disputable.inTime, disputable.stranger⟩

theorem Wrong.idle (wrong : c.Wrong tower id p) (sound : c.Sound) :
    c.house.awaitingProposal = [] := by
  rcases sound.awaiting with idle | ⟨other, awaits⟩
  · exact idle
  · obtain ⟨r, found, waiting, -⟩ := sound.waiting awaits
    have effective : r.phaseAt c.now = .ok .waitingClose :=
      Auction.phaseAt_eq_waitingClose.mpr waiting
    obtain ⟨-, -, inTime, -⟩ := wrong.of_settling sound found (.inl effective)
    cases effective.symm.trans inTime

/-- At most one proposal at a time is wrong. -/
theorem Wrong.unique {other : UInt64} {p' : Proposal} (wrong : c.Wrong tower id p)
    (again : c.Wrong tower other p') (sound : c.Sound) : other = id ∧ p' = p := by
  obtain ⟨r, encoding, winners, close, disputable, -, -⟩ := wrong
  obtain ⟨same, live, -, -⟩ := again.of_settling sound disputable.found (.inr disputable.inTime)
  cases live.symm.trans disputable.live
  exact ⟨same, rfl⟩

theorem Wrong.not_correct {close : UInt32} {p' : Proposal} (wrong : c.Wrong tower id p')
    (found : c.house.auction? id = some r) (live : r.proposal = some p)
    (posts : c.Posts id p encoding)
    (listed : r.settings.indexWidth.unpack encoding = .ok winners)
    (resolved : r.closeOffset = some close) :
    ¬ (⟨winners, p.total⟩ : Claim).Correct (c.house.ledger id) close r.settings.maxWinners := by
  obtain ⟨r', encoding', winners', close', disputable, resolved', incorrect⟩ := wrong
  cases found.symm.trans disputable.found
  cases live.symm.trans disputable.live
  cases posts.posted?.symm.trans disputable.posts.posted?
  cases listed.symm.trans disputable.listed
  cases resolved.symm.trans resolved'
  exact incorrect

theorem Right.not_wrong (right : c.Right id r p) (found : c.house.auction? id = some r)
    (live : r.proposal = some p) : ¬ c.Wrong tower id p := by
  obtain ⟨encoding, winners, close, posts, listed, resolved, correct⟩ := right
  exact fun wrong => wrong.not_correct found live posts listed resolved correct

theorem not_wrong_of_right (right : ∀ r p, c.house.auction? id = some r → r.proposal = some p →
    r.phaseAt c.now = .ok .winnersProposed → c.Right id r p) : ¬ c.Wrong tower id p := by
  rintro ⟨r, encoding, winners, close, disputable, resolved, incorrect⟩
  exact (right r p disputable.found disputable.live disputable.inTime).not_wrong disputable.found
    disputable.live ⟨r, encoding, winners, close, disputable, resolved, incorrect⟩

theorem right_of_not_wrong (sound : c.Sound) (found : c.house.auction? id = some r)
    (live : r.proposal = some p) (inTime : r.phaseAt c.now = .ok .winnersProposed)
    (stranger : p.proposer ≠ tower) (right : ¬ c.Wrong tower id p) : c.Right id r p := by
  obtain ⟨encoding, winners, posts, listed⟩ := sound.posted found live
  have disputable : c.Disputable tower id r p encoding winners :=
    ⟨found, live, inTime, stranger, posts, listed⟩
  obtain ⟨entropy, close, -, resolved, -⟩ := disputable.judged sound
  exact ⟨encoding, winners, close, posts, listed, resolved, by_contra fun incorrect =>
    right ⟨r, encoding, winners, close, disputable, resolved, incorrect⟩⟩

/-- What is left of an accepted challenge: the challenger has the deposit, and the round
awaits another proposal. -/
theorem submit_overturned {challenger : Address} {claimed : Word} {disputed : UInt32}
    {found : CounterExample} {balance : UInt64} {outcome : Outcome} {step : Step Outcome}
    (coherent : c.house.Coherent) (held : c.house.auction? id = some r)
    (drawn : r.entropy.isSome = true)
    (grant : Grants c.house (c.context logging challenger 0) c.collaborators
      (.challenge id encoding claimed disputed) [.overturned id p found challenger balance]
      outcome)
    (submits : c.submit logging challenger 0 (.challenge id encoding claimed disputed) = step) :
    step.result = .ok outcome ∧ step.chain.house.balance challenger = balance ∧
      id ∈ step.chain.house.awaitingProposal := by
  subst submits
  have about : (Change.overturned id p found challenger balance).round? = some id := rfl
  obtain ⟨accepted, house⟩ := submit_of_grants grant
  refine ⟨accepted, ?_, ?_⟩
  · rw [house]
    simp [Change.apply]
  · rw [house, List.foldl_cons, List.foldl_nil,
      House.mem_awaitingProposal (coherent.toOrderly.apply about held)]
    exact ⟨_, Change.auction?_apply about held, rfl, drawn⟩

theorem readable_of_proposed {deposit : UInt64} {call : Call} {outcome : Outcome}
    (readable : c.Readable) (held : c.house.auction? id = some r)
    (grant : Grants c.house (c.context logging tower deposit) c.collaborators call
      [.proposed id p] outcome) (dated : p.timestamp = c.now)
    (fits : c.now.toNat + r.settings.fraudPeriod.toNat < UInt64.size) :
    (c.submit logging tower deposit call).chain.Readable := by
  have about : (Change.proposed id p).round? = some id := rfl
  intro other r' found'
  rw [(submit_of_grants grant).2, List.foldl_cons, List.foldl_nil] at found'
  rw [submit_now]
  rcases Change.auction?_apply_cases about held found' with ⟨rfl, rfl⟩ | ⟨-, before⟩
  · exact ⟨_, Auction.phaseAt_of_proposed rfl rfl (dated ▸ fits) (UInt64.le_of_eq dated.symm)⟩
  · exact readable other r' before

end Chain

end CandleAuction
