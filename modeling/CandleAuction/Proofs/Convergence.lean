import CandleAuction.Proofs.Watchtower

/-!
# Two polls bring a chain to rest

At most one round at a time is in winner determination. If it waits, a poll
proposes its winners; if its proposal is wrong, a poll takes the proposal away,
and the next one proposes. What a tower proposes is right, so after two polls
there is nothing left to do, whatever the tower remembers.
-/

namespace CandleAuction

/-- The round that an action has proposed for. -/
def Action.proposed? : Action → Option UInt64
  | .proposed id _ _ => some id
  | .challenged .. => none

variable {g : Genesis} {settlementGas : UInt64} {config : WatchConfig} {c : Chain} {t : Watchtower}
  {tower : Address} {id : UInt64} {r : Auction} {p : Proposal}

theorem Auction.Coherent.settling {bids : Ledger} {now : UInt64} {phase : Phase}
    (coherent : r.Coherent bids) (drawn : r.entropy.isSome = true)
    (effective : r.phaseAt now = .ok phase) (pending : phase ≠ .finalized) : r.Settling now := by
  have stage := coherent.stage
  cases stored : r.phase with
  | created | finalized => simp [Stage, stored] at stage
  | running | endedWithoutBids => simp_all [Stage]
  | waitingClose => exact .inl (phaseAt_eq_waitingClose.mpr stored)
  | winnersProposed =>
      have known := phaseAt_eq_ok.mp effective
      rw [stored] at known
      obtain ⟨deadline, -, rfl⟩ := known
      split at pending
      · exact absurd rfl pending
      · next inTime => exact .inr (by rwa [if_neg inTime] at effective)

namespace Chain

/-- No round waits for a proposal, and the proposals within their windows are right. -/
structure AtRest (c : Chain) : Prop where
  sound : c.Sound
  readable : c.Readable
  idle : c.house.awaitingProposal = []
  right : ∀ id r p, c.house.auction? id = some r → r.proposal = some p →
    r.phaseAt c.now = .ok .winnersProposed → c.Right id r p

theorem AtRest.exists_right (rest : c.AtRest) (found : c.house.auction? id = some r)
    (drawn : r.entropy.isSome = true) (pending : r.phaseAt c.now ≠ .ok .finalized) :
    ∃ p, r.proposal = some p ∧ r.phaseAt c.now = .ok .winnersProposed ∧ c.Right id r p := by
  have round := rest.sound.coherent.rounds id r found
  obtain ⟨phase, effective⟩ := rest.readable id r found
  have settling := round.settling drawn effective fun final => pending (final ▸ effective)
  rcases settling with waiting | inTime
  · have member := (House.mem_awaitingProposal rest.sound.coherent.toOrderly).mpr
      ⟨r, found, Auction.phaseAt_eq_waitingClose.mp waiting, drawn⟩
    rw [rest.idle] at member
    cases member
  · obtain ⟨-, -, -, -, p, live, -⟩ :=
      round.proposed (Auction.phaseAt_eq_winnersProposed.mp inTime).1
    exact ⟨p, live, inTime, rest.right id r p found live inTime⟩

/-- No sum for a deadline overflows, neither that of a live proposal nor that of one made now. -/
structure Timely (c : Chain) : Prop where
  live : ∀ id r p, c.house.auction? id = some r → r.proposal = some p →
    p.timestamp.toNat + r.settings.fraudPeriod.toNat < UInt64.size
  next : ∀ id r, c.house.auction? id = some r → r.entropy.isSome = true →
    r.phaseAt c.now ≠ .ok .finalized → c.now.toNat + r.settings.fraudPeriod.toNat < UInt64.size

theorem Timely.readable (timely : c.Timely) : c.Readable :=
  fun id r found => Auction.exists_phaseAt fun p live => timely.live id r p found live

/-- What a challenge leaves: the round waits without a proposal, and all others are as they were. -/
structure Freed (c : Chain) (id : UInt64) (r : Auction) (after : Chain) : Prop where
  found : c.house.auction? id = some r
  drawn : r.entropy.isSome = true
  inTime : r.phaseAt c.now = .ok .winnersProposed
  now : after.now = c.now
  waits : after.house.auction? id = some { r with phase := .waitingClose, proposal := none }
  others : ∀ other, other ≠ id → after.house.auction? other = c.house.auction? other

theorem Overturned.freed {logging : Bool} {encoding : List UInt8} {shown : CounterExample}
    {after : Chain} (overturned : c.Overturned logging tower id p encoding shown after) :
    ∃ r, c.Freed id r after := by
  obtain ⟨changes, grant⟩ :=
    House.grants_of_dispatch (submit_result.symm.trans overturned.accepted)
  have house := (submit_of_grants grant).2
  rw [← overturned.after_eq] at house
  have now : after.now = c.now := by rw [overturned.after_eq, submit_now]
  cases grant with
  | @challenge _ _ _ _ r p _ _ _ _ balance found overturns _ =>
      have about : (Change.overturned id p shown tower balance).round? = some id := rfl
      refine ⟨r, found, by rw [overturns.drawn]; rfl, overturns.inTime, now, ?_, ?_⟩
      · rw [house]
        exact Change.auction?_apply about found
      · intro other ne
        rw [house]
        exact Change.auction?_apply_of_ne about ne

theorem Freed.readable {after : Chain} (freed : c.Freed id r after) (readable : c.Readable) :
    after.Readable := by
  intro other r' found'
  rw [freed.now]
  by_cases same : other = id
  · subst same
    cases found'.symm.trans freed.waits
    exact ⟨_, Auction.phaseAt_eq_waitingClose.mpr rfl⟩
  · rw [freed.others other same] at found'
    exact readable other r' found'

end Chain

namespace Poll

variable {q q' : Poll} {s : Submission} {deposit : UInt64}

/-- A proposal of a tower brings the chain to rest. -/
theorem Proposes.atRest {logging : Bool} (proposes : q.Proposes logging id r s deposit q')
    (reached : Chain.Reached (· ≤ ·) g settlementGas q.chain) (readable : q.chain.Readable)
    (fits : q.chain.now.toNat + r.settings.fraudPeriod.toNat < UInt64.size) : q'.chain.AtRest := by
  have sound := (proposes.reached logging reached).sound
  obtain ⟨r', found, stored, live, upright⟩ := proposes.upright
  have readable' := Chain.readable_of_proposed readable proposes.found proposes.granted rfl fits
  rw [← proposes.chain] at readable'
  constructor
  case sound => exact sound
  case readable => exact readable'
  case idle =>
    rcases sound.awaiting with idle | ⟨other, awaits⟩
    · exact idle
    · obtain ⟨_, found', waiting, -⟩ := sound.waiting awaits
      cases proposes.only logging reached.sound found'
        (.inl (Auction.phaseAt_eq_waitingClose.mpr waiting))
      cases found.symm.trans found'
      cases stored.symm.trans waiting
  case right =>
    intro other _ p found' live' inTime
    cases proposes.only logging reached.sound found' (.inr inTime)
    cases found.symm.trans found'
    cases live.symm.trans live'
    exact upright

theorem challenge_of_rest (logging : Bool) (rest : q.chain.AtRest) :
    ∃ cleared, Poll.phase q.tower.config.challenge (Poll.challenge logging) q =
      ({ q with tower := { q.tower with cleared := cleared } }, .ok ()) := by
  cases q.tower.config.challenge with
  | false => exact ⟨_, rfl⟩
  | true =>
      exact challenge_of_right logging rest.sound rest.readable fun id _ =>
        Chain.not_wrong_of_right (rest.right id)

end Poll

namespace Watchtower

theorem poll_of_rest (rest : c.AtRest) (t : Watchtower) (logging : Bool) :
    ∃ t', t.poll logging c = (⟨t', c, [], []⟩, .ok ()) := by
  have proposed := Poll.phase_of_idle (q := ⟨t, c, [], []⟩) logging rest.idle
  obtain ⟨cleared, challenged⟩ := Poll.challenge_of_rest (q := ⟨t, c, [], []⟩) logging rest
  exact ⟨_, poll_of_ok proposed challenged⟩

theorem poll_of_awaiting (reached : Chain.Reached (· ≤ ·) g settlementGas c)
    (readable : c.Readable) (proposing : t.config.propose = true)
    (awaits : c.house.awaitingProposal = [id])
    (fits : ∀ r, c.house.auction? id = some r →
      c.now.toNat + r.settings.fraudPeriod.toNat < UInt64.size) (logging : Bool) :
    ∃ q commitment count, t.poll logging c = (q, .ok ()) ∧
      q.actions = [.proposed id commitment count] ∧ q.chain.now = c.now ∧ q.chain.AtRest := by
  obtain ⟨r, s, deposit, q, proposes⟩ :=
    Poll.proposes_of_awaiting (q := ⟨t, c, [], []⟩) logging reached.sound awaits
  have rest := proposes.atRest reached readable (fits r proposes.found)
  have proposed : Poll.phase t.config.propose (Poll.propose logging) ⟨t, c, [], []⟩ = (q, .ok ()) :=
    (if_pos proposing).trans proposes.proposed
  obtain ⟨cleared, challenged⟩ := Poll.challenge_of_rest logging rest
  rw [proposes.config] at challenged
  exact ⟨_, _, _, poll_of_ok proposed challenged, proposes.actions, proposes.now, rest⟩

theorem poll_of_wrong (reached : Chain.Reached (· ≤ ·) g settlementGas c) (readable : c.Readable)
    (enabled : config.challenge = true) (wrong : c.Wrong config.address id p)
    (room : (c.house.balance config.address).toNat + p.deposit.toNat < UInt64.size)
    (logging : Bool) :
    ∃ q found r, (new config).poll logging c = (q, .ok ()) ∧ q.actions = [.challenged id found] ∧
      q.tower.config = config ∧ Chain.Reached (· ≤ ·) g settlementGas q.chain ∧
      q.chain.house.awaitingProposal = [id] ∧ c.Freed id r q.chain := by
  have proposed := Poll.phase_of_idle (q := ⟨new config, c, [], []⟩) logging
    (wrong.idle reached.sound)
  obtain ⟨q, challenged, kept, ⟨-, full⟩ | ⟨encoding, found, acted, overturned⟩⟩ :=
    Poll.challenge_of_wrong (q := ⟨new config, c, [], []⟩) logging reached.sound readable wrong
      List.not_mem_nil
  · exact absurd room (Nat.not_lt.mpr full)
  have reached' : Chain.Reached (· ≤ ·) g settlementGas q.chain := by
    rw [overturned.after_eq]
    exact reached.submit _ _ _ _ (Chain.unfaulted_of_ok overturned.accepted)
  have awaits := reached'.sound.awaiting_eq overturned.awaits
  obtain ⟨r, freed⟩ := overturned.freed
  exact ⟨q.finish, found, r, poll_of_ok proposed ((if_pos enabled).trans challenged), acted,
    congrArg Watchtower.config kept, reached', awaits, freed⟩

/-- Two polls bring a chain to rest. The first challenges if something is wrong, and then the second
proposes. -/
theorem poll_poll (reached : Chain.Reached (· ≤ ·) g settlementGas c)
    (proposing : config.propose = true) (enabled : config.challenge = true)
    (apart : ∀ id r p, c.house.auction? id = some r → r.proposal = some p →
      r.phaseAt c.now = .ok .winnersProposed → p.proposer ≠ config.address)
    (timely : c.Timely)
    (room : ∀ id p, c.Wrong config.address id p →
      (c.house.balance config.address).toNat + p.deposit.toNat < UInt64.size)
    (first second : Bool) :
    ∃ q q', (new config).poll first c = (q, .ok ()) ∧ q.tower.poll second q.chain = (q', .ok ()) ∧
      q'.chain.now = c.now ∧ q'.chain.AtRest ∧
      ((q.actions ++ q'.actions).filterMap Action.challenged?).length ≤ 1 ∧
      ((q.actions ++ q'.actions).filterMap Action.proposed?).length ≤ 1 := by
  have sound := reached.sound
  have readable := timely.readable
  rcases sound.awaiting with idle | ⟨id, awaits⟩
  · by_cases fraud : ∃ id p, c.Wrong config.address id p
    · obtain ⟨id, p, wrong⟩ := fraud
      obtain ⟨q, found, r, polled, acted, kept, reached', awaits, freed⟩ :=
        poll_of_wrong reached readable enabled wrong (room id p wrong) first
      have fits : ∀ r', q.chain.house.auction? id = some r' →
          q.chain.now.toNat + r'.settings.fraudPeriod.toNat < UInt64.size := by
        intro r' found'
        cases found'.symm.trans freed.waits
        rw [freed.now]
        exact timely.next id r freed.found freed.drawn (by simp [freed.inTime])
      obtain ⟨q', commitment, count, polled', acted', now, rest⟩ := poll_of_awaiting reached'
        (freed.readable readable) (by rw [kept]; exact proposing) awaits fits second
      refine ⟨q, q', polled, polled', now.trans freed.now, rest, ?_, ?_⟩ <;> rw [acted, acted']
      · exact Nat.le_refl 1
      · exact Nat.le_refl 1
    · have rest : c.AtRest := ⟨sound, readable, idle, fun id r p found live inTime =>
        Chain.right_of_not_wrong sound found live inTime (apart id r p found live inTime)
          fun wrong => fraud ⟨id, p, wrong⟩⟩
      obtain ⟨t, polled⟩ := poll_of_rest rest (new config) first
      obtain ⟨t', polled'⟩ := poll_of_rest rest t second
      exact ⟨_, _, polled, polled', rfl, rest, Nat.zero_le 1, Nat.zero_le 1⟩
  · have fits : ∀ r, c.house.auction? id = some r →
        c.now.toNat + r.settings.fraudPeriod.toNat < UInt64.size := by
      intro r found
      obtain ⟨_, found', waiting, drawn⟩ := sound.waiting awaits
      cases found.symm.trans found'
      exact timely.next id r found drawn (by simp [Auction.phaseAt_eq_waitingClose.mpr waiting])
    obtain ⟨q, commitment, count, polled, acted, now, rest⟩ :=
      poll_of_awaiting (t := new config) reached readable proposing awaits fits first
    obtain ⟨t, polled'⟩ := poll_of_rest rest q.tower second
    refine ⟨q, _, polled, polled', now, rest, ?_, ?_⟩ <;> rw [acted]
    · exact Nat.zero_le 1
    · exact Nat.le_refl 1

end Watchtower

/-- A tower polls an idle chain, as often as it likes. -/
inductive Polls (t : Watchtower) (c : Chain) : Watchtower → Chain → Prop
  | none : Polls t c t c
  | again {t' : Watchtower} {c' : Chain} (logging : Bool) : Polls t c t' c' →
      Polls t c (t'.poll logging c').1.tower (t'.poll logging c').1.chain

theorem Polls.eq_of_rest {t' : Watchtower} {c' : Chain} (polls : Polls t c t' c')
    (rest : c.AtRest) : c' = c := by
  induction polls with
  | none => rfl
  | @again t' c' logging _ inductionHypothesis =>
      obtain ⟨_, polled⟩ := Watchtower.poll_of_rest (inductionHypothesis ▸ rest) t' logging
      rw [polled]
      exact inductionHypothesis

/-- With a fresh tower that may propose and challenge, two polls bring a chain to rest. Afterwards
each round with its entropy has a live proposal with the canonical list and the exact total,
unless it is final, and no further poll does anything. -/
theorem Watchtower.two_polls_suffice (reached : Chain.Reached (· ≤ ·) g settlementGas c)
    (proposing : config.propose = true) (enabled : config.challenge = true)
    (apart : ∀ id r p, c.house.auction? id = some r → r.proposal = some p →
      r.phaseAt c.now = .ok .winnersProposed → p.proposer ≠ config.address)
    (timely : c.Timely)
    (room : ∀ id p, c.Wrong config.address id p →
      (c.house.balance config.address).toNat + p.deposit.toNat < UInt64.size)
    (first second : Bool) :
    ∃ q q', (new config).poll first c = (q, .ok ()) ∧ q.tower.poll second q.chain = (q', .ok ()) ∧
      q'.chain.now = c.now ∧
      (∀ id r, q'.chain.house.auction? id = some r → r.entropy.isSome = true →
        r.phaseAt c.now ≠ .ok .finalized →
        ∃ p, r.proposal = some p ∧ r.phaseAt c.now = .ok .winnersProposed ∧
          q'.chain.Right id r p) ∧
      ((q.actions ++ q'.actions).filterMap Action.challenged?).length ≤ 1 ∧
      ((q.actions ++ q'.actions).filterMap Action.proposed?).length ≤ 1 ∧
      ∀ t c', Polls q'.tower q'.chain t c' → c' = q'.chain ∧
        ∀ logging, ∃ t', t.poll logging c' = (⟨t', c', [], []⟩, .ok ()) := by
  obtain ⟨q, q', polled, polled', now, rest, challenges, proposals⟩ :=
    poll_poll reached proposing enabled apart timely room first second
  refine ⟨q, q', polled, polled', now, ?_, challenges, proposals, ?_⟩
  · intro id r found drawn pending
    rw [← now] at pending ⊢
    exact rest.exists_right found drawn pending
  · intro t c' polls
    cases polls.eq_of_rest rest
    exact ⟨rfl, poll_of_rest rest t⟩

namespace Sample

theorem timely_misled : misled.chain.Timely where
  live := dated_misled.live
  next id r found _ _ := by
    rw [misled_now, (rounds_misled id r found).1]
    decide

theorem apart_misled : ∀ id r p, misled.chain.house.auction? id = some r →
    r.proposal = some p → r.phaseAt misled.chain.now = .ok .winnersProposed →
    p.proposer ≠ WatchConfig.standard.address := by
  intro id r p found live _
  rw [((rounds_misled id r found).2 p live).2]
  decide

theorem room_misled : ∀ id p, misled.chain.Wrong WatchConfig.standard.address id p →
    (misled.chain.house.balance WatchConfig.standard.address).toNat + p.deposit.toNat <
      UInt64.size := by
  intro id p wrong
  obtain ⟨-, rfl⟩ := wrong_misled.unique wrong reached_misled.sound
  have empty : misled.chain.house.balance WatchConfig.standard.address = 0 := by
    rw [misled_house]
    rfl
  rw [empty]
  decide

end Sample

/-- The proposed loser of the sample round is challenged, and then its winner is proposed. -/
theorem Watchtower.two_polls_suffice_misled :
    Chain.Reached (· ≤ ·) Sample.genesis 0 Sample.misled.chain ∧
      WatchConfig.standard.propose = true ∧ WatchConfig.standard.challenge = true ∧
      Sample.misled.chain.Timely ∧
      ∃ q q' found, (new .standard).poll false Sample.misled.chain = (q, .ok ()) ∧
        q.actions = [.challenged 1 found] ∧ q.tower.poll false q.chain = (q', .ok ()) ∧
        (∀ r, q'.chain.house.auction? 1 = some r → r.entropy.isSome = true →
          r.phaseAt Sample.misled.chain.now ≠ .ok .finalized →
          ∃ p, r.proposal = some p ∧ q'.chain.Right 1 r p) ∧
        ∃ t, q'.tower.poll false q'.chain = (⟨t, q'.chain, [], []⟩, .ok ()) := by
  obtain ⟨q, q', polled, polled', -, upheld, -, -, still⟩ := two_polls_suffice
    Sample.reached_misled rfl rfl Sample.apart_misled Sample.timely_misled Sample.room_misled
    false false
  obtain ⟨_, found, _, again, acted, -⟩ := poll_of_wrong Sample.reached_misled
    Sample.timely_misled.readable rfl Sample.wrong_misled
    (Sample.room_misled _ _ Sample.wrong_misled) false
  cases polled.symm.trans again
  refine ⟨Sample.reached_misled, rfl, rfl, Sample.timely_misled, q, q', found, polled, acted,
    polled', ?_, (still _ _ .none).2 false⟩
  intro r held drawn pending
  obtain ⟨p, live, -, right⟩ := upheld 1 r held drawn pending
  exact ⟨p, live, right⟩

end CandleAuction
