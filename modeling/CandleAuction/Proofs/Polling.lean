import CandleAuction.Proofs.Disputes
import CandleAuction.Proofs.Honesty
import CandleAuction.Watchtower

/-!
# What a poll does

The log leads a tower to the list behind the proposal that is live, and the
search for a counter-example finds one exactly if the list or the total is
wrong. What the tower proposes itself is accepted, and it is right.
-/

namespace CandleAuction

namespace Poll

variable {q : Poll} {logging : Bool} {value : UInt64} {call : Call}
  {outcome : CandleAuction.Outcome}
  {rejection : Rejection} {accepted : Poll → Poll} {rejected : Poll → Rejection → Poll}
  {event : Event} {id : UInt64} {r : Auction} {p : Proposal} {encoding : List UInt8}
  {winners : List UInt32}

@[simp]
theorem note_tower : (q.note logging event).tower = q.tower := by cases logging <;> rfl

@[simp]
theorem note_chain : (q.note logging event).chain = q.chain := by cases logging <;> rfl

@[simp]
theorem note_actions : (q.note logging event).actions = q.actions := by cases logging <;> rfl

/-- A poll after its tower has made a call. -/
def made (q : Poll) (logging : Bool) (value : UInt64) (call : Call) : Poll :=
  let step := q.chain.submit logging q.tower.config.address value call
  ⟨q.tower, step.chain, q.actions, q.events ++ step.events⟩

theorem send_of_ok
    (taken : (q.chain.submit logging q.tower.config.address value call).result = .ok outcome) :
    q.send logging value call accepted rejected =
      (accepted (q.made logging value call), .ok ()) := by
  unfold send
  simp only [taken]
  rfl

theorem send_of_rejected
    (refused : (q.chain.submit logging q.tower.config.address value call).result =
      .error (.rejected rejection)) :
    q.send logging value call accepted rejected =
      (rejected (q.made logging value call) rejection, .ok ()) := by
  unfold send
  simp only [refused]
  rfl

/-! ## Challenges -/

variable (logging)

theorem inspect_of_passed (found : q.chain.house.auction? id = some r)
    (live : r.proposal = some p)
    (passed : p.proposer = q.tower.config.address ∨ p.commitment ∈ q.tower.cleared) :
    q.inspect logging id = (q, none) := by
  simp [inspect, found, live, passed]

theorem inspect_of_disputable {close : UInt32} (sound : q.chain.Sound)
    (disputable : q.chain.Disputable q.tower.config.address id r p encoding winners)
    (resolved : r.closeOffset = some close) (fresh : p.commitment ∉ q.tower.cleared) :
    q.inspect logging id =
      ((⟨winners, p.total⟩ : Claim).counterExample? (q.chain.house.ledger id) close
        r.settings.maxWinners).elim
        ({ q with tower := { q.tower with cleared := p.commitment :: q.tower.cleared } }, none)
        fun found => (q, some ⟨id, encoding, p.commitment, found⟩) := by
  obtain ⟨entropy, _, drawn, -, opened⟩ := disputable.judged sound
  simp only [inspect, disputable.found, disputable.live, disputable.stranger, fresh,
    disputable.posts.posted?, drawn, resolved, opened, disputable.listed, or_self, if_false,
    Option.bind_eq_bind, Option.bind_some, Option.pure_def, ne_eq, not_true_eq_false]
  cases (⟨winners, p.total⟩ : Claim).counterExample? (q.chain.house.ledger id) close
    r.settings.maxWinners <;> rfl

theorem inspect_of_right (sound : q.chain.Sound) (found : q.chain.house.auction? id = some r)
    (inTime : r.phaseAt q.chain.now = .ok .winnersProposed)
    (right : ∀ p, ¬ q.chain.Wrong q.tower.config.address id p) :
    ∃ cleared, q.inspect logging id =
      ({ q with tower := { q.tower with cleared := cleared } }, none) := by
  have round := sound.coherent.rounds id r found
  obtain ⟨-, -, -, -, p, live, -⟩ :=
    round.proposed (Auction.phaseAt_eq_winnersProposed.mp inTime).1
  by_cases passed : p.proposer = q.tower.config.address ∨ p.commitment ∈ q.tower.cleared
  · exact ⟨_, inspect_of_passed logging found live passed⟩
  obtain ⟨stranger, fresh⟩ := not_or.mp passed
  obtain ⟨encoding, winners, posts, listed⟩ := sound.posted found live
  have disputable : q.chain.Disputable q.tower.config.address id r p encoding winners :=
    ⟨found, live, inTime, stranger, posts, listed⟩
  obtain ⟨entropy, close, -, resolved, -⟩ := disputable.judged sound
  have correct := by_contra fun wrong =>
    right p ⟨r, encoding, winners, close, disputable, resolved, wrong⟩
  have none := Claim.counterExample?_eq_none_iff.mpr (correct.fraud?_eq_none round.indexed)
  rw [inspect_of_disputable logging sound disputable resolved fresh, none]
  exact ⟨_, rfl⟩

theorem inspect_of_wrong (sound : q.chain.Sound)
    (wrong : q.chain.Wrong q.tower.config.address id p) (fresh : p.commitment ∉ q.tower.cleared) :
    ∃ r encoding found entropy close winners,
      q.inspect logging id = (q, some ⟨id, encoding, p.commitment, found⟩) ∧
      q.chain.house.auction? id = some r ∧ q.chain.Posts id p encoding ∧
      r.Overturns (q.chain.house.ledger id) (q.chain.context logging q.tower.config.address 0)
        encoding p.commitment found.disputed p entropy close winners found.reason := by
  obtain ⟨r, encoding, winners, close, disputable, resolved, incorrect⟩ := wrong
  have indexed := (sound.coherent.rounds id r disputable.found).indexed
  have inspected := inspect_of_disputable logging sound disputable resolved fresh
  cases shown : (⟨winners, p.total⟩ : Claim).counterExample? (q.chain.house.ledger id) close
      r.settings.maxWinners with
  | none =>
      exact absurd (Claim.correct_of_fraud?_eq_none indexed
        (Claim.counterExample?_eq_none_iff.mp shown)) incorrect
  | some found =>
      rw [shown] at inspected
      obtain ⟨entropy, overturns⟩ := disputable.overturns logging sound resolved
        (Claim.fraud?_of_counterExample? shown)
      exact ⟨r, encoding, found, entropy, close, winners, inspected, disputable.found,
        disputable.posts, overturns⟩

theorem raise_of_ok {d : Dispute}
    (taken : (q.chain.submit logging q.tower.config.address 0
      (.challenge d.auction d.encoding d.claimed d.found.disputed)).result = .ok outcome) :
    ∃ q', q.raise logging d = (q', .ok ()) ∧ q'.tower = q.tower ∧
      q'.chain = (q.chain.submit logging q.tower.config.address 0
        (.challenge d.auction d.encoding d.claimed d.found.disputed)).chain ∧
      q'.actions = q.actions ++ [.challenged d.auction d.found] := by
  rw [raise, send_of_ok taken]
  refine ⟨_, rfl, ?_, ?_, ?_⟩ <;> simp [made]

theorem raise_of_rejected {d : Dispute}
    (refused : (q.chain.submit logging q.tower.config.address 0
      (.challenge d.auction d.encoding d.claimed d.found.disputed)).result =
        .error (.rejected rejection)) :
    ∃ q', q.raise logging d = (q', .ok ()) ∧ q'.tower = q.tower ∧ q'.actions = q.actions := by
  rw [raise, send_of_rejected refused]
  refine ⟨_, rfl, ?_, ?_⟩ <;> simp [made]

theorem forEach_singleton {α : Type} {step : Poll → α → Poll.Outcome} {item : α} :
    forEach step q [item] = step q item := by
  rw [forEach]
  rcases step q item with ⟨q', _ | ⟨⟩⟩ <;> rfl

theorem challenge_of_inspected {q' : Poll} (sound : q.chain.Sound) (readable : q.chain.Readable)
    (found : q.chain.house.auction? id = some r)
    (inTime : r.phaseAt q.chain.now = .ok .winnersProposed)
    (inspected : q.inspect logging id = (q', none)) : q.challenge logging = (q', .ok ()) := by
  rw [challenge, sound.challengeable_eq readable found inTime]
  simp only [inspectAll, inspected]
  rfl

theorem challenge_of_correct {close : UInt32} (sound : q.chain.Sound) (readable : q.chain.Readable)
    (disputable : q.chain.Disputable q.tower.config.address id r p encoding winners)
    (resolved : r.closeOffset = some close) (fresh : p.commitment ∉ q.tower.cleared)
    (correct : (⟨winners, p.total⟩ : Claim).Correct (q.chain.house.ledger id) close
      r.settings.maxWinners) :
    q.challenge logging =
      ({ q with tower := { q.tower with cleared := p.commitment :: q.tower.cleared } },
        .ok ()) := by
  refine challenge_of_inspected logging sound readable disputable.found disputable.inTime ?_
  have indexed := (sound.coherent.rounds id r disputable.found).indexed
  have none := Claim.counterExample?_eq_none_iff.mpr (correct.fraud?_eq_none indexed)
  rw [inspect_of_disputable logging sound disputable resolved fresh, none]
  rfl

theorem challenge_of_right (sound : q.chain.Sound) (readable : q.chain.Readable)
    (right : ∀ id p, ¬ q.chain.Wrong q.tower.config.address id p) :
    ∃ cleared, q.challenge logging =
      ({ q with tower := { q.tower with cleared := cleared } }, .ok ()) := by
  obtain ⟨ids, listed, few, member⟩ := sound.challengeable readable
  rcases few with rfl | ⟨id, rfl⟩
  · exact ⟨_, by rw [challenge, listed]; rfl⟩
  · obtain ⟨r, found, inTime⟩ := (member id).mp List.mem_cons_self
    obtain ⟨cleared, inspected⟩ := inspect_of_right logging sound found inTime (right id)
    exact ⟨cleared, challenge_of_inspected logging sound readable found inTime inspected⟩

theorem challenge_of_wrong (sound : q.chain.Sound) (readable : q.chain.Readable)
    (wrong : q.chain.Wrong q.tower.config.address id p) (fresh : p.commitment ∉ q.tower.cleared) :
    ∃ q', q.challenge logging = (q', .ok ()) ∧ q'.tower = q.tower ∧
      ((q'.actions = q.actions ∧ UInt64.size ≤
          (q.chain.house.balance q.tower.config.address).toNat + p.deposit.toNat) ∨
        ∃ encoding found, q'.actions = q.actions ++ [.challenged id found] ∧
          q.chain.Overturned logging q.tower.config.address id p encoding found q'.chain) := by
  obtain ⟨r, encoding, found, entropy, close, winners, inspected, held, posts, overturns⟩ :=
    inspect_of_wrong logging sound wrong fresh
  have raised : q.challenge logging = q.raise logging ⟨id, encoding, p.commitment, found⟩ := by
    rw [challenge, sound.challengeable_eq readable held overturns.inTime]
    simp only [inspectAll, inspected]
    exact forEach_singleton
  rw [raised]
  rcases House.overturned_or_overflows (c := q.chain.collaborators) held overturns with
    ⟨balance, credited, grant⟩ | ⟨refused, full⟩
  · obtain ⟨taken, balanced, awaits⟩ := Chain.submit_overturned sound.coherent held
      (by rw [overturns.drawn]; rfl) grant rfl
    obtain ⟨q', sent, kept, after, acted⟩ :=
      raise_of_ok logging (d := ⟨id, encoding, p.commitment, found⟩) taken
    refine ⟨q', sent, kept, .inr ⟨encoding, found, acted, wrong, posts, taken, after, ?_, ?_⟩⟩
    · rw [after, balanced, credited]
      rfl
    · rw [after]
      exact awaits
  · obtain ⟨q', sent, kept, acted⟩ := raise_of_rejected logging
      (d := ⟨id, encoding, p.commitment, found⟩) (Chain.submit_result.trans refused)
    exact ⟨q', sent, kept, .inl ⟨acted, full⟩⟩

/-- A fresh tower challenges the wrong proposal if there is one. -/
theorem challenge_outcome (sound : q.chain.Sound) (readable : q.chain.Readable)
    (fresh : q.tower.cleared = []) :
    ∃ q', q.challenge logging = (q', .ok ()) ∧
      ((q'.actions = q.actions ∧ ∀ id p, q.chain.Wrong q.tower.config.address id p →
          UInt64.size ≤ (q.chain.house.balance q.tower.config.address).toNat + p.deposit.toNat) ∨
        ∃ id p encoding found, q'.actions = q.actions ++ [.challenged id found] ∧
          q.chain.Overturned logging q.tower.config.address id p encoding found q'.chain) := by
  by_cases fraud : ∃ id p, q.chain.Wrong q.tower.config.address id p
  · obtain ⟨id, p, wrong⟩ := fraud
    obtain ⟨q', challenged, -, ⟨idle, full⟩ | ⟨encoding, found, acted, overturned⟩⟩ :=
      challenge_of_wrong logging sound readable wrong (by rw [fresh]; exact List.not_mem_nil)
    · refine ⟨q', challenged, .inl ⟨idle, fun other p' again => ?_⟩⟩
      obtain ⟨rfl, rfl⟩ := wrong.unique again sound
      exact full
    · exact ⟨q', challenged, .inr ⟨id, p, encoding, found, acted, overturned⟩⟩
  · have right : ∀ id p, ¬ q.chain.Wrong q.tower.config.address id p :=
      fun id p wrong => fraud ⟨id, p, wrong⟩
    obtain ⟨cleared, challenged⟩ := challenge_of_right logging sound readable right
    exact ⟨_, challenged, .inl ⟨rfl, fun id p wrong => absurd wrong (right id p)⟩⟩

/-! ## Proposals -/

theorem proposeFor_of_ok {snapshot : Snapshot} {s : Submission}
    (computed : snapshot.submission = .ok s)
    (taken : (q.chain.submit logging q.tower.config.address
      ((q.chain.house.requiredDeposit? s.auction).getD 0)
      (.proposeWinners s.auction s.encoding s.commitment s.total)).result = .ok outcome) :
    ∃ q', q.proposeFor logging snapshot = (q', .ok ()) ∧ q'.tower.config = q.tower.config ∧
      q'.tower.cleared = s.commitment :: q.tower.cleared ∧
      q'.chain = (q.chain.submit logging q.tower.config.address
        ((q.chain.house.requiredDeposit? s.auction).getD 0)
        (.proposeWinners s.auction s.encoding s.commitment s.total)).chain ∧
      q'.actions = q.actions ++ [.proposed s.auction s.commitment s.winners.length] := by
  rw [proposeFor, computed]
  simp only [send_of_ok taken]
  refine ⟨_, rfl, ?_, ?_, ?_, ?_⟩ <;> simp [made]

/-- The proposal that a tower makes of a submission. -/
def offer (q : Poll) (r : Auction) (s : Submission) (deposit : UInt64) : Proposal :=
  r.proposalFor (q.chain.context logging q.tower.config.address deposit) s.commitment
    s.winners.length s.total

/-- The tower proposes the winners of the round that waits, with the deposit that it asks for. -/
structure Proposes (q : Poll) (id : UInt64) (r : Auction) (s : Submission) (deposit : UInt64)
    (q' : Poll) : Prop where
  found : q.chain.house.auction? id = some r
  waiting : r.phase = .waitingClose
  honest : ∃ entropy close, s.Honest r (q.chain.house.ledger id) entropy close
  granted : Grants q.chain.house (q.chain.context logging q.tower.config.address deposit)
    q.chain.collaborators (.proposeWinners id s.encoding s.commitment s.total)
    [.proposed id (q.offer logging r s deposit)] .proposed
  proposed : q.propose logging = (q', .ok ())
  config : q'.tower.config = q.tower.config
  cleared : q'.tower.cleared = s.commitment :: q.tower.cleared
  chain : q'.chain = (q.chain.submit logging q.tower.config.address deposit
    (.proposeWinners id s.encoding s.commitment s.total)).chain
  actions : q'.actions = q.actions ++ [.proposed id s.commitment s.winners.length]

theorem propose_of_idle (idle : q.chain.house.awaitingProposal = []) :
    q.propose logging = (q, .ok ()) := by
  rw [propose, idle]
  rfl

theorem phase_of_idle (idle : q.chain.house.awaitingProposal = []) :
    phase q.tower.config.propose (propose logging) q = (q, .ok ()) := by
  cases q.tower.config.propose with
  | false => rfl
  | true => exact propose_of_idle logging idle

theorem proposes_of_awaiting (sound : q.chain.Sound)
    (awaits : q.chain.house.awaitingProposal = [id]) :
    ∃ r s deposit q', q.Proposes logging id r s deposit q' := by
  obtain ⟨r, found, waiting, drawn⟩ := sound.waiting awaits
  obtain ⟨entropy, drawn⟩ := Option.isSome_iff_exists.mp drawn
  have round := sound.coherent.rounds id r found
  obtain ⟨close, -, resolved⟩ := round.resolved.exists_close drawn
  obtain ⟨s, computed, rfl, honest⟩ := round.submission id (round.waiting waiting).1 drawn resolved
  have bonded : ∀ deposit ∈ q.chain.house.requiredDeposit? s.auction,
      deposit ≤ (q.chain.house.requiredDeposit? s.auction).getD 0 := by
    rintro deposit known
    rw [known]
    exact UInt64.le_refl _
  have grant : Grants q.chain.house (q.chain.context logging q.tower.config.address _)
      q.chain.collaborators _ _ _ := House.grants_honest found waiting honest bonded
  obtain ⟨q', proposed, config, cleared, chain, actions⟩ :=
    proposeFor_of_ok logging computed (Chain.submit_of_grants grant).1
  have proposed : q.propose logging = (q', .ok ()) := by
    rw [propose, awaits]
    simp only [List.mapM_cons, List.mapM_nil, House.snapshot_eq_ok found drawn resolved]
    exact forEach_singleton.trans proposed
  exact ⟨r, s, _, q', found, waiting, ⟨_, _, honest⟩, grant, proposed, config, cleared, chain,
    actions⟩

variable {g : Genesis} {settlementGas : UInt64} {s : Submission} {deposit : UInt64} {q' : Poll}

theorem Proposes.reached (proposes : q.Proposes logging id r s deposit q')
    (reached : Chain.Reached (· ≤ ·) g settlementGas q.chain) :
    Chain.Reached (· ≤ ·) g settlementGas q'.chain := by
  rw [proposes.chain]
  have accepted := (Chain.submit_of_grants proposes.granted).1
  exact reached.submit _ _ _ _ (Chain.unfaulted_of_ok accepted)

theorem Proposes.house (proposes : q.Proposes logging id r s deposit q') :
    q'.chain.house = (Change.proposed id (q.offer logging r s deposit)).apply q.chain.house := by
  rw [proposes.chain]
  exact (Chain.submit_of_grants proposes.granted).2

theorem Proposes.now (proposes : q.Proposes logging id r s deposit q') :
    q'.chain.now = q.chain.now := by
  rw [proposes.chain, Chain.submit_now]

theorem Proposes.upright (proposes : q.Proposes logging id r s deposit q') :
    ∃ r', q'.chain.house.auction? id = some r' ∧ r'.phase = .winnersProposed ∧
      r'.proposal = some (q.offer logging r s deposit) ∧
      q'.chain.Right id r' (q.offer logging r s deposit) := by
  have about : (Change.proposed id (q.offer logging r s deposit)).round? = some id := rfl
  have posts := Chain.posts_of_submit (p := q.offer logging r s deposit)
    (Chain.submit_of_grants proposes.granted).1 ⟨rfl, rfl, rfl⟩
  rw [← proposes.chain] at posts
  obtain ⟨entropy, close, honest⟩ := proposes.honest
  refine ⟨(Change.proposed id (q.offer logging r s deposit)).revise r, ?_, rfl, rfl, s.encoding,
    s.winners, close, posts, honest.listed, honest.resolved, ?_⟩
  · rw [proposes.house]
    exact Change.auction?_apply about proposes.found
  · rw [proposes.house]
    exact honest.correct

theorem Proposes.only {other : UInt64} {r' : Auction}
    (proposes : q.Proposes logging id r s deposit q') (sound : q.chain.Sound)
    (found : q'.chain.house.auction? other = some r') (settles : r'.Settling q'.chain.now) :
    other = id := by
  by_contra ne
  have about : (Change.proposed id (q.offer logging r s deposit)).round? = some id := rfl
  rw [proposes.house, Change.auction?_apply_of_ne about ne] at found
  rw [proposes.now] at settles
  exact ne (sound.single found proposes.found settles
    (.inl (Auction.phaseAt_eq_waitingClose.mpr proposes.waiting)))

theorem Proposes.right (sound : q.chain.Sound)
    (proposes : q.Proposes logging id r s deposit q') (other : UInt64) (p : Proposal) :
    ¬ q'.chain.Wrong q.tower.config.address other p := by
  refine Chain.not_wrong_of_right fun r' p' found' live' inTime => ?_
  cases proposes.only logging sound found' (.inr inTime)
  obtain ⟨_, found, -, live, upright⟩ := proposes.upright
  cases found.symm.trans found'
  cases live.symm.trans live'
  exact upright

theorem propose_of_awaiting (reached : Chain.Reached (· ≤ ·) g settlementGas q.chain)
    (readable : q.chain.Readable)
    (awaits : q.chain.house.awaitingProposal = [id])
    (fits : ∀ r, q.chain.house.auction? id = some r →
      q.chain.now.toNat + r.settings.fraudPeriod.toNat < UInt64.size) :
    ∃ q', q.propose logging = (q', .ok ()) ∧ q'.tower.config = q.tower.config ∧
      (∃ commitment count, q'.actions = q.actions ++ [.proposed id commitment count]) ∧
      q'.chain.Sound ∧ q'.chain.Readable ∧
      ∀ other p, ¬ q'.chain.Wrong q.tower.config.address other p := by
  obtain ⟨r, s, deposit, q', proposes⟩ := proposes_of_awaiting logging reached.sound awaits
  have readable' := Chain.readable_of_proposed readable proposes.found proposes.granted rfl
    (fits r proposes.found)
  rw [← proposes.chain] at readable'
  exact ⟨q', proposes.proposed, proposes.config, ⟨_, _, proposes.actions⟩,
    (proposes.reached logging reached).sound, readable', proposes.right logging reached.sound⟩

/-- What a tower proposes is no challenge, and it proposes nothing where something is wrong. -/
theorem propose_outcome (reached : Chain.Reached (· ≤ ·) g settlementGas q.chain)
    (dated : q.chain.Dated q.tower.config.propose) :
    ∃ q', phase q.tower.config.propose (propose logging) q = (q', .ok ()) ∧ (q' = q ∨
      q'.tower.config = q.tower.config ∧
      (∃ id commitment count, q'.actions = q.actions ++ [.proposed id commitment count]) ∧
      (∀ id p, ¬ q.chain.Wrong q.tower.config.address id p) ∧
      q'.chain.Sound ∧ q'.chain.Readable ∧
      ∀ id p, ¬ q'.chain.Wrong q.tower.config.address id p) := by
  have sound := reached.sound
  cases proposing : q.tower.config.propose with
  | false => exact ⟨q, rfl, .inl rfl⟩
  | true =>
      rw [phase, if_pos rfl]
      rcases sound.awaiting with none | ⟨id, awaits⟩
      · exact ⟨q, propose_of_idle logging none, .inl rfl⟩
      have member : id ∈ q.chain.house.awaitingProposal := awaits ▸ List.mem_cons_self
      obtain ⟨q', proposed, kept, acted, outcome⟩ := propose_of_awaiting logging reached
        dated.readable awaits (dated.next proposing id member)
      refine ⟨q', proposed, .inr ⟨kept, ⟨id, acted⟩, ?_, outcome⟩⟩
      intro other p wrong
      cases awaits.symm.trans (wrong.idle sound)

end Poll

end CandleAuction
