import CandleAuction.Proofs.Postings
import CandleAuction.Proofs.Recollection
import CandleAuction.Proofs.Watchtower

/-!
# What a watchtower remembers

A tower remembers commitments only, and a commitment says nothing of the round
or the total it was posted with. What it remembers was right when it was posted,
so its memory is harmless as long as the hash keeps the rounds apart. If the
entropy of a round is repeated, a wrong proposal that repeats a right list is
passed by.
-/

namespace CandleAuction

/-- A chain and one tower that watches it: anything may be submitted, any requests answered and
the clock moved on, and the tower polls in between as often as it likes. -/
inductive Watched (g : Genesis) (settlementGas : UInt64) (config : WatchConfig) :
    Chain → Watchtower → Prop
  | created {c : Chain} : Chain.Reached (· ≤ ·) g settlementGas c →
      Watched g settlementGas config c (.new config)
  | submit {c : Chain} {t : Watchtower} (logging : Bool) (sender : Address) (value : UInt64)
      (call : Call) : Watched g settlementGas config c t →
      Chain.Unfaulted (c.submit logging sender value call) →
      Watched g settlementGas config (c.submit logging sender value call).chain t
  | deliver {c : Chain} {t : Watchtower} (logging : Bool) : Watched g settlementGas config c t →
      Chain.Unfaulted (c.deliver logging) →
      Watched g settlementGas config (c.deliver logging).chain t
  | clock {c : Chain} {t : Watchtower} (height now : UInt64) : Watched g settlementGas config c t →
      c.now ≤ now → Watched g settlementGas config { c with height := height, now := now } t
  | price {c : Chain} {t : Watchtower} (gasPrice : UInt64) : Watched g settlementGas config c t →
      Watched g settlementGas config { c with gasPrice := gasPrice } t
  | poll {c : Chain} {t : Watchtower} (logging : Bool) : Watched g settlementGas config c t →
      (∀ fault, (t.poll logging c).2 ≠ .error (.fault fault)) →
      Watched g settlementGas config (t.poll logging c).1.chain (t.poll logging c).1.tower

/-- A chain with a tower whose memory holds nothing but what was right. -/
structure Mindful (g : Genesis) (settlementGas : UInt64) (config : WatchConfig) (c : Chain)
    (t : Watchtower) : Prop where
  reached : Chain.Reached (· ≤ ·) g settlementGas c
  config : t.config = config
  remembers : ∀ word ∈ t.cleared, c.Remembers word

variable {g : Genesis} {settlementGas : UInt64} {config : WatchConfig} {c : Chain} {t : Watchtower}
  {q : Poll} {logging : Bool} {id : UInt64} {r : Auction}

theorem Mindful.submit {sender : Address} {value : UInt64} {call : Call}
    (mindful : Mindful g settlementGas config c t)
    (unfaulted : Chain.Unfaulted (c.submit logging sender value call)) :
    Mindful g settlementGas config (c.submit logging sender value call).chain t where
  reached := mindful.reached.submit logging sender value call unfaulted
  config := mindful.config
  remembers word member := (mindful.remembers word member).submit mindful.reached.sound unfaulted

namespace Poll

theorem mindful_propose (mindful : Mindful g settlementGas config q.chain q.tower) :
    ∃ q', q.propose logging = (q', .ok ()) ∧ Mindful g settlementGas config q'.chain q'.tower := by
  rcases mindful.reached.sound.awaiting with none | ⟨id, awaits⟩
  · exact ⟨q, propose_of_idle logging none, mindful⟩
  · obtain ⟨r, s, deposit, q', proposes⟩ :=
      proposes_of_awaiting logging mindful.reached.sound awaits
    have accepted := Chain.unfaulted_of_ok (Chain.submit_of_grants proposes.granted).1
    have submitted := mindful.submit accepted
    have reached := proposes.reached logging mindful.reached
    refine ⟨q', proposes.proposed, reached, proposes.config.trans mindful.config, ?_⟩
    obtain ⟨r', found, stored, live, upright⟩ := proposes.upright
    rw [proposes.cleared, List.forall_mem_cons]
    refine ⟨upright.remembers reached.sound found stored live, ?_⟩
    rw [proposes.chain]
    exact submitted.remembers

theorem mindful_inspect (logging : Bool) (mindful : Mindful g settlementGas config q.chain q.tower)
    (found : q.chain.house.auction? id = some r)
    (inTime : r.phaseAt q.chain.now = .ok .winnersProposed) :
    Mindful g settlementGas config (q.inspect logging id).1.chain
      (q.inspect logging id).1.tower := by
  have sound := mindful.reached.sound
  have round := sound.coherent.rounds id r found
  have stored := (Auction.phaseAt_eq_winnersProposed.mp inTime).1
  obtain ⟨-, -, -, -, p, live, -⟩ := round.proposed stored
  by_cases passed : p.proposer = q.tower.config.address ∨ p.commitment ∈ q.tower.cleared
  · rw [inspect_of_passed logging found live passed]
    exact mindful
  obtain ⟨stranger, fresh⟩ := not_or.mp passed
  obtain ⟨encoding, winners, posts, listed⟩ := sound.posted found live
  have disputable : q.chain.Disputable q.tower.config.address id r p encoding winners :=
    ⟨found, live, inTime, stranger, posts, listed⟩
  obtain ⟨entropy, close, -, resolved, -⟩ := disputable.judged sound
  rw [inspect_of_disputable logging sound disputable resolved fresh]
  cases shown : (⟨winners, p.total⟩ : Claim).counterExample? (q.chain.house.ledger id) close
      r.settings.maxWinners with
  | some found => exact mindful
  | none =>
      have correct := Claim.correct_of_fraud?_eq_none round.indexed
        (Claim.counterExample?_eq_none_iff.mp shown)
      have right : q.chain.Right id r p :=
        ⟨encoding, winners, close, posts, listed, resolved, correct⟩
      exact ⟨mindful.reached, mindful.config, List.forall_mem_cons.mpr
        ⟨right.remembers sound found stored live, mindful.remembers⟩⟩

theorem raise_of_unfaulted {d : Dispute}
    (going : ∀ fault, (q.raise logging d).2 ≠ .error (.fault fault)) :
    ∃ call, Chain.Unfaulted (q.chain.submit logging q.tower.config.address 0 call) ∧
      (q.raise logging d).1.chain =
        (q.chain.submit logging q.tower.config.address 0 call).chain ∧
      (q.raise logging d).1.tower = q.tower := by
  refine ⟨.challenge d.auction d.encoding d.claimed d.found.disputed, ?_⟩
  unfold raise send at going ⊢
  dsimp only at going ⊢
  cases result : (q.chain.submit logging q.tower.config.address 0
      (.challenge d.auction d.encoding d.claimed d.found.disputed)).result with
  | ok outcome => exact ⟨Chain.unfaulted_of_ok result, by simp, by simp⟩
  | error halt =>
      cases halt with
      | fault fault =>
          simp only [result] at going
          exact absurd rfl (going fault)
      | rejected rejection =>
          refine ⟨fun fault stopped => ?_, by simp, by simp⟩
          cases result.symm.trans stopped

theorem mindful_challenge (mindful : Mindful g settlementGas config q.chain q.tower)
    (going : ∀ fault, (q.challenge logging).2 ≠ .error (.fault fault)) :
    Mindful g settlementGas config (q.challenge logging).1.chain
      (q.challenge logging).1.tower := by
  unfold challenge at going ⊢
  cases listed : q.chain.house.challengeable q.chain.now with
  | error fault => exact mindful
  | ok ids =>
      obtain ⟨ids', listed', few, member⟩ :=
        mindful.reached.sound.challengeable (Chain.readable_of_challengeable listed)
      cases listed.symm.trans listed'
      rcases few with rfl | ⟨id, rfl⟩
      · exact mindful
      obtain ⟨r, found, inTime⟩ := (member id).mp List.mem_cons_self
      have inspected := mindful_inspect logging mindful found inTime
      simp only [listed, inspectAll] at going ⊢
      generalize q.inspect logging id = inspection at inspected going ⊢
      obtain ⟨p, dispute⟩ := inspection
      cases dispute with
      | none => exact inspected
      | some d =>
          simp only [Option.toList, List.append_nil, forEach_singleton] at going ⊢
          obtain ⟨call, unfaulted, chain, tower⟩ := raise_of_unfaulted going
          rw [chain, tower]
          exact inspected.submit unfaulted

end Poll

theorem Watchtower.poll_of_proposed
    (proposed : Poll.phase t.config.propose (Poll.propose logging) ⟨t, c, [], []⟩ = (q, .ok ())) :
    (t.poll logging c).2 = (Poll.phase t.config.challenge (Poll.challenge logging) q).2 ∧
      ∃ stats, (t.poll logging c).1 =
        { (Poll.phase t.config.challenge (Poll.challenge logging) q).1 with
          tower := { (Poll.phase t.config.challenge (Poll.challenge logging) q).1.tower with
            stats := stats } } := by
  rw [poll, proposed]
  dsimp only
  rcases Poll.phase t.config.challenge (Poll.challenge logging) q with ⟨p, _ | ⟨⟩⟩
  · exact ⟨rfl, _, rfl⟩
  · exact ⟨rfl, _, rfl⟩

theorem Mindful.proposed (mindful : Mindful g settlementGas config c t) (logging : Bool) :
    ∃ q, Poll.phase t.config.propose (Poll.propose logging) ⟨t, c, [], []⟩ = (q, .ok ()) ∧
      Mindful g settlementGas config q.chain q.tower := by
  cases proposing : t.config.propose with
  | false => exact ⟨_, rfl, mindful⟩
  | true => exact Poll.mindful_propose (q := ⟨t, c, [], []⟩) mindful

theorem Mindful.poll (mindful : Mindful g settlementGas config c t)
    (going : ∀ fault, (t.poll logging c).2 ≠ .error (.fault fault)) :
    Mindful g settlementGas config (t.poll logging c).1.chain (t.poll logging c).1.tower := by
  obtain ⟨q, proposed, mindful⟩ := mindful.proposed logging
  obtain ⟨result, stats, ended⟩ := Watchtower.poll_of_proposed proposed
  rw [result] at going
  rw [ended]
  have challenged : Mindful g settlementGas config
      (Poll.phase t.config.challenge (Poll.challenge logging) q).1.chain
      (Poll.phase t.config.challenge (Poll.challenge logging) q).1.tower := by
    cases challenging : t.config.challenge with
    | false => exact mindful
    | true =>
        rw [challenging] at going
        exact Poll.mindful_challenge mindful going
  exact ⟨challenged.reached, challenged.config, challenged.remembers⟩

/-- A tower remembers what was right, whatever it has watched. -/
theorem Watched.mindful (watched : Watched g settlementGas config c t) :
    Mindful g settlementGas config c t := by
  induction watched with
  | created reached => exact ⟨reached, rfl, List.forall_mem_nil _⟩
  | submit _ _ _ _ _ unfaulted inductionHypothesis => exact inductionHypothesis.submit unfaulted
  | @deliver c t logging _ unfaulted inductionHypothesis =>
      exact Chain.deliverAll_of_submit (motive := (Mindful g settlementGas config · t))
        (fun _ _ mindful => mindful.submit) inductionHypothesis unfaulted
  | clock height now _ ticks inductionHypothesis =>
      exact ⟨inductionHypothesis.reached.clock height now ticks, inductionHypothesis.config,
        fun word known => (inductionHypothesis.remembers word known).of_eq rfl rfl⟩
  | price gasPrice _ inductionHypothesis =>
      exact ⟨inductionHypothesis.reached.price gasPrice, inductionHypothesis.config,
        fun word known => (inductionHypothesis.remembers word known).of_eq rfl rfl⟩
  | poll logging _ going inductionHypothesis => exact inductionHypothesis.poll going

/-- A tower that has watched a chain polls as a fresh one would, as long as no two rounds have the
same entropy and no two logged lists collide: it makes the same proposals and challenges, with
the same disputed bids and reasons, and leaves the same chain. What it passes by is right. -/
theorem Watchtower.memory_keeps_verdicts (watched : Watched g settlementGas config c t)
    (apart : ¬ c.Redrawn) (binding : c.Binding) (logging : Bool) :
    (t.poll logging c).2 = ((new config).poll logging c).2 ∧
      (t.poll logging c).1.actions = ((new config).poll logging c).1.actions ∧
      (t.poll logging c).1.chain = ((new config).poll logging c).1.chain ∧
      (t.poll logging c).1.events = ((new config).poll logging c).1.events ∧
      ∀ id r p, c.house.auction? id = some r → r.proposal = some p → p.commitment ∈ t.cleared →
        c.Right id r p := by
  have mindful := watched.mindful
  have sound := mindful.reached.sound
  have upright : ∀ id r p, c.house.auction? id = some r → r.proposal = some p →
      p.commitment ∈ t.cleared → c.Right id r p :=
    fun id r p found live known => (mindful.remembers _ known).right sound apart binding found live
  have right : ∀ id r p, c.house.auction? id = some r → r.proposal = some p →
      p.commitment ∈ t.cleared → ¬ c.Wrong t.config.address id p :=
    fun id r p found live known => (upright id r p found live known).not_wrong found live
  obtain rfl := mindful.config
  have recalls : Poll.Recalls t.cleared ⟨t, c, [], []⟩ ⟨new t.config, c, [], []⟩ :=
    ⟨rfl, fun word => by simp [new], rfl, rfl, rfl⟩
  obtain ⟨q, q', proposed, proposed', recalls, sound', right⟩ :=
    recalls.proposed logging mindful.reached right
  obtain ⟨result, stats, ended⟩ := poll_of_proposed proposed
  obtain ⟨result', stats', ended'⟩ := poll_of_proposed (t := new t.config) proposed'
  have agrees : Poll.Agrees t.cleared (Poll.phase t.config.challenge (Poll.challenge logging) q)
      (Poll.phase t.config.challenge (Poll.challenge logging) q') := by
    cases t.config.challenge with
    | false => exact ⟨recalls, rfl⟩
    | true => exact recalls.challenge sound' right
  rw [result, result', ended, ended']
  exact ⟨agrees.result, agrees.poll.actions, agrees.poll.chain, agrees.poll.events, upright⟩

theorem Watched.play {q : Request} {outcome : Outcome}
    (watched : Watched g settlementGas config c t) (ticks : c.now ≤ q.context.now)
    (accepted : ({ c with now := q.context.now }.submit q.context.logging q.context.sender
      q.context.value q.call).result = .ok outcome) :
    Watched g settlementGas config (c.play q) t :=
  (watched.clock c.height _ ticks).submit _ _ _ _ (Chain.unfaulted_of_ok accepted)

/-! The chain of the sample round once its winner has been proposed. -/

namespace Sample

/-- A tower that only challenges. -/
def watching : WatchConfig := { WatchConfig.standard with propose := false }

def firstList : Call := .proposeWinners 1 [0, 0] (commitment [0, 0] word) 5000

def rightProposal : Proposal :=
  chainRound.proposalFor (chain.context false (.fill 8) 1000000) (commitment [0, 0] word) 1 5000

/-- The chain of the sample round with its right proposal. -/
def upheld : Chain :=
  { chain with
    house := [.proposed 1 rightProposal].foldl Change.apply chain.house
    log := chain.log.push (.fill 8, firstList) }

def upheldRound : Auction :=
  { chainRound with
    phase := .winnersProposed
    proposal := some rightProposal }

theorem grant_rightProposal :
    Grants chain.house (chain.context false (.fill 8) 1000000) chain.collaborators firstList
      [.proposed 1 rightProposal] .proposed :=
  .proposeWinners (show _ = some chainRound from rfl)
    (show chainRound.TakesProposal _ _ _ word [0] from ⟨rfl, rfl, by decide, rfl, rfl⟩)

theorem upheld_eq : (chain.submit false (.fill 8) 1000000 firstList).chain = upheld :=
  Chain.submit_of_proposal grant_rightProposal

theorem reached_upheld : Chain.Reached (· ≤ ·) genesis 0 upheld := by
  rw [← upheld_eq]
  exact reached_chain.submit _ _ _ _
    (Chain.unfaulted_of_ok (Chain.submit_of_grants grant_rightProposal).1)

/-- The tower after it has looked at the right proposal. -/
def wise : Watchtower := ⟨watching, ⟨1, 0, 0⟩, [commitment [0, 0] word]⟩

theorem poll_upheld :
    (Watchtower.new watching).poll false upheld = (⟨wise, upheld, [], []⟩, .ok ()) := by
  have found : upheld.house.auction? 1 = some upheldRound := rfl
  have posts : upheld.Posts 1 rightProposal [0, 0] := by
    rw [← upheld_eq]
    exact Chain.posts_of_submit (Chain.submit_of_grants grant_rightProposal).1 ⟨rfl, rfl, rfl⟩
  have disputable : upheld.Disputable watching.address 1 upheldRound rightProposal [0, 0] [0] :=
    ⟨found, rfl, rfl, by decide, posts, rfl⟩
  have correct : (⟨[0], rightProposal.total⟩ : Claim).Correct (upheld.house.ledger 1) 251680 1 := by
    have entries : Ledger.winningEntries
        #[⟨.fill 4, 10, 5000, false⟩, ⟨.fill 5, 20, 3000, false⟩] 251680 1 =
        [⟨0, ⟨.fill 4, 10, 5000, false⟩⟩] := by cbv
    have ledger : upheld.house.ledger 1 =
        #[⟨.fill 4, 10, 5000, false⟩, ⟨.fill 5, 20, 3000, false⟩] := rfl
    constructor <;> rw [ledger]
    · rw [Ledger.canonicalWinners, entries]
      rfl
    · rw [entries]
      rfl
  have challenged := Poll.challenge_of_correct (q := ⟨.new watching, upheld, [], []⟩) false
    reached_upheld.sound (Chain.readable_of_all rfl) disputable rfl List.not_mem_nil correct
  exact Watchtower.poll_of_ok (t := .new watching) (q := ⟨.new watching, upheld, [], []⟩) rfl
    challenged

theorem watched_upheld : Watched genesis 0 watching upheld wise := by
  have polled := (Watched.created reached_upheld : Watched genesis 0 watching _ _).poll false
    (by rw [poll_upheld]; nofun)
  rwa [poll_upheld] at polled

theorem apart_upheld : ¬ upheld.Redrawn := by
  have checked : (upheld.house.auctions.toList.all fun entry =>
      entry.2.entropy.isSome = true → entry.1 = 1) = true := rfl
  have first : ∀ {id r}, upheld.house.auction? id = some r → r.entropy.isSome = true → id = 1 := by
    intro id r found
    have member := Std.ExtTreeMap.mem_toList_iff_getElem?_eq_some.mpr found
    exact of_decide_eq_true (List.all_eq_true.mp checked _ member)
  rintro ⟨id, other, r, r', ne, found, found', drawn, same⟩
  exact ne ((first found drawn).trans (first found' (same ▸ drawn)).symm)

theorem binding_upheld : upheld.Binding := by
  have checked : (upheld.log.toList.all fun entry =>
      ∀ listed ∈ entry.2.committed?, listed = (1, [0, 0])) = true := rfl
  have only : ∀ {id encoding}, upheld.Lists id encoding → id = 1 ∧ encoding = [0, 0] := by
    rintro id encoding ⟨entry, member, committed⟩
    have known := List.all_eq_true.mp checked _ member
    simpa [committed] using known
  rintro _ _ ⟨id, encoding, r, entropy, lists, found, drawn, rfl⟩
    ⟨other, encoding', r', entropy', lists', found', drawn', rfl⟩ -
  obtain ⟨rfl, rfl⟩ := only lists
  obtain ⟨rfl, rfl⟩ := only lists'
  cases found.symm.trans found'
  cases drawn.symm.trans drawn'
  rfl

end Sample

/-- The right proposal of the sample round is not looked at twice, and a fresh tower has nothing to
say of it either. -/
theorem Watchtower.memory_keeps_verdicts_upheld :
    Watched Sample.genesis 0 Sample.watching Sample.upheld Sample.wise ∧
      ¬ Sample.upheld.Redrawn ∧ Sample.upheld.Binding ∧
      Sample.rightProposal.commitment ∈ Sample.wise.cleared ∧
      (Sample.wise.poll false Sample.upheld).2 = .ok () ∧
      (Sample.wise.poll false Sample.upheld).1.actions = [] ∧
      (Sample.wise.poll false Sample.upheld).1.chain = Sample.upheld := by
  obtain ⟨result, actions, chain, -⟩ := memory_keeps_verdicts Sample.watched_upheld
    Sample.apart_upheld Sample.binding_upheld false
  rw [Sample.poll_upheld] at result actions chain
  exact ⟨Sample.watched_upheld, Sample.apart_upheld, Sample.binding_upheld, List.mem_cons_self,
    result, actions, chain⟩

/-! The next round is drawn with the same word, and its winner is proposed with another total. -/

namespace Sample

/-- The second round, drawn with the word of the first. -/
def repeated : Chain :=
  { [request 4 259400 3000 (.placeBid 2 3000), request 6 518400 0 (.snuff 2),
      request 3 518410 0 (.fulfillRandomness 2 word)].foldl Chain.play upheld with now := 518420 }

theorem watched_repeated : Watched genesis 0 watching repeated wise :=
  have bid := watched_upheld.play (q := request 4 259400 3000 (.placeBid 2 3000)) (by decide) rfl
  have closed := bid.play (q := request 6 518400 0 (.snuff 2)) (by decide) rfl
  have drawn := closed.play (q := request 3 518410 0 (.fulfillRandomness 2 word)) (by decide) rfl
  drawn.clock _ 518420 (by decide)

def repeatedRound : Auction :=
  { Auction.opening 2 259200 genesis.settings 1000 ⟨1, 259200⟩ with
    phase := .waitingClose
    entropy := some word
    closeOffset := some 251680
    request := some 2
    snuff := some ⟨.fill 6, 518400⟩
    proceeds := 3000 }

theorem repeated_round : repeated.house.auction? 2 = some repeatedRound := rfl

def secondList : Call := .proposeWinners 2 [0, 0] (commitment [0, 0] word) 9000

def repeatedProposal : Proposal :=
  repeatedRound.proposalFor (repeated.context false (.fill 8) 1000000) (commitment [0, 0] word) 1
    9000

/-- The chain of the second round with three times its total proposed. -/
def misposted : Chain :=
  { repeated with
    house := [.proposed 2 repeatedProposal].foldl Change.apply repeated.house
    log := repeated.log.push (.fill 8, secondList) }

theorem grant_repeatedProposal :
    Grants repeated.house (repeated.context false (.fill 8) 1000000) repeated.collaborators
      secondList [.proposed 2 repeatedProposal] .proposed :=
  .proposeWinners repeated_round
    (show repeatedRound.TakesProposal _ _ _ word [0] from ⟨rfl, rfl, by decide, rfl, rfl⟩)

theorem misposted_eq : (repeated.submit false (.fill 8) 1000000 secondList).chain = misposted :=
  Chain.submit_of_proposal grant_repeatedProposal

theorem watched_misposted : Watched genesis 0 watching misposted wise := by
  rw [← misposted_eq]
  exact watched_repeated.submit _ _ _ _
    (Chain.unfaulted_of_ok (Chain.submit_of_grants grant_repeatedProposal).1)

theorem wrong_misposted : misposted.Wrong watching.address 2 repeatedProposal := by
  have posts : misposted.Posts 2 repeatedProposal [0, 0] := by
    rw [← misposted_eq]
    exact Chain.posts_of_submit (Chain.submit_of_grants grant_repeatedProposal).1 ⟨rfl, rfl, rfl⟩
  have found : misposted.house.auction? 2 =
      some { repeatedRound with
        phase := .winnersProposed
        proposal := some repeatedProposal } := rfl
  refine ⟨_, [0, 0], [0], 251680, ⟨found, rfl, rfl, by decide, posts, rfl⟩, rfl, ?_⟩
  rintro ⟨-, total⟩
  have entries : Ledger.winningEntries #[⟨.fill 4, 200, 3000, false⟩] 251680 1 =
      [⟨0, ⟨.fill 4, 200, 3000, false⟩⟩] := by cbv
  have ledger : misposted.house.ledger 2 = #[⟨.fill 4, 200, 3000, false⟩] := rfl
  rw [ledger] at total
  exact absurd (total.trans (congrArg Entry.worth entries)) (by decide)

end Sample

/-- Where the entropy of a round is repeated, a tower that has found a proposal right passes by a
wrong one with the same list, which a fresh tower challenges. -/
theorem Watchtower.exists_missed_challenge :
    ¬ ∀ (g : Genesis) (settlementGas : UInt64) (config : WatchConfig) (c : Chain) (t : Watchtower)
      (logging : Bool), Watched g settlementGas config c t → config.challenge = true →
      ∀ id found, .challenged id found ∈ (t.poll logging c).1.actions ↔
        .challenged id found ∈ ((new config).poll logging c).1.actions := by
  intro alike
  have sound := Sample.watched_misposted.mindful.reached.sound
  have readable : Sample.misposted.Readable := Chain.readable_of_all rfl
  obtain ⟨r, _, _, _, disputable, -⟩ := Sample.wrong_misposted
  have inspected : (⟨Sample.wise, Sample.misposted, [], []⟩ : Poll).inspect false 2 = (_, none) :=
    Poll.inspect_of_passed false disputable.found disputable.live (.inr List.mem_cons_self)
  have passed := poll_of_ok (t := Sample.wise) (c := Sample.misposted) rfl
    (Poll.challenge_of_inspected false sound readable disputable.found disputable.inTime inspected)
  obtain ⟨q, challenged, -, ⟨-, full⟩ | ⟨encoding, found, acted, -⟩⟩ := Poll.challenge_of_wrong
    (q := ⟨.new Sample.watching, Sample.misposted, [], []⟩) false sound readable
    Sample.wrong_misposted List.not_mem_nil
  · exact absurd full (by decide)
  have fresh := poll_of_ok (t := new Sample.watching) (c := Sample.misposted) rfl challenged
  have missed := (alike _ _ _ _ _ false Sample.watched_misposted rfl 2 found).mpr
    (by rw [fresh]; exact acted ▸ List.mem_cons_self)
  rw [passed] at missed
  cases missed

end CandleAuction
