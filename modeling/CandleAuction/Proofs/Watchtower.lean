import CandleAuction.Proofs.Polling

/-!
# What a watchtower challenges

A poll proposes before it challenges. It proposes nothing where something is
wrong, and leaves nothing wrong where it proposes, so a fresh tower challenges
what was wrong before its poll, and nothing else.
-/

namespace CandleAuction

/-- The round that an action has challenged. -/
def Action.challenged? : Action → Option UInt64
  | .challenged id _ => some id
  | .proposed .. => none

namespace Watchtower

theorem poll_of_ok {t : Watchtower} {c : Chain} {logging : Bool} {q q' : Poll}
    (proposed : Poll.phase t.config.propose (Poll.propose logging) ⟨t, c, [], []⟩ = (q, .ok ()))
    (challenged : Poll.phase t.config.challenge (Poll.challenge logging) q = (q', .ok ())) :
    t.poll logging c = (q'.finish, .ok ()) := by
  rw [poll, proposed]
  simp only [challenged]

/-- A poll of a fresh tower challenges the wrong proposal if there is one. -/
theorem poll_outcome {g : Genesis} {settlementGas : UInt64} {c : Chain} {config : WatchConfig}
    (reached : Chain.Reached (· ≤ ·) g settlementGas c) (logging : Bool)
    (enabled : config.challenge = true) (dated : c.Dated config.propose) :
    ∃ q, (new config).poll logging c = (q, .ok ()) ∧
      ((q.actions.filterMap Action.challenged? = [] ∧ ∀ id p, c.Wrong config.address id p →
          UInt64.size ≤ (c.house.balance config.address).toNat + p.deposit.toNat) ∨
        ∃ id p encoding found, q.actions = [.challenged id found] ∧
          c.Overturned logging config.address id p encoding found q.chain) := by
  have challenges : ∀ q : Poll,
      Poll.phase (new config).config.challenge (Poll.challenge logging) q = q.challenge logging :=
    fun q => if_pos enabled
  obtain ⟨q, proposed, rfl | ⟨kept, ⟨_, _, _, acted⟩, right, sound, readable, right'⟩⟩ :=
    Poll.propose_outcome logging (q := ⟨new config, c, [], []⟩) reached dated
  · obtain ⟨q, challenged, outcome⟩ := Poll.challenge_outcome logging
      (q := ⟨new config, c, [], []⟩) reached.sound dated.readable rfl
    refine ⟨q.finish, poll_of_ok proposed ((challenges _).trans challenged), outcome.imp_left ?_⟩
    rintro ⟨idle, full⟩
    exact ⟨congrArg (List.filterMap Action.challenged?) idle, full⟩
  · obtain ⟨cleared, challenged⟩ :=
      Poll.challenge_of_right logging sound readable (by rw [kept]; exact right')
    refine ⟨_, poll_of_ok proposed ((challenges _).trans challenged),
      .inl ⟨?_, fun id p wrong => absurd wrong (right id p)⟩⟩
    rw [Poll.finish, acted]
    rfl

/-- On every chain whose clock is never set back, a fresh tower polls without error. What it
challenges are the live proposals within their windows that somebody else made and whose list
or total is wrong, except where the deposit overflows its balance. Each of these challenges is
accepted for the reason that the tower gives. A correct proposal is never challenged. -/
theorem fresh_poll_challenges_wrong {g : Genesis} {settlementGas : UInt64} {c : Chain}
    {config : WatchConfig} (reached : Chain.Reached (· ≤ ·) g settlementGas c) (logging : Bool)
    (enabled : config.challenge = true) (dated : c.Dated config.propose) :
    ∃ q, (new config).poll logging c = (q, .ok ()) ∧
      (q.actions.filterMap Action.challenged?).Nodup ∧
      (∀ id, id ∈ q.actions.filterMap Action.challenged? ↔
        ∃ p, c.Wrong config.address id p ∧
          (c.house.balance config.address).toNat + p.deposit.toNat < UInt64.size) ∧
      (∀ id found, .challenged id found ∈ q.actions →
        ∃ p encoding, c.Overturned logging config.address id p encoding found q.chain) ∧
      ∀ id r p, c.house.auction? id = some r → r.proposal = some p →
        ∃ encoding winners close, c.Posts id p encoding ∧
          r.settings.indexWidth.unpack encoding = .ok winners ∧ r.closeOffset = some close ∧
          ((⟨winners, p.total⟩ : Claim).Correct (c.house.ledger id) close r.settings.maxWinners →
            id ∉ q.actions.filterMap Action.challenged?) := by
  have sound := reached.sound
  obtain ⟨q, polled, outcome⟩ := poll_outcome reached logging enabled dated
  have exactly : ∀ id, id ∈ q.actions.filterMap Action.challenged? ↔
      ∃ p, c.Wrong config.address id p ∧
        (c.house.balance config.address).toNat + p.deposit.toNat < UInt64.size := by
    intro id
    rcases outcome with ⟨idle, full⟩ | ⟨target, p, encoding, found, acted, overturned⟩
    · rw [idle]
      refine iff_of_false List.not_mem_nil ?_
      rintro ⟨p, wrong, room⟩
      exact absurd room (Nat.not_lt.mpr (full id p wrong))
    · rw [acted]
      constructor
      · rintro member
        cases List.mem_singleton.mp member
        refine ⟨p, overturned.wrong, ?_⟩
        rw [← overturned.credited]
        exact UInt64.toNat_lt _
      · rintro ⟨p', wrong, -⟩
        obtain ⟨rfl, -⟩ := overturned.wrong.unique wrong sound
        exact List.mem_cons_self
  refine ⟨q, polled, ?_, exactly, ?_, ?_⟩
  · rcases outcome with ⟨idle, -⟩ | ⟨target, p, encoding, found, acted, -⟩
    · rw [idle]
      exact List.nodup_nil
    · rw [acted]
      exact List.nodup_singleton target
  · intro id found member
    rcases outcome with ⟨idle, -⟩ | ⟨target, p, encoding, shown, acted, overturned⟩
    · have none : some id = none := List.filterMap_eq_nil_iff.mp idle _ member
      cases none
    · rw [acted] at member
      cases List.mem_singleton.mp member
      exact ⟨p, encoding, overturned⟩
  · intro id r p found live
    obtain ⟨encoding, winners, posts, listed⟩ := sound.posted found live
    obtain ⟨entropy, drawn, -⟩ := sound.opened found live posts
    obtain ⟨close, -, resolved⟩ := (sound.coherent.rounds id r found).resolved.exists_close drawn
    refine ⟨encoding, winners, close, posts, listed, resolved, fun correct member => ?_⟩
    obtain ⟨p', wrong, -⟩ := (exactly id).mp member
    exact wrong.not_correct found live posts listed resolved correct

end Watchtower

/-! A chain on which the loser of the sample round is proposed in place of the winner. -/

namespace Sample

/-- The drawn sample round on a chain, when its winners may be proposed. -/
def chain : Chain :=
  { [request 4 10 5000 (.placeBid 1 5000), request 5 20 3000 (.placeBid 1 3000),
      request 6 259200 0 (.snuff 1), request 3 259210 0 (.fulfillRandomness 1 word)].foldl
      Chain.play ⟨opened, .new 0, .new, 0, 0, 1, #[]⟩ with now := 259300 }

/-- The first round as it is on the chain, where requests are numbered from one. -/
def chainRound : Auction := { round with request := some 1 }

def misproposal : Proposal :=
  chainRound.proposalFor (chain.context false (.fill 8) 1000000) (commitment [0, 1] word) 1 3000

def misled : Step Outcome :=
  chain.submit false (.fill 8) 1000000 (.proposeWinners 1 [0, 1] (commitment [0, 1] word) 3000)

theorem reached_chain : Chain.Reached (· ≤ ·) genesis 0 chain :=
  have founded : Chain.found genesis 0 = .ok ⟨opened, .new 0, .new, 0, 0, 1, #[]⟩ := rfl
  have first := (Chain.Reached.found founded).play (q := request 4 10 5000 (.placeBid 1 5000))
    (by decide) rfl
  have second := first.play (q := request 5 20 3000 (.placeBid 1 3000)) (by decide) rfl
  have closed := second.play (q := request 6 259200 0 (.snuff 1)) (by decide) rfl
  have drawn := closed.play (q := request 3 259210 0 (.fulfillRandomness 1 word)) (by decide) rfl
  drawn.clock _ 259300 (by decide)

theorem grant_misproposal :
    Grants chain.house (chain.context false (.fill 8) 1000000) chain.collaborators
      (.proposeWinners 1 [0, 1] (commitment [0, 1] word) 3000) [.proposed 1 misproposal]
      .proposed :=
  .proposeWinners (show _ = some chainRound from rfl)
    (show chainRound.TakesProposal _ _ _ word [1] from ⟨rfl, rfl, by decide, rfl, rfl⟩)

/-- The step is opened by rewriting only: its evaluation would hash the list. -/
theorem misled_eq : misled = chain.submit false (.fill 8) 1000000
    (.proposeWinners 1 [0, 1] (commitment [0, 1] word) 3000) := rfl

theorem misled_house :
    misled.chain.house = [.proposed 1 misproposal].foldl Change.apply chain.house := by
  rw [misled_eq]
  exact (Chain.submit_of_grants grant_misproposal).2

theorem misled_now : misled.chain.now = 259300 := by
  rw [misled_eq, Chain.submit_now]
  rfl

theorem reached_misled : Chain.Reached (· ≤ ·) genesis 0 misled.chain := by
  rw [misled_eq]
  have accepted := (Chain.submit_of_grants grant_misproposal).1
  exact reached_chain.submit _ _ _ _ (Chain.unfaulted_of_ok accepted)

theorem rounds_misled : ∀ id r, misled.chain.house.auction? id = some r →
    r.settings.fraudPeriod = 3600 ∧
      ∀ p ∈ r.proposal, p.timestamp = 259300 ∧ p.proposer = .fill 8 := by
  have checked : (misled.chain.house.auctions.toList.all fun entry =>
      entry.2.settings.fraudPeriod = 3600 ∧
        ∀ p ∈ entry.2.proposal, p.timestamp = 259300 ∧ p.proposer = .fill 8) = true := by
    rw [misled_house]
    rfl
  intro id r found
  have member := Std.ExtTreeMap.mem_toList_iff_getElem?_eq_some.mpr found
  exact of_decide_eq_true (List.all_eq_true.mp checked _ member)

theorem dated_misled : misled.chain.Dated WatchConfig.standard.propose := by
  constructor
  · intro id r p found live
    obtain ⟨period, stamps⟩ := rounds_misled id r found
    rw [period, (stamps p live).1]
    decide
  · intro _ id _ r found
    rw [misled_now, (rounds_misled id r found).1]
    decide

theorem wrong_misled : misled.chain.Wrong (.fill 0xEE) 1 misproposal := by
  have found : misled.chain.house.auction? 1 =
      some { chainRound with phase := .winnersProposed, proposal := some misproposal } := by
    rw [misled_house]
    rfl
  have posts : misled.chain.Posts 1 misproposal [0, 1] := by
    rw [misled_eq]
    exact Chain.posts_of_submit (Chain.submit_of_grants grant_misproposal).1 ⟨rfl, rfl, rfl⟩
  have inTime : Auction.phaseAt
      { chainRound with phase := .winnersProposed, proposal := some misproposal }
      misled.chain.now = .ok .winnersProposed := by
    rw [misled_now]
    rfl
  refine ⟨_, [0, 1], [1], 251680, ⟨found, rfl, inTime, by decide, posts, rfl⟩, rfl, ?_⟩
  rintro ⟨listed, -⟩
  have canonical : Ledger.canonicalWinners
      #[⟨.fill 4, 10, 5000, false⟩, ⟨.fill 5, 20, 3000, false⟩] 251680 1 = [0] := by cbv
  have ledger : misled.chain.house.ledger 1 =
      #[⟨.fill 4, 10, 5000, false⟩, ⟨.fill 5, 20, 3000, false⟩] := by
    rw [misled_house]
    rfl
  rw [ledger] at listed
  exact absurd (listed.trans canonical) (by decide)

end Sample

/-- A tower takes the deposit of the one who proposed the loser of the sample round. -/
theorem Watchtower.fresh_poll_challenges_wrong_loser :
    Chain.Reached (· ≤ ·) Sample.genesis 0 Sample.misled.chain ∧
      WatchConfig.standard.challenge = true ∧
      Sample.misled.chain.Dated WatchConfig.standard.propose ∧
      ∃ q found, (Watchtower.new .standard).poll false Sample.misled.chain = (q, .ok ()) ∧
        .challenged 1 found ∈ q.actions ∧
        (q.chain.house.balance WatchConfig.standard.address).toNat = 1000000 ∧
        1 ∈ q.chain.house.awaitingProposal := by
  obtain ⟨q, polled, -, exactly, challenged, -⟩ :=
    fresh_poll_challenges_wrong Sample.reached_misled false rfl Sample.dated_misled
  have empty : Sample.misled.chain.house.balance WatchConfig.standard.address = 0 := by
    rw [Sample.misled_house]
    rfl
  have room : (Sample.misled.chain.house.balance WatchConfig.standard.address).toNat +
      Sample.misproposal.deposit.toNat < UInt64.size := by
    rw [empty]
    decide
  obtain ⟨action, acted, target⟩ := List.mem_filterMap.mp
    ((exactly 1).mpr ⟨_, Sample.wrong_misled, room⟩)
  cases action with
  | proposed => cases target
  | challenged id found =>
      cases target
      obtain ⟨p, encoding, overturned⟩ := challenged 1 found acted
      obtain ⟨-, rfl⟩ := Sample.wrong_misled.unique overturned.wrong Sample.reached_misled.sound
      refine ⟨Sample.reached_misled, rfl, Sample.dated_misled, q, found, polled, acted, ?_,
        overturned.awaits⟩
      rw [overturned.credited, empty]
      rfl

end CandleAuction
