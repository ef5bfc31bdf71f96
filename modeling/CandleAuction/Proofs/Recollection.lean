import CandleAuction.Proofs.Polling

/-!
# Polls that differ in memory

Two polls of one tower on the same chain take the same course while the memory
of the one holds no wrong live proposal: they make the same calls, get the same
answers and log the same events.
-/

namespace CandleAuction

theorem filterM_ok_inv {α : Type} {test : α → Except Fault Bool} {items kept : List α}
    (filtered : items.filterM test = .ok kept) : ∀ item ∈ items, ∃ keep, test item = .ok keep := by
  have aux : ∀ {items before kept : List α}, items.filterAuxM test before = .ok kept →
      ∀ item ∈ items, ∃ keep, test item = .ok keep := by
    intro items
    induction items with
    | nil => exact fun _ => List.forall_mem_nil _
    | cons item rest inductionHypothesis =>
        intro before kept filtered
        rw [List.filterAuxM] at filtered
        cases first : test item with
        | error fault => simp [first, bind, Except.bind] at filtered
        | ok keep =>
            simp only [first, bind, Except.bind] at filtered
            exact List.forall_mem_cons.mpr ⟨⟨keep, first⟩, inductionHypothesis filtered⟩
  rw [List.filterM] at filtered
  cases filled : items.filterAuxM test [] with
  | error fault => simp [filled, bind, Except.bind] at filtered
  | ok kept' => exact aux filled

theorem Chain.readable_of_challengeable {c : Chain} {ids : List UInt64}
    (listed : c.house.challengeable c.now = .ok ids) : c.Readable := by
  cases filtered : c.house.rounds.filterM fun r =>
      (do return (← r.phaseAt c.now) = Phase.winnersProposed : Except Fault Bool) with
  | error fault =>
      rw [House.challengeable, filtered] at listed
      cases listed
  | ok live =>
      intro id r found
      obtain ⟨keep, decided⟩ := filterM_ok_inv filtered r (House.mem_rounds.mpr ⟨id, found⟩)
      cases effective : r.phaseAt c.now with
      | error fault => simp [effective, bind, Except.bind] at decided
      | ok phase => exact ⟨phase, rfl⟩

namespace Poll

/-- Two polls of one tower, the first with a memory that the second lacks. -/
structure Recalls (memory : List Word) (q q' : Poll) : Prop where
  config : q.tower.config = q'.tower.config
  cleared : ∀ word, word ∈ q.tower.cleared ↔ word ∈ q'.tower.cleared ∨ word ∈ memory
  chain : q.chain = q'.chain
  actions : q.actions = q'.actions
  events : q.events = q'.events

/-- Two polls end alike but for the memory. -/
structure Agrees (memory : List Word) (o o' : Poll.Outcome) : Prop where
  poll : o.1.Recalls memory o'.1
  result : o.2 = o'.2

variable {memory : List Word} {q q' : Poll} {logging : Bool} {value : UInt64} {call : Call}

theorem Recalls.note (recalls : q.Recalls memory q') (logging : Bool) (event : Event) :
    (q.note logging event).Recalls memory (q'.note logging event) := by
  unfold Poll.note
  split
  · exact ⟨recalls.config, recalls.cleared, recalls.chain, recalls.actions,
      congrArg (· ++ [event]) recalls.events⟩
  · exact recalls

theorem Recalls.send {accepted accepted' : Poll → Poll}
    {rejected rejected' : Poll → Rejection → Poll} (recalls : q.Recalls memory q')
    (accepts : ∀ {q q' : Poll}, q.Recalls memory q' → (accepted q).Recalls memory (accepted' q'))
    (rejects : ∀ {q q' : Poll} (rejection : Rejection), q.Recalls memory q' →
      (rejected q rejection).Recalls memory (rejected' q' rejection)) :
    Agrees memory (q.send logging value call accepted rejected)
      (q'.send logging value call accepted' rejected') := by
  obtain ⟨tower, chain, actions, events⟩ := q
  obtain ⟨tower', chain', actions', events'⟩ := q'
  obtain ⟨config, cleared, rfl, rfl, rfl⟩ := recalls
  dsimp only at config cleared
  simp only [Poll.send, config]
  have made : Recalls memory
      ⟨tower, (chain.submit logging tower'.config.address value call).chain, actions,
        events ++ (chain.submit logging tower'.config.address value call).events⟩
      ⟨tower', (chain.submit logging tower'.config.address value call).chain, actions,
        events ++ (chain.submit logging tower'.config.address value call).events⟩ :=
    ⟨config, cleared, rfl, rfl, rfl⟩
  split
  · exact ⟨accepts made, rfl⟩
  · exact ⟨rejects _ made, rfl⟩
  · exact ⟨made, rfl⟩

theorem Agrees.forEach {α : Type} {step : Poll → α → Poll.Outcome} {items : List α}
    (recalls : q.Recalls memory q')
    (steps : ∀ {q q' : Poll} (item : α), q.Recalls memory q' →
      Agrees memory (step q item) (step q' item)) :
    Agrees memory (Poll.forEach step q items) (Poll.forEach step q' items) := by
  induction items generalizing q q' with
  | nil => exact ⟨recalls, rfl⟩
  | cons item rest inductionHypothesis =>
      have first := steps item recalls
      rw [Poll.forEach, Poll.forEach]
      rcases taken : step q item with ⟨p, result⟩
      rcases taken' : step q' item with ⟨p', result'⟩
      rw [taken, taken'] at first
      obtain ⟨recalls, rfl⟩ := first
      cases result with
      | ok => exact inductionHypothesis recalls
      | error => exact ⟨recalls, rfl⟩

theorem Recalls.proposeFor {snapshot : Snapshot} (recalls : q.Recalls memory q') :
    Agrees memory (q.proposeFor logging snapshot) (q'.proposeFor logging snapshot) := by
  unfold Poll.proposeFor
  cases snapshot.submission with
  | error error => exact ⟨recalls, rfl⟩
  | ok s =>
      dsimp only
      rw [recalls.chain]
      refine recalls.send (fun recalls => ?_) fun _ recalls => recalls.note _ _
      have noted := recalls.note logging ⟨.info, "proposal submitted", [
        ("auction_id", .number s.auction.toNat), ("commitment", .text s.commitment.hex),
        ("winners", .number s.winners.length)]⟩
      exact ⟨noted.config, fun word => by simp [recalls.cleared, or_assoc], noted.chain,
        congrArg (· ++ [_]) noted.actions, noted.events⟩

theorem Recalls.propose (recalls : q.Recalls memory q') :
    Agrees memory (q.propose logging) (q'.propose logging) := by
  unfold Poll.propose
  rw [recalls.chain]
  cases q'.chain.house.awaitingProposal.mapM q'.chain.house.snapshot with
  | error error => exact ⟨recalls, rfl⟩
  | ok snapshots => exact .forEach recalls fun _ recalls => recalls.proposeFor

theorem Recalls.raise {d : Dispute} (recalls : q.Recalls memory q') :
    Agrees memory (q.raise logging d) (q'.raise logging d) := by
  unfold Poll.raise
  refine recalls.send (fun recalls => ?_) fun _ recalls => recalls.note _ _
  have noted := recalls.note logging ⟨.warn, "fraudulent proposal challenged", [
    ("auction_id", .number d.auction.toNat), ("reason", .text d.found.reason.text),
    ("disputed_index", .number d.found.disputed.toNat)]⟩
  exact ⟨noted.config, noted.cleared, noted.chain, congrArg (· ++ [_]) noted.actions,
    noted.events⟩

theorem Recalls.inspect (logging : Bool) {id : UInt64} {r : Auction} (recalls : q.Recalls memory q')
    (sound : q.chain.Sound) (found : q.chain.house.auction? id = some r)
    (inTime : r.phaseAt q.chain.now = .ok .winnersProposed)
    (right : ∀ p, r.proposal = some p → p.commitment ∈ memory →
      ¬ q.chain.Wrong q.tower.config.address id p) :
    (q.inspect logging id).1.Recalls memory (q'.inspect logging id).1 ∧
      (q.inspect logging id).2 = (q'.inspect logging id).2 := by
  obtain ⟨tower, chain, actions, events⟩ := q
  obtain ⟨tower', chain', actions', events'⟩ := q'
  obtain ⟨config, cleared, rfl, rfl, rfl⟩ := recalls
  dsimp only at config cleared sound found inTime right
  have round := sound.coherent.rounds id r found
  obtain ⟨-, -, -, -, p, live, -⟩ :=
    round.proposed (Auction.phaseAt_eq_winnersProposed.mp inTime).1
  by_cases passed' : p.proposer = tower'.config.address ∨ p.commitment ∈ tower'.cleared
  · have passed : p.proposer = tower.config.address ∨ p.commitment ∈ tower.cleared := by
      rw [config, cleared]
      exact passed'.imp_right .inl
    rw [inspect_of_passed logging found live passed, inspect_of_passed logging found live passed']
    exact ⟨⟨config, cleared, rfl, rfl, rfl⟩, rfl⟩
  obtain ⟨stranger', fresh'⟩ := not_or.mp passed'
  have stranger : p.proposer ≠ tower.config.address := config ▸ stranger'
  obtain ⟨encoding, winners, posts, listed⟩ := sound.posted found live
  have disputable : chain.Disputable tower.config.address id r p encoding winners :=
    ⟨found, live, inTime, stranger, posts, listed⟩
  obtain ⟨entropy, close, -, resolved, -⟩ := disputable.judged sound
  have inspected' := inspect_of_disputable (q := ⟨tower', chain, actions, events⟩) logging sound
    (config ▸ disputable) resolved fresh'
  by_cases remembered : p.commitment ∈ memory
  · have correct := by_contra fun wrong =>
      right p live remembered ⟨r, encoding, winners, close, disputable, resolved, wrong⟩
    have none := Claim.counterExample?_eq_none_iff.mpr (correct.fraud?_eq_none round.indexed)
    have passed := inspect_of_passed (q := ⟨tower, chain, actions, events⟩) logging found live
      (.inr ((cleared _).mpr (.inr remembered)))
    rw [inspected', none, passed]
    refine ⟨⟨config, fun word => ?_, rfl, rfl, rfl⟩, rfl⟩
    change _ ↔ word ∈ p.commitment :: tower'.cleared ∨ _
    rw [cleared, List.mem_cons]
    constructor
    · exact Or.imp_left .inr
    · rintro ((rfl | known) | known)
      · exact .inr remembered
      · exact .inl known
      · exact .inr known
  · have fresh : p.commitment ∉ tower.cleared := by
      rw [cleared, not_or]
      exact ⟨fresh', remembered⟩
    have inspected := inspect_of_disputable (q := ⟨tower, chain, actions, events⟩) logging sound
      disputable resolved fresh
    rw [inspected, inspected']
    cases (⟨winners, p.total⟩ : Claim).counterExample? (chain.house.ledger id) close
        r.settings.maxWinners with
    | none =>
        refine ⟨⟨config, fun word => ?_, rfl, rfl, rfl⟩, rfl⟩
        simp [cleared, or_assoc]
    | some shown => exact ⟨⟨config, cleared, rfl, rfl, rfl⟩, rfl⟩

/-- A memory that holds no wrong live proposal does not change what is challenged. -/
theorem Recalls.challenge (recalls : q.Recalls memory q') (sound : q.chain.Sound)
    (right : ∀ id r p, q.chain.house.auction? id = some r → r.proposal = some p →
      p.commitment ∈ memory → ¬ q.chain.Wrong q.tower.config.address id p) :
    Agrees memory (q.challenge logging) (q'.challenge logging) := by
  unfold Poll.challenge
  rw [← recalls.chain]
  cases listed : q.chain.house.challengeable q.chain.now with
  | error fault => exact ⟨recalls, rfl⟩
  | ok ids =>
      obtain ⟨ids', listed', few, member⟩ :=
        sound.challengeable (Chain.readable_of_challengeable listed)
      cases listed.symm.trans listed'
      rcases few with rfl | ⟨id, rfl⟩
      · exact ⟨recalls, rfl⟩
      · obtain ⟨r, found, inTime⟩ := (member id).mp List.mem_cons_self
        obtain ⟨inspected, same⟩ := recalls.inspect logging sound found inTime
          fun p live => right id r p found live
        simp only [inspectAll]
        rw [same]
        exact .forEach inspected fun _ recalls => recalls.raise

/-- After the proposals the memory still holds no wrong live proposal: a proposal of the tower's own
leaves nothing to challenge. -/
theorem Recalls.proposed {g : Genesis} {settlementGas : UInt64} (logging : Bool)
    (recalls : q.Recalls memory q') (reached : Chain.Reached (· ≤ ·) g settlementGas q.chain)
    (right : ∀ id r p, q.chain.house.auction? id = some r → r.proposal = some p →
      p.commitment ∈ memory → ¬ q.chain.Wrong q.tower.config.address id p) :
    ∃ after after', phase q.tower.config.propose (Poll.propose logging) q = (after, .ok ()) ∧
      phase q.tower.config.propose (Poll.propose logging) q' = (after', .ok ()) ∧
      after.Recalls memory after' ∧ after.chain.Sound ∧
      ∀ id r p, after.chain.house.auction? id = some r → r.proposal = some p →
        p.commitment ∈ memory → ¬ after.chain.Wrong after.tower.config.address id p := by
  have sound := reached.sound
  cases q.tower.config.propose with
  | false => exact ⟨q, q', rfl, rfl, recalls, sound, right⟩
  | true =>
      simp only [phase, if_true]
      rcases sound.awaiting with idle | ⟨id, awaits⟩
      · have idle' : q'.chain.house.awaitingProposal = [] := recalls.chain ▸ idle
        exact ⟨q, q', propose_of_idle logging idle, propose_of_idle logging idle', recalls, sound,
          right⟩
      · obtain ⟨r, s, deposit, after, proposes⟩ := proposes_of_awaiting logging sound awaits
        have agrees : Agrees memory (q.propose logging) (q'.propose logging) := recalls.propose
        rw [proposes.proposed] at agrees
        refine ⟨after, _, proposes.proposed, Prod.ext rfl agrees.result.symm, agrees.poll,
          (proposes.reached logging reached).sound, fun other _ p _ _ _ => ?_⟩
        rw [proposes.config]
        exact proposes.right logging sound other p

end Poll

end CandleAuction
