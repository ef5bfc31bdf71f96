import CandleAuction.Proofs.Disclosure
import CandleAuction.Proofs.Rejection

/-!
# Chains and their logs

A local chain serves one run of its house, and its log is what that run has
accepted. So a live proposal can be traced to the call that posted it, which
is the last one about the proposals of its round.
-/

namespace CandleAuction

/-- The calls that put a proposal in place or take it away. -/
def Call.replaces : Call → Bool
  | proposeWinners .. | challenge .. => true
  | _ => false

namespace Auction

variable {r : Auction} {bids : Ledger} {ctx : Context} {call : Call} {change : Change}
  {outcome : Outcome} {id : UInt64} {past : List Served}

/-- The live proposal is the last one that the past has accepted, and its list can be read. -/
def PostedIn (id : UInt64) (past : List Served) (r : Auction) : Prop :=
  ∀ p, r.proposal = some p → ∃ newer s older encoding winners,
    past = newer ++ s :: older ∧ s.outcome?.isSome = true ∧
      s.request.context.sender = p.proposer ∧
      s.request.call = .proposeWinners id encoding p.commitment p.total ∧
      r.settings.indexWidth.unpack encoding = .ok winners ∧
      ∀ t ∈ newer, ¬ t.Does Call.replaces id

theorem PostedIn.later {s : Served} (posted : r.PostedIn id past)
    (quiet : ¬ s.Does Call.replaces id) {r' : Auction} (settings : r'.settings = r.settings)
    (terms : r'.proposal.map Proposal.terms = r.proposal.map Proposal.terms) :
    r'.PostedIn id (s :: past) := by
  intro p' live'
  have same : (r.proposal.map Proposal.terms) = some p'.terms := by rw [← terms, live']; rfl
  obtain ⟨p, live, same⟩ := Option.map_eq_some_iff.mp same
  obtain ⟨newer, t, older, encoding, winners, rfl, accepted, sender, called, listed, since⟩ :=
    posted p live
  have proposer : p.proposer = p'.proposer := (congrArg Proposal.proposer same :)
  have commitment : p.commitment = p'.commitment := (congrArg Proposal.commitment same :)
  have total : p.total = p'.total := (congrArg Proposal.total same :)
  rw [proposer] at sender
  rw [commitment, total] at called
  exact ⟨s :: newer, t, older, encoding, winners, rfl, accepted, sender, called,
    settings ▸ listed, List.forall_mem_cons.mpr ⟨quiet, since⟩⟩

theorem settings_revise : (change.revise r).settings = r.settings :=
  (congrArg Auction.settings Change.origin_revise :)

theorem Allows.terms (allowed : r.Allows bids ctx call change outcome)
    (keeps : call.replaces = false) :
    (change.revise r).proposal.map Proposal.terms = r.proposal.map Proposal.terms := by
  cases allowed with
  | proposed | overturned => cases keeps
  | @closed _ request => cases request <;> rfl
  | snuffBountyPaid | proposalBountyPaid =>
      rw [Change.revise, Option.map_map]
      rfl
  | _ => rfl

end Auction

theorem Served.Moves.postedIn {s : Served} {id : UInt64} {past : List Served} {r r' : Auction}
    {bids' : Ledger} (moves : s.Moves id r r' bids') (posted : r.PostedIn id past) :
    r'.PostedIn id (s :: past) := by
  cases moves with
  | rest still => exact posted.later (s.not_does_of_still still) rfl rfl
  | change accepted about allowed addressed =>
      cases keeps : s.request.call.replaces with
      | false =>
          refine posted.later ?_ Auction.settings_revise (allowed.terms keeps)
          rintro ⟨-, replaces, -⟩
          cases keeps.symm.trans replaces
      | true =>
          obtain ⟨house, ctx, parties, call⟩ := s
          cases allowed with
          | @proposed _ encoding posted total entropy winners g =>
              cases about
              intro p live
              cases live
              exact ⟨[], _, past, encoding, winners, rfl, by rw [accepted]; rfl, rfl, rfl,
                g.listed, List.forall_mem_nil _⟩
          | overturned =>
              intro p live
              cases live
          | _ => cases keeps

theorem Run.postedIn {g : Genesis} {settlementGas : UInt64} {start h : House}
    {past : List Served} {id : UInt64} {r : Auction}
    (founded : g.found settlementGas = .ok start) (run : Run start past h)
    (found : h.auction? id = some r) : r.PostedIn id past := by
  have orderly := Genesis.orderly_of_found founded
  have each := run.each (motive := fun past r _ => r.PostedIn r.id past) orderly
    (Genesis.each_of_found founded fun _ _ live => by cases live)
    (fun _ _ _ live => by cases live) (by
      intro past s id r r' bids' run found moves posted
      rw [moves.id_eq]
      rw [run.numbered orderly found] at posted ⊢
      exact moves.postedIn posted)
  have posted : r.PostedIn r.id past := each id r found
  rwa [run.numbered orderly found] at posted

/-- What the log of a chain holds of a call. -/
def Served.logged? (s : Served) : Option (Address × Call) :=
  s.outcome?.map fun _ => (s.request.context.sender, s.request.call)

namespace Chain

variable {c : Chain} {logging : Bool} {sender : Address} {value : UInt64} {call : Call}

/-- A call as the chain serves it. -/
def serves (c : Chain) (logging : Bool) (sender : Address) (value : UInt64) (call : Call) :
    Served :=
  ⟨c.house, c.context logging sender value, c.collaborators, call⟩

theorem submit_house :
    (c.submit logging sender value call).chain.house =
      (c.serves logging sender value call).receipt.house := by
  unfold submit
  dsimp only
  split <;> rfl

theorem submit_of_grants {changes : List Change} {outcome : Outcome}
    (grant : Grants c.house (c.context logging sender value) c.collaborators call changes outcome) :
    (c.submit logging sender value call).result = .ok outcome ∧
      (c.submit logging sender value call).chain.house = changes.foldl Change.apply c.house := by
  obtain ⟨accepted, after⟩ := House.dispatch_of_grants grant
  exact ⟨submit_result.trans accepted, submit_house.trans after⟩

theorem submit_of_proposal {id total : UInt64} {encoding : List UInt8} {posted : Word}
    {changes : List Change} {outcome : Outcome}
    (grant : Grants c.house (c.context logging sender value) c.collaborators
      (.proposeWinners id encoding posted total) changes outcome) :
    (c.submit logging sender value (.proposeWinners id encoding posted total)).chain =
      { c with
        house := changes.foldl Change.apply c.house
        log := c.log.push (sender, .proposeWinners id encoding posted total) } := by
  obtain ⟨accepted, house⟩ := House.dispatch_of_grants grant
  have unasked : ∀ inquiry answer, (c.house.dispatch (c.context logging sender value)
      c.collaborators (.proposeWinners id encoding posted total)).asked ≠
        some (inquiry, .ok answer) := by
    intro inquiry answer asked
    obtain ⟨⟨next, planned⟩, -⟩ := House.planned_of_asked asked
    obtain ⟨_, _, _, -, -, same⟩ := House.proposeWinners_eq_ok.mp planned
    cases same
  have executed := Chain.execute_of_unanswered unasked
  rw [house] at executed
  unfold submit
  dsimp only
  split
  · simp only [executed, accept]
  · rename_i failed
    cases failed.symm.trans accepted

@[simp]
theorem submit_now : (c.submit logging sender value call).chain.now = c.now := by
  unfold submit
  dsimp only
  split <;> rfl

theorem submit_log :
    (c.submit logging sender value call).chain.log.toList =
      c.log.toList ++ (c.serves logging sender value call).logged?.toList := by
  unfold submit Served.logged? Served.outcome? serves Served.receipt
  dsimp only [execute]
  cases (c.house.dispatch (c.context logging sender value) c.collaborators call).result <;>
    simp [accept, context]

theorem submit_log_of_ok {outcome : Outcome}
    (accepted : (c.submit logging sender value call).result = .ok outcome) :
    (c.submit logging sender value call).chain.log.toList = c.log.toList ++ [(sender, call)] := by
  have served : (c.serves logging sender value call).outcome? = some outcome :=
    Served.outcome?_eq_some.mpr (submit_result.symm.trans accepted)
  rw [submit_log, Served.logged?, served]
  rfl

/-- A step that has not stopped the program. -/
def Unfaulted {α : Type} (step : Step α) : Prop := ∀ fault, step.result ≠ .error (.fault fault)

theorem unfaulted_of_ok {α : Type} {step : Step α} {value : α}
    (accepted : step.result = .ok value) : Unfaulted step := by
  intro fault stopped
  cases accepted.symm.trans stopped

theorem deliverAll_of_submit {motive : Chain → Prop}
    (kept : ∀ {c : Chain} (sender : Address) (call : Call), motive c →
      Unfaulted (c.submit logging sender 0 call) → motive (c.submit logging sender 0 call).chain)
    {requests : List UInt64} {c : Chain} {offsets : List UInt32} {events : List Event}
    (holds : motive c) (unfaulted : Unfaulted (deliverAll logging requests c offsets events)) :
    motive (deliverAll logging requests c offsets events).chain := by
  induction requests generalizing c offsets events with
  | nil => exact holds
  | cons request rest inductionHypothesis =>
      rw [deliverAll] at unfaulted ⊢
      cases known : c.oracle.word? request with
      | none =>
          simp only [known] at unfaulted
          exact inductionHypothesis holds unfaulted
      | some word =>
          simp only [known] at unfaulted ⊢
          generalize Call.fulfillRandomness request word = call at unfaulted ⊢
          have submitted := kept c.house.oracle call holds
          cases result : (c.submit logging c.house.oracle 0 call).result with
          | error halt =>
              simp only [result] at unfaulted ⊢
              refine submitted fun fault stopped => unfaulted fault ?_
              exact congrArg _ (Except.error.inj (result.symm.trans stopped))
          | ok outcome =>
              have submitted := submitted (unfaulted_of_ok result)
              cases outcome <;>
                (simp only [result] at unfaulted ⊢; exact inductionHypothesis submitted unfaulted)

/-- The states that a chain gets into from its genesis, with a rule for setting its clock. -/
inductive Reached (tick : UInt64 → UInt64 → Prop) (g : Genesis) (settlementGas : UInt64) :
    Chain → Prop
  | found {c : Chain} : Chain.found g settlementGas = .ok c → Reached tick g settlementGas c
  | submit {c : Chain} (logging : Bool) (sender : Address) (value : UInt64) (call : Call) :
      Reached tick g settlementGas c → Unfaulted (c.submit logging sender value call) →
      Reached tick g settlementGas (c.submit logging sender value call).chain
  | deliver {c : Chain} (logging : Bool) : Reached tick g settlementGas c →
      Unfaulted (c.deliver logging) → Reached tick g settlementGas (c.deliver logging).chain
  | clock {c : Chain} (height now : UInt64) : Reached tick g settlementGas c → tick c.now now →
      Reached tick g settlementGas { c with height := height, now := now }
  | price {c : Chain} (gasPrice : UInt64) : Reached tick g settlementGas c →
      Reached tick g settlementGas { c with gasPrice := gasPrice }

variable {tick : UInt64 → UInt64 → Prop} {g : Genesis} {settlementGas : UInt64}

theorem Reached.induct {motive : Chain → Prop} (reached : Reached tick g settlementGas c)
    (initial : ∀ {c : Chain}, Chain.found g settlementGas = .ok c → motive c)
    (submitted : ∀ {c : Chain} {logging : Bool} {sender : Address} {value : UInt64} {call : Call},
      motive c → Unfaulted (c.submit logging sender value call) →
      motive (c.submit logging sender value call).chain)
    (clocked : ∀ {c : Chain} {height now : UInt64}, motive c → tick c.now now →
      motive { c with height := height, now := now })
    (priced : ∀ {c : Chain} {gasPrice : UInt64}, motive c →
      motive { c with gasPrice := gasPrice }) : motive c := by
  induction reached with
  | found founded => exact initial founded
  | submit _ _ _ _ _ unfaulted inductionHypothesis =>
      exact submitted inductionHypothesis unfaulted
  | deliver _ _ unfaulted inductionHypothesis =>
      exact deliverAll_of_submit (fun _ _ => submitted) inductionHypothesis unfaulted
  | clock _ _ _ ticks inductionHypothesis => exact clocked inductionHypothesis ticks
  | price _ _ inductionHypothesis => exact priced inductionHypothesis

/-- A chain after a request at its time. -/
def play (c : Chain) (q : Request) : Chain :=
  ({ c with now := q.context.now }.submit q.context.logging q.context.sender q.context.value
    q.call).chain

theorem Reached.play {q : Request} {outcome : Outcome}
    (reached : Reached tick g settlementGas c) (ticks : tick c.now q.context.now)
    (accepted : ({ c with now := q.context.now }.submit q.context.logging q.context.sender
      q.context.value q.call).result = .ok outcome) :
    Reached tick g settlementGas (c.play q) :=
  (reached.clock c.height _ ticks).submit _ _ _ _ (unfaulted_of_ok accepted)

/-- A run of the house that accounts for the log, in the order of time if the clock is
never set back. -/
structure Traces (tick : UInt64 → UInt64 → Prop) (c : Chain) (start : House)
    (past : List Served) : Prop where
  run : Run start past c.house
  log : c.log.toList.reverse = past.filterMap Served.logged?
  timed : (∀ earlier later, tick earlier later → earlier ≤ later) →
    Chronological past ∧ ∀ s ∈ past, s.now ≤ c.now

theorem Traces.submit {start : House} {past : List Served} (traces : c.Traces tick start past)
    (unfaulted : Unfaulted (c.submit logging sender value call)) :
    (c.submit logging sender value call).chain.Traces tick start
      (c.serves logging sender value call :: past) where
  run := by
    rw [submit_house]
    refine .step _ traces.run fun fault stopped => unfaulted fault ?_
    rw [submit_result]
    exact stopped
  log := by
    rw [submit_log, List.reverse_append, traces.log, List.filterMap_cons]
    cases (c.serves logging sender value call).logged? <;> rfl
  timed forward := by
    obtain ⟨ordered, recent⟩ := traces.timed forward
    rw [submit_now]
    exact ⟨ordered.cons recent, List.forall_mem_cons.mpr ⟨UInt64.le_refl _, recent⟩⟩

theorem found_of_found (founded : Chain.found g settlementGas = .ok c) :
    g.found settlementGas = .ok c.house ∧ c.oracle = .new ∧ c.log = #[] := by
  cases opened : g.found settlementGas with
  | error error => simp [Chain.found, opened, bind, Except.bind] at founded
  | ok start =>
      simp only [Chain.found, opened, bind, Except.bind, pure, Except.pure,
        Except.ok.injEq] at founded
      subst founded
      exact ⟨rfl, rfl, rfl⟩

/-- Every chain traces a run from its genesis. -/
theorem Reached.exists_run (reached : Reached tick g settlementGas c) :
    ∃ start past, g.found settlementGas = .ok start ∧ c.Traces tick start past := by
  refine reached.induct (motive := fun c => ∃ start past, g.found settlementGas = .ok start ∧
    c.Traces tick start past) ?_ ?_ ?_ ?_
  · intro c founded
    obtain ⟨opened, -, silent⟩ := found_of_found founded
    exact ⟨c.house, [], opened, .start, by simp [silent],
      fun _ => ⟨.nil, List.forall_mem_nil _⟩⟩
  · rintro c logging sender value call ⟨start, past, founded, traces⟩ unfaulted
    exact ⟨start, _, founded, traces.submit unfaulted⟩
  · rintro c height now ⟨start, past, founded, traces⟩ ticks
    refine ⟨start, past, founded, traces.run, traces.log, fun forward => ?_⟩
    obtain ⟨ordered, recent⟩ := traces.timed forward
    exact ⟨ordered, fun s member => UInt64.le_trans (recent s member) (forward _ _ ticks)⟩
  · rintro c gasPrice ⟨start, past, founded, traces⟩
    exact ⟨start, past, founded, traces.run, traces.log, traces.timed⟩

/-- The log holds the call that posted a proposal, and nothing about the proposals of the
round after it. -/
def Posts (c : Chain) (id : UInt64) (p : Proposal) (encoding : List UInt8) : Prop :=
  ∃ before after, c.log.toList =
      before ++ (p.proposer, .proposeWinners id encoding p.commitment p.total) :: after ∧
    ∀ entry ∈ after, entry.2.round? = some id → entry.2.replaces = false

theorem posted?_eq {id : UInt64} :
    c.posted? id = c.log.toList.reverse.findSome? fun entry => entry.2.posts? id := by
  unfold posted?
  refine congrArg (List.findSome? · _) (funext fun ⟨sender, call⟩ => ?_)
  cases call <;> rfl

/-- The list of a live proposal is what the log is searched for. -/
theorem Posts.posted? {id : UInt64} {p : Proposal} {encoding : List UInt8}
    (posts : c.Posts id p encoding) : c.posted? id = some encoding := by
  obtain ⟨before, after, split, quiet⟩ := posts
  have silent : ∀ entry ∈ after.reverse, entry.2.posts? id = none := by
    rintro ⟨sender, call⟩ member
    have quiet := quiet _ (List.mem_reverse.mp member)
    cases call with
    | proposeWinners round => exact if_neg fun same => nomatch quiet (congrArg some same)
    | _ => rfl
  rw [posted?_eq, split, List.reverse_append, List.reverse_cons, List.append_assoc,
    List.findSome?_append, List.findSome?_eq_none_iff.mpr silent]
  simp [Call.posts?]

theorem posts_of_submit {id total : UInt64} {encoding : List UInt8} {posted : Word}
    {outcome : Outcome} {p : Proposal}
    (accepted : (c.submit logging sender value
      (.proposeWinners id encoding posted total)).result = .ok outcome)
    (made : p.proposer = sender ∧ p.commitment = posted ∧ p.total = total) :
    (c.submit logging sender value (.proposeWinners id encoding posted total)).chain.Posts id p
      encoding := by
  obtain ⟨rfl, rfl, rfl⟩ := made
  exact ⟨c.log.toList, [], submit_log_of_ok accepted, List.forall_mem_nil _⟩

theorem findSome?_entries {past : List Served} {id : UInt64} :
    ((past.filterMap Served.logged?).findSome? fun entry => entry.2.posts? id) =
      CandleAuction.posted? id past := by
  induction past with
  | nil => rfl
  | cons s rest inductionHypothesis =>
      rw [posted?_cons, ← inductionHypothesis, Served.posts?, List.filterMap_cons, Served.logged?]
      cases s.outcome? with
      | none => rfl
      | some outcome =>
          rw [Option.map_some, List.findSome?_cons, Option.bind_some]
          cases s.request.call.posts? id <;> rfl

theorem Traces.posted?_eq {start : House} {past : List Served} {id : UInt64}
    (traces : c.Traces tick start past) : c.posted? id = CandleAuction.posted? id past := by
  rw [Chain.posted?_eq, traces.log, findSome?_entries]

theorem Traces.posted {start : House} {past : List Served} {id : UInt64} {r : Auction}
    {p : Proposal} (traces : c.Traces tick start past) (posted : r.PostedIn id past)
    (live : r.proposal = some p) :
    ∃ encoding winners, c.Posts id p encoding ∧
      r.settings.indexWidth.unpack encoding = .ok winners := by
  obtain ⟨newer, s, older, encoding, winners, rfl, accepted, sender, called, listed, since⟩ :=
    posted p live
  obtain ⟨outcome, accepted⟩ := Option.isSome_iff_exists.mp accepted
  have entry : s.logged? = some (p.proposer, .proposeWinners id encoding p.commitment p.total) := by
    rw [Served.logged?, accepted, sender, called]
    rfl
  refine ⟨encoding, winners, ⟨(older.filterMap Served.logged?).reverse,
    (newer.filterMap Served.logged?).reverse, ?_, ?_⟩, listed⟩
  · rw [← List.reverse_reverse c.log.toList, traces.log]
    simp [entry]
  · intro kept member named
    obtain ⟨t, served, noted⟩ := List.mem_filterMap.mp (List.mem_reverse.mp member)
    obtain ⟨outcome, accepted, rfl⟩ := Option.map_eq_some_iff.mp noted
    rw [← Bool.not_eq_true]
    exact fun replaces => since t served
      ⟨House.addressee?_of_round? named, replaces, by rw [accepted]; rfl⟩

end Chain

end CandleAuction
