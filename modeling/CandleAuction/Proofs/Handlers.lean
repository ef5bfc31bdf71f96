import CandleAuction.Chain.Basic
import CandleAuction.Proofs.Rules.Refusals

/-!
# Handlers and their rules

A handler does what the rule of its call has planned, although it checks, asks
and writes in turns and keeps what it has written when it stops. Each handler is
walked through once, beside its rule: as long as both pass the same checks
nothing has been written, and the writes that follow add up to the change that
the rule has planned.
-/

namespace CandleAuction

open Ruling

attribute [local irreducible] commitment

variable {σ ω : Type}

/-- What the parties would answer in their present states. -/
def Backends.current (b : Backends σ ω) (settler : σ) (oracle : ω) : Collaborators where
  settle winner seed := (b.settle winner seed settler).1
  request seed := (b.request seed oracle).1
  settlementGas := b.settlementGas settler

/-- The session that has got to a house with at most one question asked. -/
def Session.after (b : Backends σ ω) (settler : σ) (oracle : ω) (house : House)
    (asked : Option (Inquiry × Except CollaboratorError UInt64)) (events : List Event) :
    Session σ ω where
  house := house
  settler :=
    match asked with
    | some (.settle winner seed, _) => (b.settle winner seed settler).2
    | _ => settler
  oracle :=
    match asked with
    | some (.randomness seed, _) => (b.request seed oracle).2
    | _ => oracle
  asked := asked.toList
  events := events

/-- The session that a receipt tells of. -/
def Receipt.session (r : Receipt) (b : Backends σ ω) (settler : σ) (oracle : ω) :
    Session σ ω :=
  .after b settler oracle r.house r.asked r.events

/-- Two ends of a call that differ at most in what a fault leaves behind. -/
def SameEnd (x y : Except Halt Outcome × Session σ ω) : Prop :=
  x = y ∨ ∃ fault, x.1 = .error (.fault fault) ∧ y.1 = .error (.fault fault)

namespace SameEnd

variable {x y : Except Halt Outcome × Session σ ω}

theorem result_eq (same : SameEnd x y) : x.1 = y.1 := by
  rcases same with rfl | ⟨fault, left, right⟩
  · rfl
  · exact left.trans right.symm

theorem eq_of_unfaulted (same : SameEnd x y) (unfaulted : ∀ fault, x.1 ≠ .error (.fault fault)) :
    x = y := by
  rcases same with equal | ⟨fault, left, -⟩
  · exact equal
  · exact absurd left (unfaulted fault)

end SameEnd

/-- What comes of a call once its rule has spoken. -/
def House.conclude (h : House) (ctx : Context) (c : Collaborators) (call : Call) :
    Ruling Plan → Receipt
  | .error halt => ⟨.error halt, h, none, refusal ctx call halt⟩
  | .ok (.act effect) => h.perform ctx effect none
  | .ok (.ask inquiry next) =>
      match c.answer inquiry with
      | .error error => ⟨reject (.external error), h, some (inquiry, .error error), []⟩
      | .ok answer => h.perform ctx (next answer) (some (inquiry, .ok answer))

theorem House.dispatch_eq_conclude {h : House} {ctx : Context} {c : Collaborators} {call : Call} :
    h.dispatch ctx c call = h.conclude ctx c call (h.plan ctx c.settlementGas call) := rfl

theorem House.refusal_of_ne {ctx : Context} {call : Call} {halt : Halt}
    (other : halt ≠ .rejected .challengeFailed) : refusal ctx call halt = [] := by
  unfold refusal
  split
  · exact absurd rfl other
  · rfl

theorem House.credit?_of_some {h : House} {address : Address} {amount balance : UInt64}
    (credited : checkedAdd (h.balance address) amount = some balance) :
    (h.credit? address amount).getD h = h.setBalance address balance := by
  rw [credit?, credited]
  rfl

namespace Handler

variable {α β γ : Type} {b : Backends σ ω} {h : House} {settler : σ} {oracle : ω}
  {ctx : Context} {call : Call} {id : UInt64} {ended : Except Halt Outcome × Session σ ω}

/-- A check is passed or ends the handler at once, just as in a ruling. -/
theorem check_cases {motive : Except Halt β × Session σ ω → Ruling γ → Prop} {x : Ruling α}
    {next : α → Handler σ ω β} {rest : α → Ruling γ} {s : Session σ ω}
    (refused : ∀ halt, x = .error halt → motive (.error halt, s) (.error halt))
    (granted : ∀ value, x = .ok value → motive ((next value).run s) (rest value)) :
    motive ((liftM x >>= next).run s) (x >>= rest) := by
  cases x with
  | ok value => exact granted value rfl
  | error halt => exact refused halt rfl

/-- A handler that decides as a ruling does, and has written once it is decided. -/
def Carries (s : Session σ ω) (write : α → House → House)
    (ended : Except Halt α × Session σ ω) (ruling : Ruling α) : Prop :=
  ended = match ruling with
    | .ok value => (.ok value, { s with house := write value s.house })
    | .error halt => (.error halt, s)

theorem Carries.check {s : Session σ ω} {write : β → House → House} {x : Ruling α}
    {next : α → Handler σ ω β} {rest : α → Ruling β}
    (granted : ∀ value, x = .ok value → Carries s write ((next value).run s) (rest value)) :
    Carries s write ((liftM x >>= next).run s) (x >>= rest) :=
  check_cases (fun _ _ => rfl) granted

theorem payOut_carries {recipient : Address} {fromProceeds fromDeposit : UInt64}
    {s : Session σ ω} :
    Carries s (fun payout house => house.pay id payout)
      ((payOut id recipient fromProceeds fromDeposit).run s)
      (s.house.payout id recipient fromProceeds fromDeposit) := by
  refine .check fun r found => ?_
  refine .check fun _ solvent => ?_
  refine .check fun amount sum => ?_
  refine .check fun balance credited => ?_
  have rest : exactSub r.proceeds fromProceeds = .ok (r.proceeds - fromProceeds) :=
    if_pos (ensure_eq_ok.mp solvent)
  rw [rest]
  exact congrArg (fun house => (Except.ok _, { s with house := house }))
    (House.credit?_of_some (h := s.house.updateAuction id _) (demand_eq_ok.mp credited))

/-- The end of a handler is the one that the rule has planned. -/
def Serves (b : Backends σ ω) (h : House) (settler : σ) (oracle : ω) (ctx : Context)
    (call : Call) (ended : Except Halt Outcome × Session σ ω) (ruling : Ruling Plan) : Prop :=
  let receipt := h.conclude ctx (b.current settler oracle) call ruling
  SameEnd ended (receipt.result, receipt.session b settler oracle)

/-- The session after a change has been written and logged. -/
def carry (ctx : Context) (s : Session σ ω) (change : Change) : Session σ ω :=
  { s with
    house := change.apply s.house
    events := s.events ++ if ctx.logging then change.event?.toList else [] }

theorem foldl_carry {changes : List Change} {s : Session σ ω} :
    changes.foldl (carry ctx) s = { s with
      house := changes.foldl Change.apply s.house
      events := s.events ++ if ctx.logging then changes.filterMap Change.event? else [] } := by
  induction changes generalizing s with
  | nil => simp
  | cons change rest inductionHypothesis =>
      rw [List.foldl_cons, inductionHypothesis, List.filterMap_cons]
      unfold carry
      cases ctx.logging <;> cases change.event? <;> simp

/-- The end of a handler that has carried out an effect. -/
def performed (ctx : Context) (s : Session σ ω) (effect : Effect) :
    Except Halt Outcome × Session σ ω :=
  (exactly effect.result, effect.changes.foldl (carry ctx) s)

theorem run_ask {inquiry : Inquiry} :
    (ask b inquiry).run (.start h settler oracle) =
      let answer := (b.current settler oracle).answer inquiry
      (answered answer, .after b settler oracle h (some (inquiry, answer)) []) := by
  cases inquiry <;> rfl

namespace Serves

theorem refused {halt : Halt} (quiet : House.refusal ctx call halt = []) :
    Serves b h settler oracle ctx call (.error halt, .start h settler oracle) (.error halt) := by
  refine .inl ?_
  simp only [House.conclude, quiet]
  rfl

theorem check {x : Ruling α} {next : α → Handler σ ω Outcome} {rest : α → Ruling Plan}
    (quiet : House.refusal ctx call = fun _ => [])
    (granted : ∀ value, x = .ok value →
      Serves b h settler oracle ctx call ((next value).run (.start h settler oracle))
        (rest value)) :
    Serves b h settler oracle ctx call ((liftM x >>= next).run (.start h settler oracle))
      (x >>= rest) :=
  check_cases (fun halt _ => refused (congrFun quiet halt)) granted

theorem check_of_spared {x : Ruling α} {next : α → Handler σ ω Outcome}
    {rest : α → Ruling Plan} (other : ¬ Rejects (· = .challengeFailed) x)
    (granted : ∀ value, x = .ok value →
      Serves b h settler oracle ctx call ((next value).run (.start h settler oracle))
        (rest value)) :
    Serves b h settler oracle ctx call ((liftM x >>= next).run (.start h settler oracle))
      (x >>= rest) := by
  refine check_cases (fun halt failed => refused (House.refusal_of_ne ?_)) granted
  rintro rfl
  exact other ⟨_, failed, rfl⟩

theorem upheld {encoding : List UInt8} {claimed : Word} {disputed : UInt32}
    {found : Option FraudReason} {next : FraudReason → Handler σ ω Outcome}
    {rest : FraudReason → Ruling Plan}
    (granted : ∀ reason, Serves b h settler oracle ctx (.challenge id encoding claimed disputed)
      ((next reason).run (.start h settler oracle)) (rest reason)) :
    Serves b h settler oracle ctx (.challenge id encoding claimed disputed)
      ((Handler.upheld ctx id disputed found >>= next).run (.start h settler oracle))
      (demand found .challengeFailed >>= rest) := by
  cases found with
  | none => exact .inl rfl
  | some reason => exact granted reason

theorem payOut {recipient : Address} {fromProceeds fromDeposit : UInt64}
    {next : Payout → Handler σ ω Outcome} {rest : Payout → Ruling Plan}
    (quiet : House.refusal ctx call = fun _ => [])
    (granted : ∀ payout, Serves b h settler oracle ctx call
      ((next payout).run (.start (h.pay id payout) settler oracle)) (rest payout)) :
    Serves b h settler oracle ctx call
      ((payOut id recipient fromProceeds fromDeposit >>= next).run (.start h settler oracle))
      (h.payout id recipient fromProceeds fromDeposit >>= rest) := by
  have moved : (Handler.payOut id recipient fromProceeds fromDeposit).run
      (.start h settler oracle) = _ := payOut_carries
  rw [run_bind, moved, Session.start]
  cases paid : h.payout id recipient fromProceeds fromDeposit with
  | ok payout => exact granted payout
  | error halt => exact refused (congrFun quiet halt)

theorem ite {condition : Prop} [Decidable condition] {first second : Handler σ ω Outcome}
    {ruling other : Ruling Plan} {s : Session σ ω}
    (met : Serves b h settler oracle ctx call (first.run s) ruling)
    (unmet : Serves b h settler oracle ctx call (second.run s) other) :
    Serves b h settler oracle ctx call ((if condition then first else second).run s)
      (if condition then ruling else other) := by
  split
  · exact met
  · exact unmet

theorem act {effect : Effect}
    (done : ended = performed ctx (.start h settler oracle) effect) :
    Serves b h settler oracle ctx call ended (pure (.act effect)) := by
  rw [performed, foldl_carry] at done
  exact .inl done

theorem ask {inquiry : Inquiry} {next : UInt64 → Handler σ ω Outcome} {effect : UInt64 → Effect}
    (answered : ∀ answer,
      let s := ((ask b inquiry).run (.start h settler oracle)).2
      SameEnd ((next answer).run s) (performed ctx s (effect answer))) :
    Serves b h settler oracle ctx call ((ask b inquiry >>= next).run (.start h settler oracle))
      (pure (.ask inquiry effect)) := by
  have asked : (Handler.ask b inquiry).run (.start h settler oracle) = _ := run_ask
  unfold Serves
  rw [run_bind, asked]
  rw [asked] at answered
  simp only [House.conclude, pure, Except.pure]
  cases reply : (b.current settler oracle).answer inquiry with
  | ok answer =>
      rw [reply] at answered
      have ended := answered answer
      simp only [performed, foldl_carry] at ended
      exact ended
  | error error => exact .inl rfl

end Serves

theorem placeBid_serves {amount : UInt64} :
    Serves b h settler oracle ctx (.placeBid id amount)
      ((placeBid ctx id amount).run (.start h settler oracle)) (h.placeBid ctx id amount) := by
  refine .check rfl fun r found => ?_
  refine .check rfl fun _ opened => ?_
  refine .check rfl fun _ valued => ?_
  refine .check rfl fun _ precise => ?_
  refine .check rfl fun _ covered => ?_
  refine .check rfl fun _ room => ?_
  refine .check rfl fun timestamp dated => ?_
  refine .check rfl fun proceeds fits => ?_
  exact .act rfl

theorem increaseBid_serves {added : UInt64} {index : UInt32} :
    Serves b h settler oracle ctx (.increaseBid id index added)
      ((increaseBid ctx id index added).run (.start h settler oracle))
      (h.increaseBid ctx id index added) := by
  refine .check rfl fun r found => ?_
  refine .check rfl fun _ opened => ?_
  refine .check rfl fun _ valued => ?_
  refine .check rfl fun _ precise => ?_
  refine .check rfl fun bid listed => ?_
  refine .check rfl fun _ owned => ?_
  refine .check rfl fun amount sum => ?_
  refine .check rfl fun proceeds fits => ?_
  refine .check rfl fun timestamp dated => ?_
  exact .act rfl

theorem proposeWinners_serves {total : UInt64} {encoding : List UInt8} {posted : Word} :
    Serves b h settler oracle ctx (.proposeWinners id encoding posted total)
      ((proposeWinners ctx id encoding posted total).run (.start h settler oracle))
      (h.proposeWinners ctx id encoding posted total) := by
  refine .check rfl fun r found => ?_
  refine .check rfl fun _ phase => ?_
  refine .check rfl fun entropy drawn => ?_
  refine .check rfl fun _ bonded => ?_
  refine .check rfl fun winners listed => ?_
  refine .check rfl fun _ opened => ?_
  exact .act rfl

theorem withdrawBid_serves {encoding : List UInt8} {index : UInt32} :
    Serves b h settler oracle ctx (.withdrawBid id encoding index)
      ((withdrawBid ctx id encoding index).run (.start h settler oracle))
      (h.withdrawBid ctx id encoding index) := by
  refine .check rfl fun winners final => ?_
  refine .check rfl fun bid listed => ?_
  refine .check rfl fun _ owned => ?_
  refine .check rfl fun _ lost => ?_
  refine .check rfl fun _ fresh => ?_
  refine .payOut rfl fun payout => ?_
  exact .act rfl

theorem claimSnuffBounty_serves :
    Serves b h settler oracle ctx (.claimSnuffBounty id)
      ((claimSnuffBounty ctx id).run (.start h settler oracle)) (h.claimSnuffBounty ctx id) := by
  refine .check rfl fun (r, proposal) final => ?_
  refine .check rfl fun _ unclaimed => ?_
  refine .check rfl fun snuff closed => ?_
  refine .payOut rfl fun payout => ?_
  exact .act rfl

/-- The sum that is returned can only fail where the rule fails, too. -/
theorem claimProposalBounty_serves :
    Serves b h settler oracle ctx (.claimProposalBounty id)
      ((claimProposalBounty ctx id).run (.start h settler oracle))
      (h.claimProposalBounty ctx id) := by
  refine .check rfl fun (r, proposal) final => ?_
  refine .check rfl fun _ unclaimed => ?_
  refine .payOut rfl fun payout => ?_
  cases sum : exactAdd proposal.proposalBounty proposal.deposit with
  | ok total => exact .act rfl
  | error fault => exact .inr ⟨fault, rfl, rfl⟩

theorem transferProceeds_serves :
    Serves b h settler oracle ctx (.transferProceeds id)
      ((transferProceeds ctx id).run (.start h settler oracle)) (h.transferProceeds ctx id) := by
  refine .check rfl fun (r, proposal) final => ?_
  refine .check rfl fun _ unmoved => ?_
  refine .check rfl fun bounties sum => ?_
  refine .payOut rfl fun payout => ?_
  exact .act rfl

theorem updateSettings_serves {settings : Settings} :
    Serves b h settler oracle ctx (.updateSettings settings)
      ((updateSettings ctx settings).run (.start h settler oracle))
      (h.updateSettings ctx settings) := by
  refine .check rfl fun _ admin => ?_
  cases settings.problem? with
  | some problem => exact .refused rfl
  | none => exact .act (Prod.ext rfl (congrArg (Session.mk _ _ _ _) (ite_self _).symm))

theorem fulfillRandomness_serves {request : UInt64} {word : Word} :
    Serves b h settler oracle ctx (.fulfillRandomness request word)
      ((fulfillRandomness ctx request word).run (.start h settler oracle))
      (h.fulfillRandomness ctx request word) := by
  refine .check rfl fun _ sender => ?_
  refine .check rfl fun id known => ?_
  refine .check rfl fun r found => ?_
  refine .check rfl fun _ waits => ?_
  refine .check rfl fun _ undrawn => ?_
  refine .check rfl fun offset drawn => ?_
  by_cases logging : ctx.logging = true
  · rw [if_pos logging, if_pos logging]
    cases sum : exactAdd r.startTime offset.toUInt64 with
    | ok closeTime => exact .act rfl
    | error fault => exact .inr ⟨fault, rfl, rfl⟩
  · rw [if_neg logging, if_neg logging]
    exact .act rfl

theorem startAuction_apply {s : Session σ ω} {startTime : UInt64} {fee : FeeObservation} :
    (startAuction b ctx startTime fee).run s =
      match exactAdd s.house.nextId 1 with
      | .ok nextId =>
          let round := s.house.nextRound startTime fee (b.settlementGas s.settler)
          (.ok s.house.nextId, { s with
            house := s.house.openRound round nextId
            events := s.events ++
              if ctx.logging then (Change.opened round nextId).event?.toList else [] })
      | .error fault => (.error (.fault fault), s) := by
  simp only [startAuction, run_bind, run_house, run_settlementGas, run_exact]
  cases exactAdd s.house.nextId 1 <;> rfl

theorem closeAndReopen_apply {s : Session σ ω} {request : Option UInt64} :
    (closeAndReopen b ctx id request).run s =
      performed ctx s (s.house.closeAndReopen ctx (b.settlementGas s.settler) id request) := by
  cases request with
  | none | some =>
      simp only [closeAndReopen, run_bind, run_write, run_log, startAuction_apply,
        House.updateAuction, House.closeAndReopen]
      cases exactAdd s.house.nextId 1 with
      | ok nextId => rfl
      | error fault => rfl

theorem snuff_serves :
    Serves b h settler oracle ctx (.snuff id) ((snuff b ctx id).run (.start h settler oracle))
      (h.snuff ctx (b.settlementGas settler) id) := by
  refine .check rfl fun r found => ?_
  refine .check rfl fun _ running => ?_
  refine .check rfl fun deadline due => ?_
  refine .check rfl fun _ reached => ?_
  refine .check rfl fun _ free => ?_
  exact .ite (.act closeAndReopen_apply) (.ask fun _ => .inl closeAndReopen_apply)

theorem countWinner_apply {s : Session σ ω} {r : Auction} (found : s.house.auction? id = some r) :
    (countWinner id).run s =
      match exactSucc r.claimedWinners with
      | .ok count => (.ok count, { s with
          house := s.house.updateAuction id ({ · with claimedWinners := count }) })
      | .error fault => (.error (.fault fault), s) := by
  simp only [countWinner, run_bind, run_house, found, run_exact]
  cases exactSucc r.claimedWinners <;> rfl

theorem claimWinningBid_serves {encoding : List UInt8} {position : UInt32} :
    Serves b h settler oracle ctx (.claimWinningBid id encoding position)
      ((claimWinningBid b ctx id encoding position).run (.start h settler oracle))
      (h.claimWinningBid ctx id encoding position) := by
  refine .check rfl fun winners final => ?_
  refine .check rfl fun index listed => ?_
  refine .check rfl fun bid entry => ?_
  refine .check rfl fun _ fresh => ?_
  refine .check rfl fun r found => ?_
  refine .check rfl fun entropy drawn => ?_
  refine .ask fun item => ?_
  intro s
  have counted : (countWinner id).run
      { s with house := s.house.updateBid id index ({ · with processed := true }) } = _ :=
    countWinner_apply (demand_eq_ok.mp found)
  simp only [run_bind, run_write, counted]
  cases exactSucc r.claimedWinners with
  | error fault => exact .inr ⟨fault, rfl, rfl⟩
  | ok count => exact .inl rfl

theorem challenge_serves {encoding : List UInt8} {claimed : Word} {disputed : UInt32} :
    Serves b h settler oracle ctx (.challenge id encoding claimed disputed)
      ((challenge ctx id encoding claimed disputed).run (.start h settler oracle))
      (h.challenge ctx id encoding claimed disputed) := by
  have apart : Rejection.Apart (· = .challengeFailed) := ⟨by simp, by simp⟩
  refine .check_of_spared (House.not_rejects_requireAuction apart) fun r found => ?_
  refine .check_of_spared (Auction.not_rejects_requireChallengeable apart (by simp))
    fun _ inTime => ?_
  refine .check_of_spared (by simp) fun (proposal, entropy, close) live => ?_
  refine .check_of_spared (by simp) fun _ opened => ?_
  refine .check_of_spared (by simp) fun _ other => ?_
  refine .check_of_spared (by simp) fun winners listed => ?_
  refine .upheld fun reason => ?_
  refine .check_of_spared (by simp) fun balance credited => ?_
  exact .act (congrArg (fun house => (Except.ok _, Session.mk house _ _ _ _))
    (House.credit?_of_some (h := h.updateAuction id _) (demand_eq_ok.mp credited)))

theorem ofCall_serves :
    Serves b h settler oracle ctx call ((ofCall b ctx call).run (.start h settler oracle))
      (h.plan ctx (b.settlementGas settler) call) := by
  cases call with
  | placeBid => exact placeBid_serves
  | increaseBid => exact increaseBid_serves
  | snuff => exact snuff_serves
  | fulfillRandomness => exact fulfillRandomness_serves
  | proposeWinners => exact proposeWinners_serves
  | challenge => exact challenge_serves
  | claimWinningBid => exact claimWinningBid_serves
  | withdrawBid => exact withdrawBid_serves
  | claimSnuffBounty => exact claimSnuffBounty_serves
  | claimProposalBounty => exact claimProposalBounty_serves
  | transferProceeds => exact transferProceeds_serves
  | updateSettings => exact updateSettings_serves

/-- A handler that checks, asks and writes in turns ends as the dispatched plan does. -/
theorem ofCall_sameEnd :
    let receipt := h.dispatch ctx (b.current settler oracle) call
    SameEnd ((ofCall b ctx call).run (.start h settler oracle))
      (receipt.result, receipt.session b settler oracle) := by
  rw [House.dispatch_eq_conclude]
  exact ofCall_serves

end Handler

namespace Chain

variable {c : Chain} {ctx : Context} {call : Call} {logging : Bool} {sender : Address}
  {value : UInt64}

theorem backends_settle {settler : Settler} {winner : Address} {seed : Word} :
    backends.settle winner seed settler = (settler.settle,
      match settler.settle with
      | .ok _ => settler.record winner seed
      | .error _ => settler) := by
  simp only [backends]
  cases settler.settle <;> rfl

theorem backends_request {oracle : RandomnessOracle} {seed : Word} :
    backends.request seed oracle = (oracle.request, oracle.record seed) := rfl

theorem current_backends : backends.current c.settler c.oracle = c.collaborators := by
  simp only [Backends.current, backends_settle, backends_request]
  rfl

theorem run_ofCall_fst :
    ((Handler.ofCall backends ctx call).run (.start c.house c.settler c.oracle)).1 =
      (c.house.dispatch ctx c.collaborators call).result := by
  rw [← current_backends]
  exact Handler.ofCall_sameEnd.result_eq

theorem handle_result :
    (c.handle backends ctx call).result =
      (c.house.dispatch ctx c.collaborators call).result := run_ofCall_fst

theorem handle_eq_execute
    (unfaulted : ∀ fault, (c.handle backends ctx call).result ≠ .error (.fault fault)) :
    c.handle backends ctx call = c.execute ctx c.collaborators call := by
  have ended := Handler.ofCall_sameEnd.eq_of_unfaulted unfaulted
  unfold handle execute
  rw [ended, current_backends]
  simp only [Receipt.session, Session.after]
  cases asked : (c.house.dispatch ctx c.collaborators call).asked with
  | none => rfl
  | some question =>
      obtain ⟨inquiry, answer⟩ := question
      have answered : c.collaborators.answer inquiry = answer :=
        (House.planned_of_asked asked).2
      subst answered
      cases inquiry with
      | randomness seed => rfl
      | settle winner seed =>
          simp only [backends_settle, Collaborators.answer, collaborators]
          cases c.settler.settle <;> rfl

theorem process_result :
    (c.process logging sender value call).result =
      (c.house.dispatch (c.context logging sender value) c.collaborators call).result := by
  rw [← handle_result]
  unfold process
  dsimp only
  split <;> rfl

theorem process_eq_submit
    (unfaulted : ∀ fault, (c.process logging sender value call).result ≠ .error (.fault fault)) :
    c.process logging sender value call = c.submit logging sender value call := by
  have handled : c.handle backends (c.context logging sender value) call = _ :=
    handle_eq_execute fun fault => by
      rw [handle_result, ← process_result]
      exact unfaulted fault
  simp only [process, submit, handled]

end Chain

end CandleAuction
