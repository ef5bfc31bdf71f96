import CandleAuction.Proofs.Handlers
import CandleAuction.Proofs.Run

/-!
# What a rejected call leaves

Every check of a handler comes before its first write, and a party is asked only
when nothing but its own refusal can still reject the call. So a rejected call
leaves the house, the parties and the local chain as they were.
-/

namespace CandleAuction

/-- A rejected call has got no answer out of a collaborator. -/
theorem House.asked_of_rejected {h : House} {ctx : Context} {parties : Collaborators} {call : Call}
    {rejection : Rejection} {inquiry : Inquiry} {answer : Except CollaboratorError UInt64}
    (rejected : (h.dispatch ctx parties call).result = .error (.rejected rejection))
    (asked : (h.dispatch ctx parties call).asked = some (inquiry, answer)) :
    ∃ error, answer = .error error ∧ rejection = .external error := by
  obtain ⟨⟨next, planned⟩, answered⟩ := House.planned_of_asked asked
  rcases House.rejected_cases rejected with refused | ⟨_, _, error, asking, declined, reason⟩
  · cases refused.symm.trans planned
  · cases planned.symm.trans asking
    exact ⟨error, answered.symm.trans declined, reason⟩

namespace Chain

variable {c : Chain} {ctx : Context} {parties : Collaborators} {call : Call}

theorem execute_of_unanswered
    (unanswered : ∀ inquiry answer,
      (c.house.dispatch ctx parties call).asked ≠ some (inquiry, .ok answer)) :
    (c.execute ctx parties call).chain =
      { c with house := (c.house.dispatch ctx parties call).house } := by
  unfold execute
  cases asked : (c.house.dispatch ctx parties call).asked with
  | none => simp only [asked]
  | some question =>
      obtain ⟨inquiry, answer⟩ := question
      cases answer with
      | error error => cases inquiry <;> simp only [asked]
      | ok answer => exact absurd asked (unanswered inquiry answer)

variable {logging : Bool} {sender : Address} {value : UInt64}

theorem submit_result :
    (c.submit logging sender value call).result =
      (c.house.dispatch (c.context logging sender value) c.collaborators call).result := by
  unfold submit
  dsimp only
  split <;> rfl

theorem submit_of_error {halt : Halt}
    (failed : (c.house.dispatch (c.context logging sender value) c.collaborators call).result =
      .error halt) :
    c.submit logging sender value call =
      c.execute (c.context logging sender value) c.collaborators call := by
  unfold submit
  dsimp only
  split
  · rename_i accepted
    cases failed.symm.trans accepted
  · rfl

end Chain

theorem House.unanswered_of_rejected {h : House} {ctx : Context} {parties : Collaborators}
    {call : Call} {rejection : Rejection}
    (rejected : (h.dispatch ctx parties call).result = .error (.rejected rejection))
    (inquiry : Inquiry) (answer : UInt64) :
    (h.dispatch ctx parties call).asked ≠ some (inquiry, .ok answer) := by
  intro asked
  obtain ⟨error, declined, -⟩ := House.asked_of_rejected rejected asked
  cases declined

theorem Handler.ofCall_of_rejected {σ ω : Type} {b : Backends σ ω} {h : House} {settler : σ}
    {oracle : ω} {ctx : Context} {call : Call} {rejection : Rejection}
    (rejected : ((ofCall b ctx call).run (.start h settler oracle)).1 =
      .error (.rejected rejection)) :
    ((ofCall b ctx call).run (.start h settler oracle)).2.house = h ∧
      ∀ inquiry answer,
        (inquiry, .ok answer) ∉ ((ofCall b ctx call).run (.start h settler oracle)).2.asked := by
  have same : SameEnd ((ofCall b ctx call).run (.start h settler oracle)) _ := ofCall_sameEnd
  have dispatched := same.result_eq.symm.trans rejected
  rw [same.eq_of_unfaulted (by simp [rejected])]
  refine ⟨House.house_of_rejected dispatched, fun inquiry answer asked => ?_⟩
  exact House.unanswered_of_rejected dispatched inquiry answer (Option.mem_toList.mp asked)

namespace Chain

variable {c : Chain} {logging : Bool} {sender : Address} {value : UInt64} {call : Call}
  {rejection : Rejection}

theorem submit_of_rejected
    (rejected : (c.submit logging sender value call).result = .error (.rejected rejection)) :
    (c.submit logging sender value call).chain = c := by
  rw [submit_result] at rejected
  rw [submit_of_error rejected, execute_of_unanswered (House.unanswered_of_rejected rejected),
    House.house_of_rejected rejected]

theorem process_of_rejected
    (rejected : (c.process logging sender value call).result = .error (.rejected rejection)) :
    (c.process logging sender value call).chain = c := by
  have same : c.process logging sender value call = c.submit logging sender value call :=
    process_eq_submit (by simp [rejected])
  rw [same] at rejected ⊢
  exact submit_of_rejected rejected

end Chain

/-- A rejected call changes nothing, although a handler keeps whatever it has written when it
stops: the house is as before, and no party that was asked has handed anything out. Nor does
the dispatched plan change anything, and on the local chain the backends and the log are as
before, too. -/
theorem rejected_call_leaves_no_trace :
    (∀ (σ ω : Type) (b : Backends σ ω) (h : House) (settler : σ) (oracle : ω) (ctx : Context)
      (call : Call) (rejection : Rejection),
      let ended := (Handler.ofCall b ctx call).run (.start h settler oracle)
      ended.1 = .error (.rejected rejection) →
      ended.2.house = h ∧ ∀ inquiry answer, (inquiry, .ok answer) ∉ ended.2.asked) ∧
    (∀ (h : House) (ctx : Context) (parties : Collaborators) (call : Call) (rejection : Rejection),
      (h.dispatch ctx parties call).result = .error (.rejected rejection) →
      (h.dispatch ctx parties call).house = h ∧
        ∀ inquiry answer, (h.dispatch ctx parties call).asked ≠ some (inquiry, .ok answer)) ∧
    ∀ (c : Chain) (logging : Bool) (sender : Address) (value : UInt64) (call : Call)
      (rejection : Rejection),
      ((c.process logging sender value call).result = .error (.rejected rejection) →
        (c.process logging sender value call).chain = c) ∧
      ((c.submit logging sender value call).result = .error (.rejected rejection) →
        (c.submit logging sender value call).chain = c) := by
  refine ⟨?_, ?_, ?_⟩
  · intro σ ω b h settler oracle ctx call rejection ended rejected
    exact Handler.ofCall_of_rejected rejected
  · intro h ctx parties call rejection rejected
    exact ⟨House.house_of_rejected rejected, House.unanswered_of_rejected rejected⟩
  · intro c logging sender value call rejection
    exact ⟨Chain.process_of_rejected, Chain.submit_of_rejected⟩

/-- A chain at the refund of the sample round, with a settler that hands nothing out. -/
def Sample.stalled : Chain where
  house := refunded
  settler := { Settler.new 0 with failing := true }
  oracle := .new
  height := 0
  now := 270010
  gasPrice := 1
  log := #[(.fill 5, refunding.call)]

/-- The winner's claim fails with the settler and leaves the chain as it is. -/
theorem rejected_call_leaves_no_trace_stalled :
    let ended := (Handler.ofCall Chain.backends (Sample.stalled.context false (.fill 4) 0)
      Sample.claiming.call).run
        (.start Sample.stalled.house Sample.stalled.settler Sample.stalled.oracle)
    let settlementFailed : Ruling Outcome :=
      .error (.rejected (.external (.settlementFailed "mock settler disabled")))
    (ended.1 = settlementFailed ∧ ended.2.house = Sample.stalled.house) ∧
    ((Sample.stalled.house.dispatch (Sample.stalled.context false (.fill 4) 0)
        Sample.stalled.collaborators Sample.claiming.call).result = settlementFailed ∧
      (Sample.stalled.house.dispatch (Sample.stalled.context false (.fill 4) 0)
        Sample.stalled.collaborators Sample.claiming.call).house = Sample.stalled.house) ∧
    ((Sample.stalled.process false (.fill 4) 0 Sample.claiming.call).result = settlementFailed ∧
      (Sample.stalled.process false (.fill 4) 0 Sample.claiming.call).chain = Sample.stalled) ∧
    (Sample.stalled.submit false (.fill 4) 0 Sample.claiming.call).result = settlementFailed ∧
      (Sample.stalled.submit false (.fill 4) 0 Sample.claiming.call).chain = Sample.stalled := by
  have planned : Sample.stalled.house.plan (Sample.stalled.context false (.fill 4) 0)
      Sample.stalled.collaborators.settlementGas Sample.claiming.call = _ :=
    House.claimWinningBid_eq_ok.mpr ⟨_, _, _, _, _, _, rfl, Sample.claims, rfl⟩
  have rejected := congrArg Receipt.result
    (House.dispatch_of_declined (c := Sample.stalled.collaborators) planned rfl)
  have handled := Chain.run_ofCall_fst.trans rejected
  have processed := Chain.process_result.trans rejected
  have submitted := Chain.submit_result.trans rejected
  obtain ⟨handlers, plans, chains⟩ := rejected_call_leaves_no_trace
  refine ⟨⟨handled, ?_⟩, ⟨rejected, ?_⟩, ⟨processed, ?_⟩, submitted, ?_⟩
  · exact (handlers _ _ Chain.backends _ _ _ _ _ _ handled).1
  · exact (plans _ _ _ _ _ rejected).1
  · exact (chains _ _ _ _ _ _).1 processed
  · exact (chains _ _ _ _ _ _).2 submitted

end CandleAuction
