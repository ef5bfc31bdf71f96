import CandleAuction.Genesis
import CandleAuction.Proofs.Dispatch

/-!
# Runs

A run is a sequence of calls, each with its own sender, time and outside
parties. Nothing is assumed of these. A fault stops the program, so every call
of a run has been accepted or rejected.
-/

namespace CandleAuction

/-- A call with its context and the outside parties that it may ask. -/
structure Request where
  context : Context
  parties : Collaborators
  call : Call

/-- A request with the house that it met. -/
structure Served where
  house : House
  request : Request

namespace Served

def receipt (s : Served) : Receipt :=
  s.house.dispatch s.request.context s.request.parties s.request.call

def now (s : Served) : UInt64 := s.request.context.now

/-- How an accepted call ended. -/
def outcome? (s : Served) : Option Outcome :=
  match s.receipt.result with
  | .ok outcome => some outcome
  | .error _ => none

/-- The call did not stop the program. -/
def Answered (s : Served) : Prop := ∀ fault, s.receipt.result ≠ .error (.fault fault)

theorem outcome?_eq_some {s : Served} {outcome : Outcome} :
    s.outcome? = some outcome ↔ s.receipt.result = .ok outcome := by
  unfold outcome?
  cases s.receipt.result <;> simp

theorem grants_of_isSome {s : Served} (accepted : s.outcome?.isSome = true) :
    ∃ changes outcome, s.outcome? = some outcome ∧
      Grants s.house s.request.context s.request.parties s.request.call changes outcome ∧
      s.receipt.house = changes.foldl Change.apply s.house := by
  obtain ⟨outcome, accepted⟩ := Option.isSome_iff_exists.mp accepted
  obtain ⟨changes, grant⟩ := House.grants_of_dispatch (outcome?_eq_some.mp accepted)
  exact ⟨changes, outcome, accepted, grant, (House.dispatch_of_grants grant).2⟩

theorem accepted_of_grants {h : House} {q : Request} {changes : List Change} {outcome : Outcome}
    (grant : Grants h q.context q.parties q.call changes outcome) :
    (outcome? ⟨h, q⟩).isSome = true := by
  have accepted := outcome?_eq_some (s := ⟨h, q⟩).mpr (House.dispatch_of_grants grant).1
  rw [accepted]
  rfl

/-- An answered call has been refused without effect or granted. -/
theorem Answered.cases {s : Served} (answered : s.Answered) :
    (s.outcome? = none ∧ s.receipt.house = s.house) ∨
      ∃ changes outcome, s.outcome? = some outcome ∧
        Grants s.house s.request.context s.request.parties s.request.call changes outcome ∧
        s.receipt.house = changes.foldl Change.apply s.house := by
  cases result : s.receipt.result with
  | ok outcome =>
      exact .inr (grants_of_isSome (by rw [outcome?_eq_some.mpr result]; rfl))
  | error halt =>
      cases halt with
      | fault fault => exact absurd result (answered fault)
      | rejected rejection =>
          exact .inl ⟨by simp [outcome?, result], House.house_of_rejected result⟩

theorem answered_of_isSome {s : Served} (accepted : s.outcome?.isSome = true) : s.Answered := by
  intro fault stopped
  simp [outcome?, stopped] at accepted

end Served

/-- The calls served so far, latest first, and the house that they lead to. -/
inductive Run (start : House) : List Served → House → Prop
  | start : Run start [] start
  | step {past h} (q : Request) : Run start past h → Served.Answered ⟨h, q⟩ →
      Run start (⟨h, q⟩ :: past) (Served.receipt ⟨h, q⟩).house

/-- No call was made at an earlier time than the one before it. -/
def Chronological (past : List Served) : Prop :=
  past.Pairwise fun later earlier => earlier.now ≤ later.now

namespace Chronological

variable {newer older : List Served} {s : Served}

theorem since (ordered : Chronological (newer ++ s :: older)) :
    ∀ t ∈ newer ++ [s], s.now ≤ t.now := by
  have later := (List.pairwise_append.mp ordered).2.2
  rw [List.forall_mem_append, List.forall_mem_singleton]
  exact ⟨fun t member => later t member s List.mem_cons_self, UInt64.le_refl _⟩

theorem before (ordered : Chronological (newer ++ s :: older)) :
    Chronological older ∧ ∀ t ∈ older, t.now ≤ s.now := by
  have ordered := List.pairwise_cons.mp (List.pairwise_append.mp ordered).2.1
  exact ⟨ordered.2, ordered.1⟩

end Chronological

namespace Run

variable {start h : House} {past : List Served}

/-- A law of runs holds at the start and is kept by rejections and grants. -/
theorem induct {motive : List Served → House → Prop} (run : Run start past h)
    (initial : motive [] start)
    (rejected : ∀ {past h q}, Run start past h → Served.outcome? ⟨h, q⟩ = none →
      motive past h → motive (⟨h, q⟩ :: past) h)
    (granted : ∀ {past h q changes outcome}, Run start past h →
      Served.outcome? ⟨h, q⟩ = some outcome →
      Grants h q.context q.parties q.call changes outcome →
      motive past h → motive (⟨h, q⟩ :: past) (changes.foldl Change.apply h)) :
    motive past h := by
  induction run with
  | start => exact initial
  | @step past h q run answered inductionHypothesis =>
      cases result : (Served.receipt ⟨h, q⟩).result with
      | ok outcome =>
          obtain ⟨changes, grant⟩ := House.grants_of_dispatch result
          have accepted := Served.outcome?_eq_some.mpr result
          have after := (House.dispatch_of_grants grant).2
          exact after ▸ granted run accepted grant inductionHypothesis
      | error halt =>
          cases halt with
          | fault fault => exact absurd result (answered fault)
          | rejected rejection =>
              have refused : Served.outcome? ⟨h, q⟩ = none := by simp [Served.outcome?, result]
              have same := House.house_of_rejected result
              exact same.symm ▸ rejected run refused inductionHypothesis

/-- An invariant that every grant keeps holds after every run. -/
theorem invariant {motive : House → Prop} (run : Run start past h) (initial : motive start)
    (granted : ∀ {h : House} {q : Request} {changes : List Change} {outcome : Outcome},
      Grants h q.context q.parties q.call changes outcome → motive h →
      motive (changes.foldl Change.apply h)) : motive h :=
  run.induct initial (fun _ _ holds => holds) fun _ _ grant holds => granted grant holds

theorem grant {q : Request} {changes : List Change} {outcome : Outcome} (run : Run start past h)
    (grant : Grants h q.context q.parties q.call changes outcome) :
    Run start (⟨h, q⟩ :: past) (changes.foldl Change.apply h) := by
  have step := Run.step q run (Served.answered_of_isSome (Served.accepted_of_grants grant))
  rwa [Served.receipt, (House.dispatch_of_grants grant).2] at step

theorem append {middle : House} {later : List Served} (first : Run start past middle)
    (second : Run middle later h) : Run start (later ++ past) h := by
  induction second with
  | start => exact first
  | step q _ answered inductionHypothesis => exact .step q inductionHypothesis answered

theorem answered (run : Run start past h) : ∀ s ∈ past, s.Answered := by
  induction run with
  | start => exact List.forall_mem_nil _
  | step q _ answered inductionHypothesis =>
      exact List.forall_mem_cons.mpr ⟨answered, inductionHypothesis⟩

theorem before {newer older : List Served} {s : Served}
    (run : Run start (newer ++ s :: older) h) : Run start older s.house := by
  induction newer generalizing h with
  | nil =>
      cases run with
      | step _ run _ => exact run
  | cons later newer inductionHypothesis =>
      cases run with
      | step _ run _ => exact inductionHypothesis run

theorem since {newer older : List Served} {s : Served}
    (run : Run start (newer ++ s :: older) h) : Run s.house (newer ++ [s]) h := by
  induction newer generalizing h with
  | nil =>
      cases run with
      | step q _ answered => exact .step q .start answered
  | cons later newer inductionHypothesis =>
      cases run with
      | step q run answered => exact .step q (inductionHypothesis run) answered

theorem after {newer older : List Served} {s : Served}
    (run : Run start (newer ++ s :: older) h) : Run s.receipt.house newer h := by
  induction newer generalizing h with
  | nil =>
      cases run with
      | step q _ _ => exact .start
  | cons later newer inductionHypothesis =>
      cases run with
      | step q run answered => exact .step q (inductionHypothesis run) answered

end Run

namespace House

/-- The house after some requests. -/
def serve (h : House) (requests : List Request) : House :=
  requests.foldl (fun h q => (Served.receipt ⟨h, q⟩).house) h

/-- The requests with the houses that they meet, latest first. -/
def served (h : House) : List Request → List Served
  | [] => []
  | q :: rest => served (Served.receipt ⟨h, q⟩).house rest ++ [⟨h, q⟩]

theorem run_serve {h : House} {requests : List Request}
    (accepted : ∀ s ∈ h.served requests, s.outcome?.isSome = true) :
    Run h (h.served requests) (h.serve requests) := by
  induction requests generalizing h with
  | nil => exact .start
  | cons q rest inductionHypothesis =>
      rw [served, List.forall_mem_append] at accepted
      have first := accepted.2 _ (List.mem_singleton_self _)
      exact (Run.step q .start (Served.answered_of_isSome first)).append
        (inductionHypothesis accepted.1)

end House

/-! A round with two bids for one item, from its opening to the refund of the loser. -/

namespace Sample

def genesis : Genesis := .withSettings { Settings.standard with maxWinners := 1 }

def opened : House := (genesis.firstRound 0).apply genesis.house

def word : Word := ⟨.replicate 32 4⟩

def parties : Collaborators where
  settle _ _ := .ok 9
  request _ := .ok 7
  settlementGas := 0

def request (sender : UInt8) (now value : UInt64) (call : Call) : Request :=
  ⟨⟨.fill sender, now, value, 1, false⟩, parties, call⟩

def bidding : List Request :=
  [request 4 10 5000 (.placeBid 1 5000), request 5 20 3000 (.placeBid 1 3000),
    request 6 259200 0 (.snuff 1), request 3 259210 0 (.fulfillRandomness 7 word)]

def drawn : House := opened.serve bidding

/-- The first round once it is drawn. -/
def round : Auction :=
  { Auction.opening 1 0 { Settings.standard with maxWinners := 1 } 1000 ⟨1, 0⟩ with
    phase := .waitingClose
    entropy := some word
    closeOffset := some 251680
    request := some 7
    snuff := some ⟨.fill 6, 259200⟩
    proceeds := 8000 }

def proposing : Request :=
  request 8 259300 1000000 (.proposeWinners 1 [0, 0] (commitment [0, 0] word) 5000)

def proposal : Proposal := round.proposalFor proposing.context (commitment [0, 0] word) 1 5000

def proposed : House := [.proposed 1 proposal].foldl Change.apply drawn

/-- The first round with its proposal. -/
def proposedRound : Auction :=
  { round with
    phase := .winnersProposed
    proposal := some proposal }

def refunding : Request := request 5 270000 0 (.withdrawBid 1 [0, 0] 1)

def payout : Payout := ⟨.fill 5, 3000, 0, 5000, 3000⟩

def refunded : House := [.withdrawn 1 1 payout].foldl Change.apply proposed

/-- The first round without the refund. -/
def refundedRound : Auction := { proposedRound with proceeds := 5000 }

theorem founded : genesis.found 0 = .ok opened := rfl

theorem grant_proposing :
    Grants drawn proposing.context proposing.parties proposing.call [.proposed 1 proposal]
      .proposed :=
  .proposeWinners (show _ = some round from rfl)
    (show round.TakesProposal _ _ _ word [0] from ⟨rfl, rfl, by decide, rfl, rfl⟩)

theorem grant_refunding :
    Grants proposed refunding.context refunding.parties refunding.call [.withdrawn 1 1 payout]
      (.paid 3000) :=
  have withdraws : proposedRound.Withdraws (proposed.ledger 1) refunding.context [0, 0] 1 proposal
      word [0] ⟨.fill 5, 20, 3000, false⟩ :=
    ⟨⟨⟨rfl, rfl⟩, rfl, rfl, rfl⟩, rfl, rfl, by decide, rfl⟩
  .withdrawBid rfl withdraws ⟨rfl, rfl, rfl, rfl, rfl⟩

/-- The winner takes its item after the refund. -/
def claiming : Request := request 4 270010 0 (.claimWinningBid 1 [0, 0] 0)

theorem claims :
    refundedRound.Claims (refunded.ledger 1) claiming.context.now [0, 0] 0 proposal word [0] 0
      ⟨.fill 4, 10, 5000, false⟩ :=
  ⟨⟨⟨rfl, rfl⟩, rfl, rfl, rfl⟩, rfl, rfl, rfl⟩

def past : List Served := ⟨drawn, proposing⟩ :: opened.served bidding

theorem run_drawn : Run opened (opened.served bidding) drawn :=
  House.run_serve (List.all_eq_true.mp rfl)

theorem run_proposed : Run opened past proposed := run_drawn.grant grant_proposing

theorem run_refunded : Run proposed [⟨proposed, refunding⟩] refunded :=
  Run.start.grant grant_refunding

theorem chronological : Chronological ([⟨proposed, refunding⟩] ++ past) := by
  unfold Chronological
  decide

end Sample

end CandleAuction
