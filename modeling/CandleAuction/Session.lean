import CandleAuction.Dispatch

/-!
# Sessions

A call as it is worked on: the house it writes to, the outside parties it asks
and the events it logs. A handler that stops halfway leaves the session as it
is then, with everything it has written, asked and logged until it stopped.
-/

namespace CandleAuction

/-- Outside parties with a state of their own, which any question may change. -/
structure Backends (σ ω : Type) where
  settle : Address → Word → σ → Except CollaboratorError UInt64 × σ
  /-- Gas that one settlement takes. -/
  settlementGas : σ → UInt64
  request : Word → ω → Except CollaboratorError UInt64 × ω

structure Session (σ ω : Type) where
  house : House
  settler : σ
  oracle : ω
  /-- The questions so far with their answers. -/
  asked : List (Inquiry × Except CollaboratorError UInt64)
  events : List Event

/-- A session in which nothing has been done yet. -/
def Session.start {σ ω : Type} (house : House) (settler : σ) (oracle : ω) : Session σ ω :=
  ⟨house, settler, oracle, [], []⟩

/-- A computation in a session. What it has done stays done when it stops. -/
def Handler (σ ω α : Type) : Type := Session σ ω → Except Halt α × Session σ ω

namespace Handler

variable {σ ω α β : Type}

def run (handler : Handler σ ω α) (s : Session σ ω) : Except Halt α × Session σ ω := handler s

instance : Monad (Handler σ ω) where
  pure value := fun s => (.ok value, s)
  bind first next := fun s =>
    match first s with
    | (.ok value, s) => next value s
    | (.error halt, s) => (.error halt, s)

instance : MonadLift Ruling (Handler σ ω) := ⟨fun ruling s => (ruling, s)⟩

def house : Handler σ ω House := fun s => (.ok s.house, s)

def write (change : House → House) : Handler σ ω Unit := fun s =>
  (.ok (), { s with house := change s.house })

def note (ctx : Context) (events : List Event) : Handler σ ω Unit := fun s =>
  (.ok (), { s with events := s.events ++ if ctx.logging then events else [] })

/-- Log a change that has been written. -/
def log (ctx : Context) (change : Change) : Handler σ ω Unit := note ctx change.event?.toList

/-- The answer of a party; its failure rejects the call. -/
def answered (answer : Except CollaboratorError UInt64) : Ruling UInt64 :=
  match answer with
  | .ok value => .ok value
  | .error error => Ruling.reject (.external error)

def ask (b : Backends σ ω) (inquiry : Inquiry) : Handler σ ω UInt64 := fun s =>
  match inquiry with
  | .settle winner seed =>
      let (answer, settler) := b.settle winner seed s.settler
      (answered answer, { s with settler := settler, asked := s.asked ++ [(inquiry, answer)] })
  | .randomness seed =>
      let (answer, oracle) := b.request seed s.oracle
      (answered answer, { s with oracle := oracle, asked := s.asked ++ [(inquiry, answer)] })

def settlementGas (b : Backends σ ω) : Handler σ ω UInt64 := fun s =>
  (.ok (b.settlementGas s.settler), s)

section Run

variable {s : Session σ ω}

@[simp]
theorem run_pure {value : α} : (pure value : Handler σ ω α).run s = (.ok value, s) := rfl

@[simp]
theorem run_bind {first : Handler σ ω α} {next : α → Handler σ ω β} :
    (first >>= next).run s =
      match first.run s with
      | (.ok value, s) => (next value).run s
      | (.error halt, s) => (.error halt, s) := rfl

@[simp]
theorem run_ruling {ruling : Ruling α} : (liftM ruling : Handler σ ω α).run s = (ruling, s) := rfl

@[simp]
theorem run_exact {value : Except Fault α} :
    (liftM value : Handler σ ω α).run s = (Ruling.exactly value, s) := rfl

@[simp]
theorem run_house : (house : Handler σ ω House).run s = (.ok s.house, s) := rfl

@[simp]
theorem run_write {change : House → House} :
    (write change).run s = (.ok (), { s with house := change s.house }) := rfl

@[simp]
theorem run_log {ctx : Context} {change : Change} :
    (log ctx change).run s = (.ok (), { s with
      events := s.events ++ if ctx.logging then change.event?.toList else [] }) := rfl

@[simp]
theorem run_settlementGas {b : Backends σ ω} :
    (settlementGas b).run s = (.ok (b.settlementGas s.settler), s) := rfl

end Run

end Handler

end CandleAuction
