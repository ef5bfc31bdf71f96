import CandleAuction.Chain.Backends
import CandleAuction.Genesis
import CandleAuction.Handlers

/-!
# The local chain

A house with its backends, a clock and a log of the accepted calls. The log is
where proposed winner lists are read from, as the house keeps only their
commitments.
-/

namespace CandleAuction

structure Chain where
  house : House
  settler : Settler
  oracle : RandomnessOracle
  height : UInt64
  now : UInt64
  gasPrice : UInt64
  /-- Accepted calls with their senders, oldest first. -/
  log : Array (Address × Call)

/-- What a step of the chain leads to. -/
structure Step (α : Type) where
  chain : Chain
  result : Ruling α
  events : List Event

namespace Chain

/-- A chain at the start of its first round. -/
def found (g : Genesis) (settlementGas : UInt64) : Except GenesisError Chain := do
  let house ← g.found settlementGas
  return {
    house := house
    settler := .new settlementGas
    oracle := .new
    height := 0
    now := g.startTime
    gasPrice := g.gasPrice
    log := #[] }

/-- Let a number of blocks pass, twelve seconds each. -/
def advance (c : Chain) (blocks : Nat) : Except Fault Chain :=
  if c.height.toNat + blocks < UInt64.size ∧ c.now.toNat + 12 * blocks < UInt64.size then
    .ok { c with
      height := c.height + UInt64.ofNat blocks
      now := c.now + UInt64.ofNat (12 * blocks) }
  else .error .addition

def collaborators (c : Chain) : Collaborators where
  settle _ _ := c.settler.settle
  request _ := c.oracle.request
  settlementGas := c.settler.gas

def context (c : Chain) (logging : Bool) (sender : Address) (value : UInt64) : Context :=
  ⟨sender, c.now, value, c.gasPrice, logging⟩

/-- Make a call with given collaborators. Answers they give are recorded in the backends. -/
def execute (c : Chain) (ctx : Context) (parties : Collaborators) (call : Call) :
    Step Outcome :=
  let ⟨house, settler, oracle, height, now, gasPrice, log⟩ := c
  let receipt := house.dispatch ctx parties call
  let settler := match receipt.asked with
    | some (.settle winner seed, .ok _) => settler.record winner seed
    | _ => settler
  let oracle := match receipt.asked with
    | some (.randomness seed, .ok _) => oracle.record seed
    | _ => oracle
  ⟨⟨receipt.house, settler, oracle, height, now, gasPrice, log⟩, receipt.result, receipt.events⟩

def accept (c : Chain) (sender : Address) (call : Call) : Chain :=
  { c with log := c.log.push (sender, call) }

/-- Make a call at the current time; an accepted one enters the log. -/
def submit (c : Chain) (logging : Bool) (sender : Address) (value : UInt64) (call : Call) :
    Step Outcome :=
  let ctx := c.context logging sender value
  let parties := c.collaborators
  let step := c.execute ctx parties call
  match step.result with
  | .ok _ => { step with chain := step.chain.accept sender call }
  | .error _ => step

/-- The local backends, each with its own state. -/
def backends : Backends Settler RandomnessOracle where
  settle winner seed settler :=
    match settler.settle with
    | .ok item => (.ok item, settler.record winner seed)
    | .error error => (.error error, settler)
  settlementGas := Settler.gas
  request seed oracle :=
    match oracle.request with
    | .ok request => (.ok request, oracle.record seed)
    | .error error => (.error error, oracle)

/-- Make a call step by step. The chain is left as the handler leaves it. -/
def handle (c : Chain) (b : Backends Settler RandomnessOracle) (ctx : Context) (call : Call) :
    Step Outcome :=
  let ended := (Handler.ofCall b ctx call).run (.start c.house c.settler c.oracle)
  let s := ended.2
  ⟨{ c with house := s.house, settler := s.settler, oracle := s.oracle }, ended.1, s.events⟩

/-- Make a call step by step at the current time; an accepted one enters the log. -/
def process (c : Chain) (logging : Bool) (sender : Address) (value : UInt64) (call : Call) :
    Step Outcome :=
  let step := c.handle backends (c.context logging sender value) call
  match step.result with
  | .ok _ => { step with chain := step.chain.accept sender call }
  | .error _ => step

/-- Requests whose round still waits for its entropy, by ascending number. -/
def pendingRequests (c : Chain) : List UInt64 :=
  (c.house.requests.toList.filter fun (_, id) =>
    (c.house.auction? id).any fun r => r.phase = .waitingClose && r.entropy.isNone).map Prod.fst

def deliverAll (logging : Bool) : List UInt64 → Chain → List UInt32 → List Event →
    Step (List UInt32)
  | [], c, offsets, events => ⟨c, .ok offsets.reverse, events⟩
  | request :: rest, c, offsets, events =>
      match c.oracle.word? request with
      | none => deliverAll logging rest c offsets events
      | some word =>
          let step := c.submit logging c.house.oracle 0 (.fulfillRandomness request word)
          match step.result with
          | .error halt => ⟨step.chain, .error halt, events ++ step.events⟩
          | .ok (.closeResolved offset) =>
              deliverAll logging rest step.chain (offset :: offsets) (events ++ step.events)
          | .ok _ => deliverAll logging rest step.chain offsets (events ++ step.events)

/-- Answer every pending request that the oracle has a word for. -/
def deliver (c : Chain) (logging : Bool) : Step (List UInt32) :=
  deliverAll logging c.pendingRequests c [] []

/-- The winner list carried by the latest accepted proposal for a round. -/
def posted? (c : Chain) (id : UInt64) : Option (List UInt8) :=
  c.log.toList.reverse.findSome? fun (_, call) =>
    match call with
    | .proposeWinners auction encoding _ _ => if auction = id then some encoding else none
    | _ => none

end Chain

end CandleAuction
