import CandleAuction.Chain.Basic
import CandleAuction.Query
import CandleAuction.Submission

/-!
# The watchtower

A permissionless service that proposes winners where a proposal is awaited and
challenges wrong proposals of others. Proposals it has found correct are
remembered by their commitment and not looked at again.
-/

namespace CandleAuction

structure WatchConfig where
  /-- Where proposals and challenges are sent from. -/
  address : Address
  /-- Milliseconds between polls. -/
  pollInterval : UInt64
  propose : Bool
  challenge : Bool
  deriving DecidableEq, Repr

def WatchConfig.standard : WatchConfig := ⟨.fill 0xEE, 1000, true, true⟩

inductive Action
  | proposed (auction : UInt64) (commitment : Word) (winners : Nat)
  | challenged (auction : UInt64) (found : CounterExample)
  deriving DecidableEq, Repr

/-- What a tower has done since it was made, counted one by one. -/
structure WatchStats where
  polls : UInt64
  proposed : UInt64
  challenged : UInt64
  deriving DecidableEq, Repr

def WatchStats.record (s : WatchStats) : Action → WatchStats
  | .proposed .. => { s with proposed := s.proposed + 1 }
  | .challenged .. => { s with challenged := s.challenged + 1 }

structure Watchtower where
  config : WatchConfig
  stats : WatchStats
  /-- Commitments of proposals that were found correct. -/
  cleared : List Word
  deriving DecidableEq, Repr

inductive WatchError
  | submission (error : SubmissionError)
  | fault (fault : Fault)
  | zeroInterval
  deriving DecidableEq, Repr

def WatchError.message : WatchError → String
  | .submission error => error.message
  | .fault cause => cause.message
  | .zeroInterval => "`period` must be non-zero."

/-- A challenge that is about to be made. -/
structure Dispute where
  auction : UInt64
  encoding : List UInt8
  claimed : Word
  found : CounterExample

/-- A poll under way. -/
structure Poll where
  tower : Watchtower
  chain : Chain
  actions : List Action
  events : List Event

abbrev Poll.Outcome := Poll × Except WatchError Unit

namespace Poll

/-- Work through a list until a step fails. -/
def forEach {α : Type} (step : Poll → α → Poll.Outcome) : Poll → List α → Poll.Outcome
  | p, [] => (p, .ok ())
  | p, item :: rest =>
      match step p item with
      | (p, .ok ()) => forEach step p rest
      | (p, .error error) => (p, .error error)

def note (p : Poll) (logging : Bool) (event : Event) : Poll :=
  if logging then { p with events := p.events ++ [event] } else p

/-- Submit a call from the tower's address and say what follows from its acceptance or rejection. -/
def send (p : Poll) (logging : Bool) (value : UInt64) (call : Call)
    (accepted : Poll → Poll) (rejected : Poll → Rejection → Poll) : Poll.Outcome :=
  let ⟨tower, chain, actions, events⟩ := p
  let step := chain.submit logging tower.config.address value call
  let p : Poll := ⟨tower, step.chain, actions, events ++ step.events⟩
  match step.result with
  | .ok _ => (accepted p, .ok ())
  | .error (.rejected rejection) => (rejected p rejection, .ok ())
  | .error (.fault fault) => (p, .error (.fault fault))

/-- Propose the winners of one snapshot. -/
def proposeFor (logging : Bool) (p : Poll) (snapshot : Snapshot) : Poll.Outcome :=
  match snapshot.submission with
  | .error error => (p, .error (.submission error))
  | .ok s =>
      let deposit := (p.chain.house.requiredDeposit? s.auction).getD 0
      p.send logging deposit (.proposeWinners s.auction s.encoding s.commitment s.total)
        (fun p =>
          let p := p.note logging ⟨.info, "proposal submitted", [
            ("auction_id", .number s.auction.toNat), ("commitment", .text s.commitment.hex),
            ("winners", .number s.winners.length)]⟩
          { p with
            tower := { p.tower with cleared := s.commitment :: p.tower.cleared }
            actions := p.actions ++ [.proposed s.auction s.commitment s.winners.length] })
        (fun p rejection => p.note logging ⟨.debug, "proposal not accepted", [
          ("auction_id", .number s.auction.toNat), ("err", .text rejection.message)]⟩)

def propose (logging : Bool) (p : Poll) : Poll.Outcome :=
  match p.chain.house.awaitingProposal.mapM p.chain.house.snapshot with
  | .error error => (p, .error (.submission error))
  | .ok snapshots => forEach (proposeFor logging) p snapshots

/-- Look at the live proposal of one round: the dispute to raise, if it is wrong. -/
def inspect (logging : Bool) (p : Poll) (id : UInt64) : Poll × Option Dispute :=
  let examined : Option (Auction × Proposal × List UInt8 × Word × UInt32) := do
    let r ← p.chain.house.auction? id
    let proposal ← r.proposal
    if proposal.proposer = p.tower.config.address ∨ proposal.commitment ∈ p.tower.cleared then
      none
    else
      return (r, proposal, ← p.chain.posted? id, ← r.entropy, ← r.closeOffset)
  match examined with
  | none => (p, none)
  | some (r, proposal, encoding, entropy, close) =>
      let claimed := commitment encoding entropy
      if claimed ≠ proposal.commitment then
        (p.note logging ⟨.debug, "logged encoding does not match live commitment", [
          ("auction_id", .number id.toNat)]⟩, none)
      else match r.settings.indexWidth.unpack encoding with
        | .error _ => (p, none)
        | .ok winners =>
            let claim : Claim := ⟨winners, proposal.total⟩
            match claim.counterExample? (p.chain.house.ledger id) close r.settings.maxWinners with
            | none =>
                ({ p with tower :=
                    { p.tower with cleared := proposal.commitment :: p.tower.cleared } }, none)
            | some found => (p, some ⟨id, encoding, claimed, found⟩)

def inspectAll (logging : Bool) (p : Poll) : List UInt64 → Poll × List Dispute
  | [] => (p, [])
  | id :: rest =>
      let (p, dispute) := p.inspect logging id
      let (p, disputes) := p.inspectAll logging rest
      (p, dispute.toList ++ disputes)

def raise (logging : Bool) (p : Poll) (d : Dispute) : Poll.Outcome :=
  p.send logging 0 (.challenge d.auction d.encoding d.claimed d.found.disputed)
    (fun p =>
      let p := p.note logging ⟨.warn, "fraudulent proposal challenged", [
        ("auction_id", .number d.auction.toNat), ("reason", .text d.found.reason.text),
        ("disputed_index", .number d.found.disputed.toNat)]⟩
      { p with actions := p.actions ++ [.challenged d.auction d.found] })
    (fun p rejection => p.note logging ⟨.warn, "challenge rejected", [
      ("auction_id", .number d.auction.toNat), ("err", .text rejection.message)]⟩)

def challenge (logging : Bool) (p : Poll) : Poll.Outcome :=
  match p.chain.house.challengeable p.chain.now with
  | .error fault => (p, .error (.fault fault))
  | .ok ids =>
      let (p, disputes) := p.inspectAll logging ids
      forEach (raise logging) p disputes

def finish (p : Poll) : Poll :=
  let stats := p.actions.foldl WatchStats.record p.tower.stats
  { p with tower := { p.tower with stats := { stats with polls := stats.polls + 1 } } }

/-- A phase of a poll that the configuration may switch off. -/
def phase (enabled : Bool) (run : Poll → Poll.Outcome) (p : Poll) : Poll.Outcome :=
  if enabled then run p else (p, .ok ())

end Poll

namespace Watchtower

def new (config : WatchConfig) : Watchtower := ⟨config, ⟨0, 0, 0⟩, []⟩

/-- Propose where a proposal is awaited, then challenge what is wrong. -/
def poll (t : Watchtower) (logging : Bool) (c : Chain) : Poll.Outcome :=
  match Poll.phase t.config.propose (Poll.propose logging) ⟨t, c, [], []⟩ with
  | (p, .error error) => (p, .error error)
  | (p, .ok ()) =>
      match Poll.phase t.config.challenge (Poll.challenge logging) p with
      | (p, .error error) => (p, .error error)
      | (p, .ok ()) => (p.finish, .ok ())

/-- Run for one tick: a failed poll is logged and does not stop the tower. -/
def runOnce (t : Watchtower) (logging : Bool) (c : Chain) : Poll.Outcome :=
  if t.config.pollInterval = 0 then (⟨t, c, [], []⟩, .error .zeroInterval)
  else
    let started : Event := ⟨.info, "watchtower started", [
      ("address", .text t.config.address.hex),
      ("poll_interval_ms", .number t.config.pollInterval.toNat)]⟩
    let lead (p : Poll) : Poll :=
      if logging then { p with events := started :: p.events } else p
    let stop (p : Poll) : Poll :=
      p.note logging ⟨.info, "watchtower stopped", [
        ("polls", .number p.tower.stats.polls.toNat),
        ("proposed", .number p.tower.stats.proposed.toNat),
        ("challenged", .number p.tower.stats.challenged.toNat)]⟩
    match t.poll logging c with
    | (p, .ok ()) => (stop (lead p), .ok ())
    | (p, .error (.submission error)) =>
        (stop ((lead p).note logging ⟨.warn, "watchtower poll failed", [
          ("err", .text error.message)]⟩), .ok ())
    | (p, .error error) => (lead p, .error error)

end Watchtower

end CandleAuction
