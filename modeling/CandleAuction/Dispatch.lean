import CandleAuction.Rules.Closing
import CandleAuction.Rules.Proposing
import CandleAuction.Rules.Settling

/-!
# Dispatch

A call is planned against the house as it is, at most one collaborator is
asked, and the changes of the plan are carried out. A call that is not accepted
leaves the house as it was.
-/

namespace CandleAuction

open Ruling

/-- The outside parties: one settles items, the other provides randomness. -/
structure Collaborators where
  settle : Address → Word → Except CollaboratorError UInt64
  request : Word → Except CollaboratorError UInt64
  /-- Gas that one settlement takes. -/
  settlementGas : UInt64

def Collaborators.answer (c : Collaborators) : Inquiry → Except CollaboratorError UInt64
  | .settle winner seed => c.settle winner seed
  | .randomness seed => c.request seed

/-- What a call did: how it ended, the house after it, the collaborator that
was asked with its answer, and the events in order. -/
structure Receipt where
  result : Ruling Outcome
  house : House
  asked : Option (Inquiry × Except CollaboratorError UInt64)
  events : List Event

namespace House

def updateSettings (h : House) (ctx : Context) (settings : Settings) : Ruling Plan := do
  ensure (ctx.sender = h.admin) .notAuthorized
  match settings.problem? with
  | some problem => reject (.invalidSettings problem)
  | none => return .change (.configured settings) .settingsUpdated

/-- The rule of each call. -/
def plan (h : House) (ctx : Context) (settlementGas : UInt64) : Call → Ruling Plan
  | .placeBid id amount => h.placeBid ctx id amount
  | .increaseBid id index added => h.increaseBid ctx id index added
  | .snuff id => h.snuff ctx settlementGas id
  | .fulfillRandomness request word => h.fulfillRandomness ctx request word
  | .proposeWinners id encoding commitment total =>
      h.proposeWinners ctx id encoding commitment total
  | .challenge id encoding claimed disputed => h.challenge ctx id encoding claimed disputed
  | .claimWinningBid id encoding position => h.claimWinningBid ctx id encoding position
  | .withdrawBid id encoding index => h.withdrawBid ctx id encoding index
  | .claimSnuffBounty id => h.claimSnuffBounty ctx id
  | .claimProposalBounty id => h.claimProposalBounty ctx id
  | .transferProceeds id => h.transferProceeds ctx id
  | .updateSettings settings => h.updateSettings ctx settings

/-- Carry out an effect. -/
def perform (h : House) (ctx : Context) (effect : Effect)
    (asked : Option (Inquiry × Except CollaboratorError UInt64)) : Receipt where
  result := exactly effect.result
  house := effect.changes.foldl Change.apply h
  asked := asked
  events := if ctx.logging then effect.changes.filterMap Change.event? else []

/-- How a refused call is logged: only a challenge without merit is. -/
def refusal (ctx : Context) (call : Call) (halt : Halt) : List Event :=
  match call, halt with
  | .challenge id _ _ disputed, .rejected .challengeFailed =>
      if ctx.logging then [⟨.debug, "challenge found no fraud", [
        ("auction_id", .number id.toNat), ("disputed_index", .number disputed.toNat)]⟩]
      else []
  | _, _ => []

def dispatch (h : House) (ctx : Context) (c : Collaborators) (call : Call) : Receipt :=
  match h.plan ctx c.settlementGas call with
  | .error halt => ⟨.error halt, h, none, refusal ctx call halt⟩
  | .ok (.act effect) => h.perform ctx effect none
  | .ok (.ask inquiry next) =>
      match c.answer inquiry with
      | .error error => ⟨reject (.external error), h, some (inquiry, .error error), []⟩
      | .ok answer => h.perform ctx (next answer) (some (inquiry, .ok answer))

end House

end CandleAuction
