import CandleAuction.Proofs.Rules.Bidding
import CandleAuction.Rules.Proposing

/-!
# When a proposal is taken, and when it falls

A proposal is bonded and opens its own commitment. It falls to a stranger who
resubmits the committed list within the challenge window and shows a violation.
-/

namespace CandleAuction

open Ruling

namespace Auction

/-- A round takes a proposal. -/
structure TakesProposal (r : Auction) (ctx : Context) (encoding : List UInt8) (posted : Word)
    (entropy : Word) (winners : List UInt32) : Prop where
  waiting : r.phase = .waitingClose
  drawn : r.entropy = some entropy
  bonded : r.settings.deposit ≤ ctx.value
  listed : r.settings.indexWidth.unpack encoding = .ok winners
  opened : commitment encoding entropy = posted

/-- The proposal that a round takes. -/
def proposalFor (r : Auction) (ctx : Context) (posted : Word) (count : Nat) (total : UInt64) :
    Proposal :=
  let bounties := Bounties.ofTotal r.settings r.minBid r.fee.gasPrice total
  { commitment := posted
    proposer := ctx.sender
    deposit := ctx.value
    snuffBounty := bounties.snuff
    proposalBounty := bounties.proposal
    timestamp := ctx.now
    winnerCount := UInt32.ofNat count
    total := total
    snuffBountyClaimed := false
    proposalBountyClaimed := false }

/-- The live proposal of a round falls to a challenge. -/
structure Overturns (r : Auction) (bids : Ledger) (ctx : Context) (encoding : List UInt8)
    (claimed : Word) (disputed : UInt32) (p : Proposal) (entropy : Word) (close : UInt32)
    (winners : List UInt32) (reason : FraudReason) : Prop where
  inTime : r.phaseAt ctx.now = .ok .winnersProposed
  live : r.proposal = some p
  drawn : r.entropy = some entropy
  resolved : r.closeOffset = some close
  named : commitment encoding entropy = claimed
  opened : commitment encoding entropy = p.commitment
  stranger : ctx.sender ≠ p.proposer
  listed : r.settings.indexWidth.unpack encoding = .ok winners
  fraud : (⟨winners, p.total⟩ : Claim).fraud? bids close r.settings.maxWinners disputed =
    some reason

theorem requireChallengeable_eq_ok {r : Auction} {now : UInt64} {u : Unit} :
    r.requireChallengeable now = .ok u ↔ r.phaseAt now = .ok .winnersProposed := by
  simp only [requireChallengeable, bind_eq_ok, lift_eq_ok]
  constructor
  · intro accepted
    rcases accepted with ⟨phase, effective, permitted⟩
    cases phase with
    | winnersProposed => exact effective
    | _ => simp [reject] at permitted
  · exact fun effective => ⟨_, effective, rfl⟩

theorem disputable?_eq_some {r : Auction} {p : Proposal} {entropy : Word} {close : UInt32} :
    r.disputable? = some (p, entropy, close) ↔
      r.proposal = some p ∧ r.entropy = some entropy ∧ r.closeOffset = some close := by
  simp only [disputable?, Option.bind_eq_bind, Option.bind_eq_some_iff, Option.pure_def,
    Option.some.injEq, Prod.mk.injEq]
  constructor
  · intro conditions
    rcases conditions with ⟨_, live, _, drawn, _, resolved, rfl, rfl, rfl⟩
    exact ⟨live, drawn, resolved⟩
  · intro accepted
    rcases accepted with ⟨live, drawn, resolved⟩
    exact ⟨p, live, entropy, drawn, close, resolved, rfl, rfl, rfl⟩

end Auction

namespace House

variable {h : House} {ctx : Context} {id : UInt64} {plan : Plan} {encoding : List UInt8}

theorem proposeWinners_eq_ok {posted : Word} {total : UInt64} :
    h.proposeWinners ctx id encoding posted total = .ok plan ↔
      ∃ r entropy winners, h.auction? id = some r ∧
        r.TakesProposal ctx encoding posted entropy winners ∧
        plan = .change (.proposed id (r.proposalFor ctx posted winners.length total))
          .proposed := by
  simp only [proposeWinners, bind_eq_ok, requireAuction_eq_ok, Auction.requirePhase_eq_ok,
    Auction.phaseAt_eq_waitingClose, demand_eq_ok, ensure_eq_ok, decoded_eq_ok, opens,
    decide_eq_true_eq, exists_const, pure, Except.pure, Except.ok.injEq]
  constructor
  · intro conditions
    rcases conditions with ⟨r, found, waiting, entropy, drawn, bonded, winners, listed, opened, rfl⟩
    exact ⟨r, entropy, winners, found, ⟨waiting, drawn, bonded, listed, opened⟩, rfl⟩
  · intro accepted
    rcases accepted with ⟨r, entropy, winners, found, g, rfl⟩
    exact ⟨r, found, g.waiting, entropy, g.drawn, g.bonded, winners, g.listed, g.opened, rfl⟩

theorem challenge_eq_ok {claimed : Word} {disputed : UInt32} :
    h.challenge ctx id encoding claimed disputed = .ok plan ↔
      ∃ r p entropy close winners reason balance, h.auction? id = some r ∧
        r.Overturns (h.ledger id) ctx encoding claimed disputed p entropy close winners reason ∧
        UInt64.toNat balance = (h.balance ctx.sender).toNat + p.deposit.toNat ∧
        plan = .change (.overturned id p ⟨disputed, reason⟩ ctx.sender balance)
          (.proposalOverturned reason) := by
  simp only [challenge, bind_eq_ok, requireAuction_eq_ok, Auction.requireChallengeable_eq_ok,
    demand_eq_ok, ensure_eq_ok, decoded_eq_ok, checkedAdd_eq_some, exists_const, Prod.exists,
    Auction.disputable?_eq_some, pure, Except.pure, Except.ok.injEq]
  constructor
  · intro conditions
    rcases conditions with
      ⟨r, found, inTime, p, entropy, close, ⟨live, drawn, resolved⟩, ⟨named, opened⟩, stranger,
        winners, listed, reason, fraud, balance, credited, rfl⟩
    exact ⟨r, p, entropy, close, winners, reason, balance, found,
      ⟨inTime, live, drawn, resolved, named, opened, stranger, listed, fraud⟩, credited, rfl⟩
  · intro accepted
    rcases accepted with ⟨r, p, entropy, close, winners, reason, balance, found, g, credited, rfl⟩
    exact ⟨r, found, g.inTime, p, entropy, close, ⟨g.live, g.drawn, g.resolved⟩,
      ⟨g.named, g.opened⟩, g.stranger, winners, g.listed, reason, g.fraud, balance, credited,
      rfl⟩

end House

end CandleAuction
