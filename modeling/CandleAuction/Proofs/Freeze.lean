import CandleAuction.Proofs.Coherence

/-!
# What is frozen with the draw

Once the entropy of a round is drawn, all that decides its winners is fixed:
its settings, its entropy and close instant, and its bids up to their
settlement flags. Proposals, challenges and payouts come and go beside that.
-/

namespace CandleAuction

namespace Auction

variable {r : Auction} {bids : Ledger} {ctx : Context} {call : Call} {change : Change}
  {outcome : Outcome}

theorem Allows.frozen (coherent : r.Coherent bids) (drawn : r.entropy.isSome = true)
    (allowed : r.Allows bids ctx call change outcome) :
    (change.revise r).frozen = r.frozen ∧ (change.enter bids).cleared = bids.cleared := by
  have notRunning : r.phase ≠ .running := by
    intro running
    rw [(coherent.running running).1] at drawn
    cases drawn
  cases allowed with
  | placed g => exact absurd g.isOpen.running notRunning
  | raised g => exact absurd g.isOpen.running notRunning
  | closed closes _ => exact absurd closes.running notRunning
  | drawn g => simp [g.unset] at drawn
  | claimed | withdrawn => exact ⟨rfl, Ledger.cleared_modify_processed⟩
  | _ => exact ⟨rfl, rfl⟩

end Auction

namespace Run

variable {start h : House} {past : List Served} {id : UInt64} {r : Auction}

/-- The winners of a round are decided with its draw, in every later state of every run. -/
theorem frozen (run : Run start past h) (coherent : start.Coherent)
    (found : start.auction? id = some r) (drawn : r.entropy.isSome = true) :
    ∃ r', h.auction? id = some r' ∧ r'.frozen = r.frozen ∧
      (h.ledger id).cleared = (start.ledger id).cleared := by
  refine run.follow (motive := fun _ r' bids' => r'.frozen = r.frozen ∧
    bids'.cleared = (start.ledger id).cleared) coherent.toOrderly found ⟨rfl, rfl⟩ ?_
  intro past s r' r'' bids'' run found' moves same
  cases moves with
  | rest _ => exact same
  | change _ _ allowed =>
      obtain ⟨-, entropy, -⟩ := Auction.eq_of_frozen same.1
      have kept := allowed.frozen ((run.coherent coherent).rounds id r' found') (entropy ▸ drawn)
      exact ⟨kept.1.trans same.1, kept.2.trans same.2⟩

end Run

end CandleAuction
