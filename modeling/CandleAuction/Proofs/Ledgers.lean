import CandleAuction.Proofs.Freeze
import CandleAuction.Proofs.Lifecycle

/-!
# Ledgers only grow, and not after the close

A ledger takes new bids at its end and larger amounts in place. Once its round
is closed it takes nothing but settlement flags. The entropy comes after that,
so no bid can react to it.
-/

namespace CandleAuction

/-- What may become of a bid. -/
structure Bid.Grows (bid bid' : Bid) : Prop where
  bidder : bid'.bidder = bid.bidder
  amount : bid.amount ≤ bid'.amount
  processed : bid.processed = true → bid'.processed = true

theorem Bid.Grows.refl {bid : Bid} : bid.Grows bid := ⟨rfl, UInt64.le_refl _, fun set => set⟩

namespace Ledger

/-- Every bid is still at its position, and has at most grown. -/
def Extends (bids bids' : Ledger) : Prop :=
  ∀ (position : Nat) (bid : Bid), bids[position]? = some bid →
    ∃ bid', bids'[position]? = some bid' ∧ bid.Grows bid'

variable {bids : Ledger} {bid : Bid}

theorem Extends.refl : bids.Extends bids := fun _ bid found => ⟨bid, found, .refl⟩

theorem extends_push : bids.Extends (bids.push bid) := by
  intro position old found
  have inside := (Array.getElem?_eq_some_iff.mp found).1
  refine ⟨old, ?_, .refl⟩
  rw [Array.getElem?_push, if_neg (Nat.ne_of_lt inside), found]

theorem extends_modify {position : Nat} {change : Bid → Bid}
    (grows : ∀ bid, bids[position]? = some bid → bid.Grows (change bid)) :
    bids.Extends (bids.modify position change) := by
  intro other bid found
  rw [Array.getElem?_modify]
  split
  · rename_i same
    subst same
    exact ⟨change bid, by rw [found]; rfl, grows bid found⟩
  · exact ⟨bid, found, .refl⟩

end Ledger

namespace Auction

variable {r : Auction} {bids : Ledger} {ctx : Context} {call : Call} {change : Change}
  {outcome : Outcome}

theorem Allows.extends (allowed : r.Allows bids ctx call change outcome) :
    bids.Extends (change.enter bids) := by
  cases allowed with
  | placed => exact Ledger.extends_push
  | raised g =>
      refine Ledger.extends_modify fun bid found => ⟨rfl, ?_, fun set => set⟩
      cases g.found.symm.trans found
      rw [UInt64.le_iff_toNat_le, g.raised]
      exact Nat.le_add_right _ _
  | claimed | withdrawn =>
      exact Ledger.extends_modify fun _ _ => ⟨rfl, UInt64.le_refl _, fun _ => rfl⟩
  | _ => exact .refl

/-- Bids are entered only by changes that leave the round running. -/
theorem Allows.cleared_of_closed (allowed : r.Allows bids ctx call change outcome)
    (closed : (change.revise r).phase ≠ .running) :
    (change.enter bids).cleared = bids.cleared := by
  cases allowed with
  | placed g => exact absurd g.isOpen.running closed
  | raised g => exact absurd g.isOpen.running closed
  | claimed | withdrawn => exact Ledger.cleared_modify_processed
  | _ => rfl

theorem Advances.closed {id : UInt64} {r r' : Auction} {outcome : Option Outcome}
    (advances : Advances id r r' call outcome) (closed : r.phase ≠ .running) :
    r'.phase ≠ .running := by
  rcases advances.phase with same | precedes
  · rwa [same]
  · exact precedes.ne_running

end Auction

namespace Served

variable {s : Served} {id : UInt64} {r r' : Auction} {bids' : Ledger}

theorem Moves.extends (moves : s.Moves id r r' bids') : (s.house.ledger id).Extends bids' := by
  cases moves with
  | rest _ => exact .refl
  | change _ _ allowed _ => exact allowed.extends

theorem Moves.cleared_of_closed (moves : s.Moves id r r' bids') (closed : r'.phase ≠ .running) :
    bids'.cleared = (s.house.ledger id).cleared := by
  cases moves with
  | rest _ => rfl
  | change _ _ allowed _ => exact allowed.cleared_of_closed closed

theorem Answered.extends (answered : s.Answered) (orderly : s.house.Orderly) (id : UInt64) :
    (s.house.ledger id).Extends (s.receipt.house.ledger id) := by
  cases found : s.house.auction? id with
  | none =>
      rw [orderly.blank found]
      intro position bid absent
      simp at absent
  | some r =>
      obtain ⟨r', -, moves⟩ := answered.moves orderly found
      exact moves.extends

end Served

namespace Run

variable {start h : House} {past : List Served} {id : UInt64} {r : Auction}

theorem closed (run : Run start past h) (coherent : start.Coherent)
    (found : start.auction? id = some r) (closed : r.phase ≠ .running) :
    ∃ r', h.auction? id = some r' ∧ r'.phase ≠ .running ∧
      (h.ledger id).cleared = (start.ledger id).cleared := by
  refine run.follow (motive := fun _ r' bids' => r'.phase ≠ .running ∧
    bids'.cleared = (start.ledger id).cleared) coherent.toOrderly found ⟨closed, rfl⟩ ?_
  rintro past s r' r'' bids'' run found' moves ⟨closed, same⟩
  have still := (moves.advances (run.coherent coherent) found').closed closed
  exact ⟨still, (moves.cleared_of_closed still).trans same⟩

theorem cleared_since {newer older : List Served} {s : Served}
    (run : Run start (newer ++ s :: older) h) (coherent : start.Coherent)
    (left : s.receipt.house.auction? id = some r) (closed : r.phase ≠ .running) :
    (h.ledger id).cleared = (s.house.ledger id).cleared := by
  have met := run.before.coherent coherent
  have answered := run.answered s (by simp)
  have next := (Run.step s.request run.before answered).coherent coherent
  cases found : s.house.auction? id with
  | none =>
      obtain ⟨⟨_, _, _, rfl⟩, -⟩ := answered.opened found left
      exact absurd rfl closed
  | some before =>
      obtain ⟨_, again, moves⟩ := answered.moves met.toOrderly found
      cases left.symm.trans again
      obtain ⟨_, -, -, same⟩ := run.after.closed next left closed
      exact same.trans (moves.cleared_of_closed closed)

/-- No bid can react to the entropy. Every call leaves each bid at its position, with its
bidder, at least its amount and its settlement flag. From the call that closes a round on, its
bids stay as that call met them, up to settlement flags, and no running round has entropy. So
the winners of a drawn round are the same in every later state. -/
theorem ledgers_freeze_before_draw {g : Genesis} {settlementGas : UInt64}
    (founded : g.found settlementGas = .ok start) (run : Run start past h) :
    (∀ newer s older, past = newer ++ s :: older →
      (∀ id, (s.house.ledger id).Extends (s.receipt.house.ledger id)) ∧
      (∀ id r, s.receipt.house.auction? id = some r → r.phase ≠ .running →
        (h.ledger id).cleared = (s.house.ledger id).cleared) ∧
      ∀ id r, s.house.auction? id = some r → r.entropy.isSome = true →
        ∃ close r', r.closeOffset = some close ∧ h.auction? id = some r' ∧
          r'.closeOffset = some close ∧
          (h.ledger id).canonicalWinners close r'.settings.maxWinners =
            (s.house.ledger id).canonicalWinners close r.settings.maxWinners) ∧
    ∀ id r, h.auction? id = some r → r.entropy.isSome = true → r.phase ≠ .running := by
  have initial := Genesis.coherent_of_found founded
  constructor
  · rintro newer s older rfl
    have met := run.before.coherent initial
    refine ⟨(run.answered s (by simp)).extends met.toOrderly,
      fun id r left closed => run.cleared_since initial left closed, ?_⟩
    intro id r found drawn
    obtain ⟨r', found', frozen, cleared⟩ := run.since.frozen met found drawn
    obtain ⟨settings, -, closeOffset⟩ := Auction.eq_of_frozen frozen
    obtain ⟨close, known⟩ := Option.isSome_iff_exists.mp
      ((met.rounds id r found).wellFormed.resolved.symm.trans drawn)
    refine ⟨close, r', known, found', closeOffset.trans known, ?_⟩
    rw [settings, ← Ledger.canonicalWinners_cleared, cleared, Ledger.canonicalWinners_cleared]
  · intro id r found drawn running
    have round := (run.coherent initial).rounds id r found
    simp [(round.running running).1] at drawn

/-- The winners of the sample round are the same before and after a proposal. -/
theorem ledgers_freeze_before_draw_proposed :
    Sample.genesis.found 0 = .ok Sample.opened ∧ Run Sample.opened Sample.past Sample.proposed ∧
      Sample.drawn.auction? 1 = some Sample.round ∧
      ∃ close r', Sample.round.closeOffset = some close ∧ Sample.proposed.auction? 1 = some r' ∧
        r'.closeOffset = some close ∧
        (Sample.proposed.ledger 1).canonicalWinners close r'.settings.maxWinners =
          (Sample.drawn.ledger 1).canonicalWinners close Sample.round.settings.maxWinners := by
  obtain ⟨each, -⟩ := ledgers_freeze_before_draw Sample.founded Sample.run_proposed
  obtain ⟨-, -, winners⟩ := each [] ⟨Sample.drawn, Sample.proposing⟩ _ rfl
  exact ⟨Sample.founded, Sample.run_proposed, rfl, winners 1 Sample.round rfl rfl⟩

end Run

end CandleAuction
