import CandleAuction.Proofs.Rules.Bidding
import CandleAuction.Rules.Closing

/-!
# When a round is closed

A round closes once, from its deadline on and only while no earlier round is
in winner determination. Its entropy is drawn once, in answer to the request
that the closing made.
-/

namespace CandleAuction

open Ruling

namespace Auction

/-- The deadline of a running round has passed. -/
structure Closes (r : Auction) (now : UInt64) : Prop where
  running : r.phase = .running
  started : r.startTime ≤ now
  ended : r.startTime.toNat + r.settings.duration.toNat ≤ now.toNat

/-- A word answers the request of a closed round that has no entropy yet. -/
structure Draws (r : Auction) (ctx : Context) (request : UInt64) (word : Word)
    (offset : UInt32) (closeTime : UInt64) : Prop where
  waiting : r.phase = .waitingClose
  requested : r.request = some request
  unset : r.entropy = none
  drawn : r.settings.closeOffset word = .ok offset
  timed : (if ctx.logging then exactAdd r.startTime offset.toUInt64 else .ok 0) = .ok closeTime

end Auction

namespace House

variable {h : House} {ctx : Context} {id : UInt64} {plan : Plan}

theorem previous?_eq {other : UInt64} (before : other.toNat + 1 = id.toNat) :
    h.previous? id = h.auction? other := by
  have nonzero : id ≠ 0 := by
    rintro rfl
    cases before
  have position : id - 1 = other := by
    have positive : 1 ≤ id := by
      rw [UInt64.le_iff_toNat_le, ← before]
      exact Nat.le_add_left _ _
    rw [← UInt64.toNat_inj, UInt64.toNat_sub_of_le _ _ positive, ← before]
    rfl
  rw [previous?, if_neg nonzero, position]

/-- The round numbered just before is out of winner determination. -/
def FreeSlot (h : House) (now id : UInt64) : Prop :=
  ∀ previous ∈ h.previous? id, ∃ phase, previous.phaseAt now = .ok phase ∧
    phase ≠ .waitingClose ∧ phase ≠ .winnersProposed

theorem requireFreeSlot_eq_ok {now : UInt64} {u : Unit} :
    h.requireFreeSlot now id = .ok u ↔ h.FreeSlot now id := by
  unfold requireFreeSlot FreeSlot
  cases h.previous? id with
  | none => simp
  | some previous =>
      simp only [bind_eq_ok, lift_eq_ok, ensure_eq_ok, Option.mem_def, Option.some.injEq,
        forall_eq']

theorem snuff_eq_ok {settlementGas : UInt64} :
    h.snuff ctx settlementGas id = .ok plan ↔
      ∃ r, h.auction? id = some r ∧ r.Closes ctx.now ∧ h.FreeSlot ctx.now id ∧
        plan = if (h.ledger id).isEmpty then .act (h.closeAndReopen ctx settlementGas id none)
          else .ask (.randomness (Seed.randomness id r.startTime)) fun request =>
            h.closeAndReopen ctx settlementGas id (some request) := by
  simp only [snuff, bind_eq_ok, requireAuction_eq_ok, Auction.requirePhase_eq_ok, lift_eq_ok,
    Auction.phaseAt_eq_running, Auction.deadline_eq_ok, ensure_eq_ok, requireFreeSlot_eq_ok,
    exists_const, pure, Except.pure]
  refine exists_congr fun r => and_congr_right fun _ => ?_
  constructor
  · intro accepted
    rcases accepted with ⟨⟨running, started⟩, deadline, sum, ended, free, result⟩
    refine ⟨⟨running, started, sum ▸ UInt64.le_iff_toNat_le.mp ended⟩, free, ?_⟩
    split at result <;> simp_all
  · intro conditions
    rcases conditions with ⟨⟨running, started, ended⟩, free, rfl⟩
    have fits := Nat.lt_of_le_of_lt ended ctx.now.toNat_lt
    have sum := UInt64.toNat_ofNat_of_lt' fits
    refine ⟨⟨running, started⟩, _, sum, ?_, free, ?_⟩
    · rw [UInt64.le_iff_toNat_le, sum]
      exact ended
    · split <;> rfl

theorem fulfillRandomness_eq_ok {request : UInt64} {word : Word} :
    h.fulfillRandomness ctx request word = .ok plan ↔
      ∃ id r offset closeTime, ctx.sender = h.oracle ∧ h.requests[request]? = some id ∧
        h.auction? id = some r ∧ r.Draws ctx request word offset closeTime ∧
        plan = .change (.drawn id word offset closeTime) (.closeResolved offset) := by
  simp only [fulfillRandomness, bind_eq_ok, demand_eq_ok, requireAuction_eq_ok, ensure_eq_ok,
    lift_eq_ok, exists_const]
  constructor
  · intro accepted
    rcases accepted with
      ⟨oracle, id, known, r, found, ⟨waiting, requested⟩, unset, offset, drawn, result⟩
    split at result
    · rename_i logging
      obtain ⟨closeTime, timed, result⟩ := bind_eq_ok.mp result
      cases result
      exact ⟨id, r, offset, closeTime, oracle, known, found,
        ⟨waiting, requested, unset, drawn, by rw [if_pos logging, lift_eq_ok.mp timed]⟩, rfl⟩
    · rename_i silent
      cases result
      exact ⟨id, r, offset, 0, oracle, known, found,
        ⟨waiting, requested, unset, drawn, by rw [if_neg silent]⟩, rfl⟩
  · intro conditions
    rcases conditions with ⟨id, r, offset, closeTime, oracle, known, found, g, rfl⟩
    refine ⟨oracle, id, known, r, found, ⟨g.waiting, g.requested⟩, g.unset, offset, g.drawn, ?_⟩
    have timed := g.timed
    split
    · rename_i logging
      rw [if_pos logging] at timed
      exact bind_eq_ok.mpr ⟨closeTime, lift_eq_ok.mpr timed, rfl⟩
    · rename_i silent
      rw [if_neg silent] at timed
      cases timed
      rfl

end House

end CandleAuction
