import CandleAuction.Proofs.Coherence
import CandleAuction.Proofs.Rules.Payouts

/-!
# What a refusal says

A rule refuses a call with the rejection of the first check that fails, so a
rejection tells which checks were passed before. Two rejections guard against
states that a coherent house does not reach: a bid is never too late for its
timestamp, and entropy is missing only where a proposal comes before the draw.
-/

namespace CandleAuction

open Ruling

/-- What a guard has found amiss: an overdue bid, or entropy that is missing. -/
inductive House.Trips (h : House) (ctx : Context) : Call → Rejection → Prop
  | unproposable {id encoding posted total r} :
      h.auction? id = some r → r.phase = .waitingClose → r.entropy = none →
      Trips h ctx (.proposeWinners id encoding posted total) .entropyPending
  | undisputable {id encoding claimed disputed r} :
      h.auction? id = some r → r.phaseAt ctx.now = .ok .winnersProposed → r.disputable? = none →
      Trips h ctx (.challenge id encoding claimed disputed) .entropyPending
  | unreadable {id call r p} :
      h.auction? id = some r → r.Settles ctx.now p → r.entropy = none →
      Trips h ctx call .entropyPending
  | overdue {id call r} :
      h.auction? id = some r → r.OpenAt ctx.now →
      UInt32.size ≤ ctx.now.toNat - r.startTime.toNat →
      Trips h ctx call .timestampOverflow

/-- The rejections that guard against rounds whose fields do not fit together. -/
def Rejection.Guards (rejection : Rejection) : Prop :=
  rejection = .entropyPending ∨ rejection = .timestampOverflow

section Guards

variable {kind : Rejection → Prop} {rejection : Rejection} {h : House} {ctx : Context}
  {now id : UInt64}

theorem Rejection.Guards.apart (guard : rejection.Guards) : Rejection.Apart (· = rejection) := by
  rcases guard with rfl | rfl <;> exact ⟨by simp, by simp⟩

namespace Auction

variable {r : Auction}

theorem not_rejects_phaseAt_bind {α : Type} {next : Phase → Ruling α}
    (each : ∀ phase, ¬ Rejects kind (next phase)) :
    ¬ Rejects kind (liftM (r.phaseAt now) >>= next) := by
  simp [rejects_bind, each]

theorem not_rejects_requireOpen (apart : Rejection.Apart kind) (ahead : ¬ kind .biddingNotStarted)
    (past : ¬ kind .biddingEnded) : ¬ Rejects kind (r.requireOpen now) :=
  not_rejects_phaseAt_bind fun phase => by
    cases phase <;> simp [rejects_bind, ahead, past, apart.phase]

theorem not_rejects_requireChallengeable (apart : Rejection.Apart kind)
    (past : ¬ kind .challengePeriodOver) : ¬ Rejects kind (r.requireChallengeable now) :=
  not_rejects_phaseAt_bind fun phase => by cases phase <;> simp [past, apart.phase]

theorem rejects_relativeTime :
    Rejects kind (r.relativeTime now) ↔
      UInt32.size ≤ now.toNat - r.startTime.toNat ∧ kind .timestampOverflow := by
  unfold relativeTime
  dsimp only
  rw [saturatingSub_toNat]
  split
  · rename_i fits
    simp [Nat.not_le.mpr fits]
  · rename_i large
    simp [Nat.not_lt.mp large]

end Auction

namespace House

theorem not_rejects_requireFreeSlot (free : ∀ id, ¬ kind (.settlingSlotBusy id)) :
    ¬ Rejects kind (h.requireFreeSlot now id) := by
  unfold requireFreeSlot
  split <;> simp [rejects_bind, free]

theorem finalWinners_of_guard {call : Call} {encoding : List UInt8} (guard : rejection.Guards)
    (rejects : Rejects (· = rejection) (h.finalWinners ctx.now id encoding)) :
    h.Trips ctx call rejection := by
  obtain ⟨r, p, found, settles, rejects⟩ := rejects_of_finalized_bind guard.apart rejects
  rcases guard with rfl | rfl
  · simp [rejects_bind] at rejects
    exact .unreadable found settles rejects
  · simp [rejects_bind] at rejects

/-- What is common to both rules of bidding has nothing to do with the guards. -/
theorem bidding_of_guard {α : Type} {amount : UInt64} {next : Auction → Ruling α}
    (guard : rejection.Guards)
    (rejects : Rejects (· = rejection) (do
      let r ← h.requireAuction id
      r.requireOpen ctx.now
      ctx.requireValue amount
      r.settings.requirePrecision amount
      next r)) :
    ∃ r, h.auction? id = some r ∧ r.OpenAt ctx.now ∧ Rejects (· = rejection) (next r) := by
  obtain ⟨r, found, rejects⟩ :=
    rejects_of_bind (not_rejects_requireAuction guard.apart) rejects
  obtain ⟨_, isOpen, rejects⟩ := rejects_of_bind (Auction.not_rejects_requireOpen guard.apart
    (by rcases guard with rfl | rfl <;> simp) (by rcases guard with rfl | rfl <;> simp)) rejects
  refine ⟨r, requireAuction_eq_ok.mp found, Auction.requireOpen_eq_ok.mp isOpen, ?_⟩
  rcases guard with rfl | rfl <;>
    simp [rejects_bind, Context.requireValue, Settings.requirePrecision] at rejects <;>
    exact rejects.2.2.2

theorem placeBid_of_guard {amount : UInt64} (guard : rejection.Guards)
    (rejects : Rejects (· = rejection) (h.placeBid ctx id amount)) :
    h.Trips ctx (.placeBid id amount) rejection := by
  obtain ⟨r, found, isOpen, rejects⟩ := bidding_of_guard guard rejects
  rcases guard with rfl | rfl <;> simp [rejects_bind, Auction.rejects_relativeTime] at rejects
  exact .overdue found isOpen rejects.2.2

theorem increaseBid_of_guard {index : UInt32} {added : UInt64} (guard : rejection.Guards)
    (rejects : Rejects (· = rejection) (h.increaseBid ctx id index added)) :
    h.Trips ctx (.increaseBid id index added) rejection := by
  obtain ⟨r, found, isOpen, rejects⟩ := bidding_of_guard guard rejects
  rcases guard with rfl | rfl <;> simp [rejects_bind, Auction.rejects_relativeTime] at rejects
  obtain ⟨_, -, -, -, -, late⟩ := rejects
  exact .overdue found isOpen late

theorem proposeWinners_of_guard {encoding : List UInt8} {posted : Word} {total : UInt64}
    (guard : rejection.Guards)
    (rejects : Rejects (· = rejection) (h.proposeWinners ctx id encoding posted total)) :
    h.Trips ctx (.proposeWinners id encoding posted total) rejection := by
  obtain ⟨r, found, rejects⟩ :=
    rejects_of_bind (not_rejects_requireAuction guard.apart) rejects
  obtain ⟨_, waiting, rejects⟩ :=
    rejects_of_bind (Auction.not_rejects_requirePhase guard.apart) rejects
  rcases guard with rfl | rfl <;> simp [rejects_bind] at rejects
  exact .unproposable (requireAuction_eq_ok.mp found)
    (Auction.phaseAt_eq_waitingClose.mp (Auction.requirePhase_eq_ok.mp waiting)) rejects

theorem challenge_of_guard {encoding : List UInt8} {claimed : Word} {disputed : UInt32}
    (guard : rejection.Guards)
    (rejects : Rejects (· = rejection) (h.challenge ctx id encoding claimed disputed)) :
    h.Trips ctx (.challenge id encoding claimed disputed) rejection := by
  obtain ⟨r, found, rejects⟩ :=
    rejects_of_bind (not_rejects_requireAuction guard.apart) rejects
  obtain ⟨_, inTime, rejects⟩ :=
    rejects_of_bind (Auction.not_rejects_requireChallengeable guard.apart
      (by rcases guard with rfl | rfl <;> simp)) rejects
  rcases guard with rfl | rfl <;> simp [rejects_bind] at rejects
  exact .undisputable (requireAuction_eq_ok.mp found)
    (Auction.requireChallengeable_eq_ok.mp inTime) rejects

theorem claimWinningBid_of_guard {encoding : List UInt8} {position : UInt32}
    (guard : rejection.Guards)
    (rejects : Rejects (· = rejection) (h.claimWinningBid ctx id encoding position)) :
    h.Trips ctx (.claimWinningBid id encoding position) rejection := by
  rcases rejects_bind.mp rejects with rejects | ⟨winners, read, rejects⟩
  · exact finalWinners_of_guard guard rejects
  obtain ⟨r, p, entropy, found, reveals⟩ := finalWinners_eq_ok.mp read
  rcases guard with rfl | rfl <;>
    simp [rejects_bind, requireAuction, found, reveals.drawn] at rejects

theorem withdrawBid_of_guard {encoding : List UInt8} {index : UInt32}
    (guard : rejection.Guards)
    (rejects : Rejects (· = rejection) (h.withdrawBid ctx id encoding index)) :
    h.Trips ctx (.withdrawBid id encoding index) rejection := by
  rcases rejects_bind.mp rejects with rejects | ⟨winners, read, rejects⟩
  · exact finalWinners_of_guard guard rejects
  rcases guard with rfl | rfl <;> simp [rejects_bind, payout, requireAuction] at rejects

theorem plan_of_guard {settlementGas : UInt64} {call : Call} (guard : rejection.Guards)
    (rejects : Rejects (· = rejection) (h.plan ctx settlementGas call)) :
    h.Trips ctx call rejection := by
  cases call with
  | placeBid => exact placeBid_of_guard guard rejects
  | increaseBid => exact increaseBid_of_guard guard rejects
  | proposeWinners => exact proposeWinners_of_guard guard rejects
  | challenge => exact challenge_of_guard guard rejects
  | claimWinningBid => exact claimWinningBid_of_guard guard rejects
  | withdrawBid => exact withdrawBid_of_guard guard rejects
  | snuff =>
      rcases guard with rfl | rfl <;>
        simp [plan, snuff, rejects_bind, requireAuction, Auction.requirePhase,
          not_rejects_requireFreeSlot] at rejects
  | fulfillRandomness =>
      rcases guard with rfl | rfl <;>
        simp [plan, fulfillRandomness, rejects_bind, requireAuction] at rejects
  | claimSnuffBounty | claimProposalBounty | transferProceeds =>
      obtain ⟨r, p, -, -, rejects⟩ := rejects_of_finalized_bind guard.apart rejects
      rcases guard with rfl | rfl <;> simp [rejects_bind, payout, requireAuction] at rejects
  | updateSettings settings =>
      obtain ⟨_, -, rejects⟩ := rejects_of_bind
        (by rcases guard with rfl | rfl <;> simp) rejects
      rcases guard with rfl | rfl <;> split at rejects <;> simp at rejects

theorem trips_of_dispatch {c : Collaborators} {call : Call} (guard : rejection.Guards)
    (refused : (h.dispatch ctx c call).result = .error (.rejected rejection)) :
    h.Trips ctx call rejection :=
  plan_of_guard guard ((rejects_dispatch (by rcases guard with rfl | rfl <;> simp)).mp
    ⟨rejection, refused, rfl⟩)

/-- In a coherent house a guard only ever finds a proposal that comes before the draw. -/
theorem Trips.unproposed {call : Call} (trips : h.Trips ctx call rejection)
    (coherent : h.Coherent) :
    rejection = .entropyPending ∧ ∃ id encoding posted total r,
      call = .proposeWinners id encoding posted total ∧ h.auction? id = some r ∧
      r.phase = .waitingClose ∧ r.entropy = none := by
  cases trips with
  | unproposable found waiting unset => exact ⟨rfl, _, _, _, _, _, rfl, found, waiting, unset⟩
  | undisputable found inTime missing =>
      have round := coherent.rounds _ _ found
      obtain ⟨-, -, drawn, -, p, live, -⟩ :=
        round.proposed (Auction.phaseAt_eq_winnersProposed.mp inTime).1
      obtain ⟨entropy, drawn⟩ := Option.isSome_iff_exists.mp drawn
      obtain ⟨close, -, resolved⟩ := round.resolved.exists_close drawn
      cases missing.symm.trans (Auction.disputable?_eq_some.mpr ⟨live, drawn, resolved⟩)
  | unreadable found settles unset =>
      have round := coherent.rounds _ _ found
      obtain ⟨-, -, drawn, -⟩ := round.proposed (round.proposed_of_final settles.final)
      rw [unset] at drawn
      cases drawn
  | overdue found isOpen late =>
      have short := (coherent.rounds _ _ found).valid.duration_lt
      have ahead := isOpen.ahead
      omega

end House

end Guards

end CandleAuction
