import CandleAuction.Proofs.Dispatch
import CandleAuction.Proofs.Rules.Rulings

/-!
# When a payout fails

A settlement that meets its conditions comes down to one payout. It is refused
as insolvent only if the proceeds do not hold the amount, and for an overflow
only if the balance has no room for it.
-/

namespace CandleAuction

theorem checkedAdd_eq_none {x y : UInt64} :
    checkedAdd x y = none ↔ UInt64.size ≤ x.toNat + y.toNat := by
  unfold checkedAdd
  split <;> simp [*]
  omega

/-- A payout goes through, unless the balance that it goes to has no room for it. -/
def Receipt.PaysOut (receipt : Receipt) (balance : UInt64) (amount : Nat) : Prop :=
  (∃ paid, receipt.result = .ok (.paid paid) ∧ paid.toNat = amount) ∨
    receipt.result = .error (.rejected .amountOverflow) ∧ UInt64.size ≤ balance.toNat + amount

open Ruling

/-- A kind of rejections that is neither about a missing round nor about a phase. -/
structure Rejection.Apart (kind : Rejection → Prop) : Prop where
  found : ∀ id, ¬ kind (.auctionNotFound id)
  phase : ∀ expected got, ¬ kind (.invalidState expected got)

def Rejection.Insolvent (rejection : Rejection) : Prop :=
  ∃ required available, rejection = .insolvent required available

theorem Rejection.insolvent_apart : Apart Insolvent := ⟨by simp [Insolvent], by simp [Insolvent]⟩

theorem Auction.rejects_requirePhase {kind : Rejection → Prop} {r : Auction} {now : UInt64}
    {expected : Phase} :
    Rejects kind (r.requirePhase now expected) ↔
      ∃ got, r.phaseAt now = .ok got ∧ got ≠ expected ∧ kind (.invalidState expected got) := by
  simp [requirePhase, rejects_bind]

theorem Auction.not_rejects_requirePhase {kind : Rejection → Prop} {r : Auction} {now : UInt64}
    {expected : Phase} (apart : Rejection.Apart kind) :
    ¬ Rejects kind (r.requirePhase now expected) := by
  simp [rejects_requirePhase, apart.phase]

namespace House

variable {h : House} {ctx : Context} {c : Collaborators} {now id : UInt64} {r : Auction}
  {recipient : Address} {fromProceeds fromDeposit required available : UInt64}
  {encoding : List UInt8} {index : UInt32}

@[simp]
theorem rejects_requireAuction {kind : Rejection → Prop} :
    Rejects kind (h.requireAuction id) ↔ h.auction? id = none ∧ kind (.auctionNotFound id) := by
  simp [requireAuction]

theorem not_rejects_requireAuction {kind : Rejection → Prop} (apart : Rejection.Apart kind) :
    ¬ Rejects kind (h.requireAuction id) := by
  simp [apart.found]

theorem not_rejects_finalized {kind : Rejection → Prop} (apart : Rejection.Apart kind) :
    ¬ Rejects kind (h.finalized now id) := by
  simp [finalized, rejects_bind, not_rejects_requireAuction apart,
    Auction.not_rejects_requirePhase apart, apart.phase]

theorem rejects_of_finalized_bind {kind : Rejection → Prop} {α : Type}
    {next : Auction × Proposal → Ruling α} (apart : Rejection.Apart kind)
    (rejects : Rejects kind (h.finalized now id >>= next)) :
    ∃ r p, h.auction? id = some r ∧ r.Settles now p ∧ Rejects kind (next (r, p)) := by
  obtain ⟨⟨r, p⟩, final, rejects⟩ := rejects_of_bind (not_rejects_finalized apart) rejects
  obtain ⟨found, settles⟩ := finalized_eq_ok.mp final
  exact ⟨r, p, found, settles, rejects⟩

theorem rejects_payout_insolvent (found : h.auction? id = some r) :
    Rejects Rejection.Insolvent (h.payout id recipient fromProceeds fromDeposit) ↔
      r.proceeds < fromProceeds := by
  simp [payout, rejects_bind, requireAuction, found, Rejection.Insolvent]

theorem not_rejects_finalWinners_insolvent :
    ¬ Rejects Rejection.Insolvent (h.finalWinners now id encoding) := by
  simp [finalWinners, rejects_bind, not_rejects_finalized Rejection.insolvent_apart,
    Rejection.Insolvent]

theorem not_rejects_claimWinningBid_insolvent {position : UInt32} :
    ¬ Rejects Rejection.Insolvent (h.claimWinningBid ctx id encoding position) := by
  simp [claimWinningBid, rejects_bind, not_rejects_finalWinners_insolvent, requireAuction,
    Rejection.Insolvent]

theorem withdrawBid_of_insolvent
    (rejects : Rejects Rejection.Insolvent (h.withdrawBid ctx id encoding index)) :
    ∃ r p entropy winners bid, h.auction? id = some r ∧
      r.Withdraws (h.ledger id) ctx encoding index p entropy winners bid ∧
      r.proceeds < bid.amount := by
  obtain ⟨winners, final, rejects⟩ := rejects_of_bind not_rejects_finalWinners_insolvent rejects
  obtain ⟨r, p, entropy, found, reveals⟩ := finalWinners_eq_ok.mp final
  simp only [rejects_bind, rejects_demand, rejects_ensure, rejects_payout_insolvent found,
    demand_eq_ok, ensure_eq_ok, not_rejects_pure, Rejection.Insolvent, reduceCtorEq, and_false,
    exists_false, exists_const, false_or, or_false] at rejects
  obtain ⟨bid, entry, owner, loser, unprocessed, short⟩ := rejects
  exact ⟨r, p, entropy, winners, bid, found, ⟨reveals, entry, owner, loser, unprocessed⟩, short⟩

theorem claimSnuffBounty_of_insolvent
    (rejects : Rejects Rejection.Insolvent (h.claimSnuffBounty ctx id)) :
    ∃ r p, h.auction? id = some r ∧ r.Settles ctx.now p ∧ p.snuffBountyClaimed = false ∧
      r.proceeds < p.snuffBounty := by
  obtain ⟨r, p, found, settles, rejects⟩ :=
    rejects_of_finalized_bind Rejection.insolvent_apart rejects
  simp [rejects_bind, rejects_payout_insolvent found, Rejection.Insolvent] at rejects
  obtain ⟨unclaimed, -, short⟩ := rejects
  exact ⟨r, p, found, settles, unclaimed, short⟩

theorem claimProposalBounty_of_insolvent
    (rejects : Rejects Rejection.Insolvent (h.claimProposalBounty ctx id)) :
    ∃ r p, h.auction? id = some r ∧ r.Settles ctx.now p ∧ p.proposalBountyClaimed = false ∧
      r.proceeds < p.proposalBounty := by
  obtain ⟨r, p, found, settles, rejects⟩ :=
    rejects_of_finalized_bind Rejection.insolvent_apart rejects
  simp [rejects_bind, rejects_payout_insolvent found, Rejection.Insolvent] at rejects
  exact ⟨r, p, found, settles, rejects⟩

theorem transferProceeds_of_insolvent
    (rejects : Rejects Rejection.Insolvent (h.transferProceeds ctx id)) :
    ∃ r p bounties, h.auction? id = some r ∧ r.Settles ctx.now p ∧ r.fundsMoved = false ∧
      UInt64.toNat bounties = p.snuffBounty.toNat + p.proposalBounty.toNat ∧
      r.proceeds < saturatingSub p.total bounties := by
  obtain ⟨r, p, found, settles, rejects⟩ :=
    rejects_of_finalized_bind Rejection.insolvent_apart rejects
  simp [rejects_bind, rejects_payout_insolvent found, Rejection.Insolvent, exactAdd_eq_ok]
    at rejects
  obtain ⟨unmoved, bounties, sum, short⟩ := rejects
  exact ⟨r, p, bounties, found, settles, unmoved, sum, short⟩

theorem dispatch_of_refusal {call : Call} {halt : Halt}
    (refused : h.plan ctx c.settlementGas call = .error halt) :
    (h.dispatch ctx c call).result = .error halt := by
  rw [dispatch, refused]

/-- Whatever a collaborator does not say is said by the rule of the call. -/
theorem rejects_dispatch {kind : Rejection → Prop} {call : Call}
    (own : ∀ error, ¬ kind (.external error)) :
    Rejects kind (h.dispatch ctx c call).result ↔
      Rejects kind (h.plan ctx c.settlementGas call) := by
  constructor
  · rintro ⟨rejection, rejected, said⟩
    rcases rejected_cases rejected with refused | ⟨_, _, error, -, -, rfl⟩
    · exact ⟨rejection, refused, said⟩
    · exact absurd said (own error)
  · rintro ⟨rejection, refused, said⟩
    exact ⟨rejection, dispatch_of_refusal refused, said⟩

/-- A solvent payout is made, or overflows the balance of the recipient. -/
theorem pays_or_overflows (recipient : Address) (fromDeposit : UInt64)
    (found : h.auction? id = some r) (solvent : fromProceeds ≤ r.proceeds) :
    (∃ payout, h.Pays r recipient fromProceeds fromDeposit payout) ∨
      h.payout id recipient fromProceeds fromDeposit = .error (.rejected .amountOverflow) ∧
        UInt64.size ≤
          (h.balance recipient).toNat + (fromProceeds.toNat + fromDeposit.toNat) := by
  by_cases fits :
      (h.balance recipient).toNat + (fromProceeds.toNat + fromDeposit.toNat) < UInt64.size
  · refine .inl ⟨⟨recipient, fromProceeds, fromDeposit, r.proceeds - fromProceeds, .ofNat _⟩,
      rfl, rfl, rfl, ?_, UInt64.toNat_ofNat_of_lt' fits⟩
    rw [UInt64.toNat_sub_of_le _ _ solvent]
    exact Nat.sub_add_cancel (UInt64.le_iff_toNat_le.mp solvent)
  · have overflow := Nat.le_of_not_lt fits
    refine .inr ⟨bind_eq_error_of_ok (requireAuction_eq_ok.mpr found)
      (ensure_bind_eq_error solvent ?_), overflow⟩
    cases sum : checkedAdd fromProceeds fromDeposit with
    | none => rfl
    | some credit =>
        rw [← checkedAdd_eq_some.mp sum] at overflow
        have room := checkedAdd_eq_none.mpr overflow
        exact bind_eq_error_of_ok (demand_eq_ok.mpr rfl)
          (bind_eq_error.mpr (.inl (demand_eq_error.mpr ⟨room, rfl⟩)))

theorem withdrawBid_paysOut {p : Proposal} {entropy : Word} {winners : List UInt32} {bid : Bid}
    (found : h.auction? id = some r)
    (g : r.Withdraws (h.ledger id) ctx encoding index p entropy winners bid)
    (solvent : bid.amount ≤ r.proceeds) :
    (h.dispatch ctx c (.withdrawBid id encoding index)).PaysOut (h.balance ctx.sender)
      bid.amount.toNat := by
  rcases pays_or_overflows ctx.sender 0 found solvent with
    ⟨payout, pays⟩ | ⟨refused, overflow⟩
  · exact .inl ⟨_, (dispatch_of_grants (.withdrawBid found g pays)).1, rfl⟩
  · refine .inr ⟨dispatch_of_refusal ?_, overflow⟩
    exact bind_eq_error_of_ok (finalWinners_eq_ok.mpr ⟨r, p, entropy, found, g.toReveals⟩)
      (bind_eq_error_of_ok (demand_eq_ok.mpr g.found)
      (ensure_bind_eq_error g.owner
      (ensure_bind_eq_error g.loser
      (ensure_bind_eq_error g.unprocessed
      (bind_eq_error.mpr (.inl refused))))))

theorem claimSnuffBounty_paysOut {p : Proposal} {snuff : Snuff} (found : h.auction? id = some r)
    (settles : r.Settles ctx.now p) (unclaimed : p.snuffBountyClaimed = false)
    (closed : r.snuff = some snuff) (solvent : p.snuffBounty ≤ r.proceeds) :
    (h.dispatch ctx c (.claimSnuffBounty id)).PaysOut (h.balance snuff.sender)
      p.snuffBounty.toNat := by
  rcases pays_or_overflows snuff.sender 0 found solvent with
    ⟨payout, pays⟩ | ⟨refused, overflow⟩
  · exact .inl
      ⟨_, (dispatch_of_grants (.claimSnuffBounty found settles unclaimed closed pays)).1, rfl⟩
  · refine .inr ⟨dispatch_of_refusal ?_, overflow⟩
    exact bind_eq_error_of_ok (finalized_eq_ok.mpr ⟨found, settles⟩)
      (ensure_bind_eq_error unclaimed
      (bind_eq_error_of_ok (demand_eq_ok.mpr closed)
      (bind_eq_error.mpr (.inl refused))))

theorem claimProposalBounty_paysOut {p : Proposal} (found : h.auction? id = some r)
    (settles : r.Settles ctx.now p) (unclaimed : p.proposalBountyClaimed = false)
    (solvent : p.proposalBounty ≤ r.proceeds) :
    (h.dispatch ctx c (.claimProposalBounty id)).PaysOut (h.balance p.proposer)
      (p.proposalBounty.toNat + p.deposit.toNat) := by
  rcases pays_or_overflows p.proposer p.deposit found solvent with
    ⟨payout, pays⟩ | ⟨refused, overflow⟩
  · have credited := pays.credited
    have fits := payout.balance.toNat_lt
    have paid := UInt64.toNat_ofNat_of_lt' (n := p.proposalBounty.toNat + p.deposit.toNat)
      (by simp only [UInt64.size]; omega)
    exact .inl
      ⟨_, (dispatch_of_grants (.claimProposalBounty found settles unclaimed pays paid)).1, paid⟩
  · refine .inr ⟨dispatch_of_refusal ?_, overflow⟩
    exact bind_eq_error_of_ok (finalized_eq_ok.mpr ⟨found, settles⟩)
      (ensure_bind_eq_error unclaimed (bind_eq_error.mpr (.inl refused)))

theorem transferProceeds_paysOut {p : Proposal} (found : h.auction? id = some r)
    (settles : r.Settles ctx.now p) (unmoved : r.fundsMoved = false)
    (covered : p.snuffBounty.toNat + p.proposalBounty.toNat ≤ p.total.toNat)
    (solvent : p.total.toNat - p.snuffBounty.toNat - p.proposalBounty.toNat ≤
      r.proceeds.toNat) :
    (h.dispatch ctx c (.transferProceeds id)).PaysOut (h.balance h.beneficiary)
      (p.total.toNat - p.snuffBounty.toNat - p.proposalBounty.toNat) := by
  have fits := Nat.lt_of_le_of_lt covered p.total.toNat_lt
  have sum := UInt64.toNat_ofNat_of_lt' fits
  generalize bounties : UInt64.ofNat (p.snuffBounty.toNat + p.proposalBounty.toNat) = both at sum
  have amount : (saturatingSub p.total both).toNat =
      p.total.toNat - p.snuffBounty.toNat - p.proposalBounty.toNat := by
    rw [saturatingSub_toNat, sum, Nat.sub_sub]
  have solvent : saturatingSub p.total both ≤ r.proceeds := by
    rwa [UInt64.le_iff_toNat_le, amount]
  rw [← amount]
  rcases pays_or_overflows h.beneficiary 0 found solvent with
    ⟨payout, pays⟩ | ⟨refused, overflow⟩
  · exact .inl
      ⟨_, (dispatch_of_grants (.transferProceeds found settles unmoved sum pays)).1, rfl⟩
  · refine .inr ⟨dispatch_of_refusal ?_, overflow⟩
    exact bind_eq_error_of_ok (finalized_eq_ok.mpr ⟨found, settles⟩)
      (ensure_bind_eq_error unmoved
      (bind_eq_error_of_ok (lift_eq_ok.mpr (exactAdd_eq_ok.mpr sum))
      (bind_eq_error.mpr (.inl refused))))

end House

end CandleAuction
