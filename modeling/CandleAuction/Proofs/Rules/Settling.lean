import CandleAuction.Proofs.Rules.Bidding
import CandleAuction.Rules.Settling

/-!
# When a final round pays

Every settlement needs the final phase and the proposal that made it so. Items
and refunds also need the committed list. A payout is made if the round holds
what is asked of its proceeds and the recipient's balance has room.
-/

namespace CandleAuction

open Ruling

namespace Auction

/-- The live proposal of a round is final. -/
structure Settles (r : Auction) (now : UInt64) (p : Proposal) : Prop where
  final : r.phaseAt now = .ok .finalized
  live : r.proposal = some p

/-- The list behind the commitment of a final proposal is resubmitted. -/
structure Reveals (r : Auction) (now : UInt64) (encoding : List UInt8) (p : Proposal)
    (entropy : Word) (winners : List UInt32) : Prop extends r.Settles now p where
  drawn : r.entropy = some entropy
  opened : commitment encoding entropy = p.commitment
  listed : r.settings.indexWidth.unpack encoding = .ok winners

/-- A winner's item may be settled. -/
structure Claims (r : Auction) (bids : Ledger) (now : UInt64) (encoding : List UInt8)
    (position : UInt32) (p : Proposal) (entropy : Word) (winners : List UInt32) (index : UInt32)
    (bid : Bid) : Prop extends r.Reveals now encoding p entropy winners where
  winner : winners[position.toNat]? = some index
  found : bids[index.toNat]? = some bid
  unprocessed : bid.processed = false

/-- A loser may have its bid back. -/
structure Withdraws (r : Auction) (bids : Ledger) (ctx : Context) (encoding : List UInt8)
    (index : UInt32) (p : Proposal) (entropy : Word) (winners : List UInt32) (bid : Bid) :
    Prop extends r.Reveals ctx.now encoding p entropy winners where
  found : bids[index.toNat]? = some bid
  owner : bid.bidder = ctx.sender
  loser : index ∉ winners
  unprocessed : bid.processed = false

end Auction

namespace House

variable {h : House} {ctx : Context} {now id : UInt64} {plan : Plan} {encoding : List UInt8}

/-- A payout out of a round's proceeds and its deposit that both sides have room for. -/
structure Pays (h : House) (r : Auction) (recipient : Address)
    (fromProceeds fromDeposit : UInt64) (payout : Payout) : Prop where
  payee : payout.recipient = recipient
  pooled : payout.fromProceeds = fromProceeds
  bonded : payout.fromDeposit = fromDeposit
  rest : payout.proceeds.toNat + fromProceeds.toNat = r.proceeds.toNat
  credited : payout.balance.toNat =
    (h.balance recipient).toNat + (fromProceeds.toNat + fromDeposit.toNat)

theorem finalized_eq_ok {r : Auction} {p : Proposal} :
    h.finalized now id = .ok (r, p) ↔ h.auction? id = some r ∧ r.Settles now p := by
  simp only [finalized, bind_eq_ok, requireAuction_eq_ok, Auction.requirePhase_eq_ok,
    demand_eq_ok, exists_const, pure, Except.pure, Except.ok.injEq, Prod.mk.injEq]
  constructor
  · intro accepted
    rcases accepted with ⟨_, found, final, _, live, rfl, rfl⟩
    exact ⟨found, final, live⟩
  · intro conditions
    rcases conditions with ⟨found, final, live⟩
    exact ⟨r, found, final, p, live, rfl, rfl⟩

theorem finalWinners_eq_ok {winners : List UInt32} :
    h.finalWinners now id encoding = .ok winners ↔
      ∃ r p entropy, h.auction? id = some r ∧ r.Reveals now encoding p entropy winners := by
  simp only [finalWinners, bind_eq_ok, Prod.exists, finalized_eq_ok, demand_eq_ok, ensure_eq_ok,
    decoded_eq_ok, opens, decide_eq_true_eq, exists_const]
  constructor
  · intro accepted
    rcases accepted with ⟨r, p, ⟨found, settles⟩, entropy, drawn, opened, listed⟩
    exact ⟨r, p, entropy, found, settles, drawn, opened, listed⟩
  · intro conditions
    rcases conditions with ⟨r, p, entropy, found, g⟩
    exact ⟨r, p, ⟨found, g.toSettles⟩, entropy, g.drawn, g.opened, g.listed⟩

theorem payout_eq_ok {recipient : Address} {fromProceeds fromDeposit : UInt64}
    {payout : Payout} :
    h.payout id recipient fromProceeds fromDeposit = .ok payout ↔
      ∃ r, h.auction? id = some r ∧ h.Pays r recipient fromProceeds fromDeposit payout := by
  simp only [House.payout, bind_eq_ok, requireAuction_eq_ok, ensure_eq_ok, demand_eq_ok,
    checkedAdd_eq_some, exists_const, pure, Except.pure, Except.ok.injEq]
  refine exists_congr fun r => and_congr_right fun _ => ?_
  constructor
  · intro accepted
    rcases accepted with ⟨solvent, credit, sum, balance, credited, rfl⟩
    refine ⟨rfl, rfl, rfl, ?_, by rw [credited, sum]⟩
    rw [UInt64.toNat_sub_of_le _ _ solvent]
    exact Nat.sub_add_cancel (UInt64.le_iff_toNat_le.mp solvent)
  · intro conditions
    rcases conditions with ⟨rfl, rfl, rfl, rest, credited⟩
    have solvent : payout.fromProceeds ≤ r.proceeds := by
      rw [UInt64.le_iff_toNat_le]
      omega
    have sum := UInt64.toNat_ofNat_of_lt'
      (n := payout.fromProceeds.toNat + payout.fromDeposit.toNat) (by
        have := payout.balance.toNat_lt
        simp only [UInt64.size]
        omega)
    refine ⟨solvent, _, sum, payout.balance, by rw [credited, sum], ?_⟩
    have remaining : r.proceeds - payout.fromProceeds = payout.proceeds := by
      rw [← UInt64.toNat_inj, UInt64.toNat_sub_of_le _ _ solvent]
      omega
    rw [remaining]

theorem claimWinningBid_eq_ok {position : UInt32} :
    h.claimWinningBid ctx id encoding position = .ok plan ↔
      ∃ r p entropy winners index bid, h.auction? id = some r ∧
        r.Claims (h.ledger id) ctx.now encoding position p entropy winners index bid ∧
        plan = .ask (.settle bid.bidder (Seed.item entropy index)) fun item =>
          match exactSucc r.claimedWinners with
          | .ok count => ⟨[.claimed id index item bid.bidder count], .ok (.itemSettled item)⟩
          | .error fault => ⟨[], .error fault⟩ := by
  simp only [claimWinningBid, bind_eq_ok, finalWinners_eq_ok, demand_eq_ok, ensure_eq_ok, bid?,
    requireAuction_eq_ok, exists_const, pure, Except.pure, Except.ok.injEq]
  constructor
  · intro accepted
    rcases accepted with
      ⟨winners, ⟨r, p, entropy, found, reveals⟩, index, winner, bid, entry, unprocessed, same,
        again, drawn, redrawn, rfl⟩
    cases found.symm.trans again
    cases reveals.drawn.symm.trans redrawn
    exact ⟨r, p, entropy, winners, index, bid, found, ⟨reveals, winner, entry, unprocessed⟩, rfl⟩
  · intro conditions
    rcases conditions with ⟨r, p, entropy, winners, index, bid, found, g, rfl⟩
    exact ⟨winners, ⟨r, p, entropy, found, g.toReveals⟩, index, g.winner, bid, g.found,
      g.unprocessed, r, found, entropy, g.drawn, rfl⟩

theorem withdrawBid_eq_ok {index : UInt32} :
    h.withdrawBid ctx id encoding index = .ok plan ↔
      ∃ r p entropy winners bid payout, h.auction? id = some r ∧
        r.Withdraws (h.ledger id) ctx encoding index p entropy winners bid ∧
        h.Pays r ctx.sender bid.amount 0 payout ∧
        plan = .change (.withdrawn id index payout) (.paid bid.amount) := by
  simp only [withdrawBid, bind_eq_ok, finalWinners_eq_ok, demand_eq_ok, ensure_eq_ok, bid?,
    payout_eq_ok, exists_const, pure, Except.pure, Except.ok.injEq]
  constructor
  · intro accepted
    rcases accepted with
      ⟨winners, ⟨r, p, entropy, found, reveals⟩, bid, entry, owner, loser, unprocessed, payout,
        ⟨same, again, pays⟩, rfl⟩
    cases found.symm.trans again
    exact ⟨r, p, entropy, winners, bid, payout, found,
      ⟨reveals, entry, owner, loser, unprocessed⟩, pays, rfl⟩
  · intro conditions
    rcases conditions with ⟨r, p, entropy, winners, bid, payout, found, g, pays, rfl⟩
    exact ⟨winners, ⟨r, p, entropy, found, g.toReveals⟩, bid, g.found, g.owner, g.loser,
      g.unprocessed, payout, ⟨r, found, pays⟩, rfl⟩

theorem claimSnuffBounty_eq_ok :
    h.claimSnuffBounty ctx id = .ok plan ↔
      ∃ r p snuff payout, h.auction? id = some r ∧ r.Settles ctx.now p ∧
        p.snuffBountyClaimed = false ∧ r.snuff = some snuff ∧
        h.Pays r snuff.sender p.snuffBounty 0 payout ∧
        plan = .change (.snuffBountyPaid id payout) (.paid p.snuffBounty) := by
  simp only [claimSnuffBounty, bind_eq_ok, Prod.exists, finalized_eq_ok, demand_eq_ok,
    ensure_eq_ok, payout_eq_ok, exists_const, pure, Except.pure, Except.ok.injEq]
  constructor
  · intro accepted
    rcases accepted with
      ⟨r, p, ⟨found, settles⟩, unclaimed, snuff, closed, payout, ⟨same, again, pays⟩, rfl⟩
    cases found.symm.trans again
    exact ⟨r, p, snuff, payout, found, settles, unclaimed, closed, pays, rfl⟩
  · intro conditions
    rcases conditions with ⟨r, p, snuff, payout, found, settles, unclaimed, closed, pays, rfl⟩
    exact ⟨r, p, ⟨found, settles⟩, unclaimed, snuff, closed, payout, ⟨r, found, pays⟩, rfl⟩

theorem claimProposalBounty_eq_ok :
    h.claimProposalBounty ctx id = .ok plan ↔
      ∃ r p payout paid, h.auction? id = some r ∧ r.Settles ctx.now p ∧
        p.proposalBountyClaimed = false ∧
        h.Pays r p.proposer p.proposalBounty p.deposit payout ∧
        UInt64.toNat paid = p.proposalBounty.toNat + p.deposit.toNat ∧
        plan = .change (.proposalBountyPaid id payout) (.paid paid) := by
  simp only [claimProposalBounty, bind_eq_ok, Prod.exists, finalized_eq_ok, ensure_eq_ok,
    payout_eq_ok, lift_eq_ok, exactAdd_eq_ok, exists_const, pure, Except.pure, Except.ok.injEq]
  constructor
  · intro accepted
    rcases accepted with
      ⟨r, p, ⟨found, settles⟩, unclaimed, payout, ⟨same, again, pays⟩, paid, sum, rfl⟩
    cases found.symm.trans again
    exact ⟨r, p, payout, paid, found, settles, unclaimed, pays, sum, rfl⟩
  · intro conditions
    rcases conditions with ⟨r, p, payout, paid, found, settles, unclaimed, pays, sum, rfl⟩
    exact ⟨r, p, ⟨found, settles⟩, unclaimed, payout, ⟨r, found, pays⟩, paid, sum, rfl⟩

theorem transferProceeds_eq_ok :
    h.transferProceeds ctx id = .ok plan ↔
      ∃ r p bounties payout, h.auction? id = some r ∧ r.Settles ctx.now p ∧
        r.fundsMoved = false ∧
        UInt64.toNat bounties = p.snuffBounty.toNat + p.proposalBounty.toNat ∧
        h.Pays r h.beneficiary (saturatingSub p.total bounties) 0 payout ∧
        plan = .change (.proceedsMoved id payout) (.paid (saturatingSub p.total bounties)) := by
  simp only [transferProceeds, bind_eq_ok, Prod.exists, finalized_eq_ok, ensure_eq_ok,
    payout_eq_ok, lift_eq_ok, exactAdd_eq_ok, exists_const, pure, Except.pure, Except.ok.injEq]
  constructor
  · intro accepted
    rcases accepted with
      ⟨r, p, ⟨found, settles⟩, unmoved, bounties, sum, payout, ⟨same, again, pays⟩, rfl⟩
    cases found.symm.trans again
    exact ⟨r, p, bounties, payout, found, settles, unmoved, sum, pays, rfl⟩
  · intro conditions
    rcases conditions with ⟨r, p, bounties, payout, found, settles, unmoved, sum, pays, rfl⟩
    exact ⟨r, p, ⟨found, settles⟩, unmoved, bounties, sum, payout, ⟨r, found, pays⟩, rfl⟩

end House

end CandleAuction
