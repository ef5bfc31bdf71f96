import CandleAuction.Bounty

/-!
# How much the bounties can take

The products that size a bounty may saturate, but a saturated product is capped
all the same, so the bounties are what unbounded numbers give. Both together are
paid out of the excess over the floor: the snuffer gets at most half of it and
the proposer at most the rest, and a larger total lowers nobody's share.
-/

namespace CandleAuction.Bounties

variable (s : Settings) (minBid gasPrice gas total larger : UInt64)

/-- What the full number of minimum bids raises, however much that is. -/
def fullFloor (s : Settings) (minBid : UInt64) : Nat := s.maxWinners.toNat * minBid.toNat

/-- What a bounty for some gas aims at, however much that is. -/
def fullTarget (s : Settings) (gasPrice gas : UInt64) : Nat :=
  gas.toNat * gasPrice.toNat * s.bountyMultiplier.toNat

theorem toNat_min (x y : UInt64) : (min x y).toNat = min x.toNat y.toNat := by
  simp only [Std.min_eq_if, UInt64.le_iff_toNat_le]
  split <;> rfl

/-- The target saturates as a whole: a first product that saturates is lost only if the
multiplier is zero. -/
theorem target_toNat :
    (target s gasPrice gas).toNat = min (fullTarget s gasPrice gas) (UInt64.size - 1) := by
  rw [target, saturatingMul_toNat, saturatingMul_toNat, fullTarget]
  generalize gas.toNat * gasPrice.toNat = cost
  generalize s.bountyMultiplier.toNat = multiplier
  cases multiplier with
  | zero => simp
  | succ multiplier =>
      rcases Nat.le_total cost (UInt64.size - 1) with fits | large
      · rw [Nat.min_eq_left fits]
      · have full := Nat.le_mul_of_pos_right (UInt64.size - 1) multiplier.succ_pos
        have more := Nat.le_mul_of_pos_right cost multiplier.succ_pos
        rw [Nat.min_eq_right large, Nat.min_eq_right full,
          Nat.min_eq_right (Nat.le_trans large more)]

theorem excess_toNat :
    (saturatingSub total (floor s minBid)).toNat = total.toNat - fullFloor s minBid := by
  have bound := total.toNat_lt
  rw [saturatingSub_toNat, floor, saturatingMul_toNat, UInt32.toNat_toUInt64, fullFloor]
  simp only [UInt64.size]
  omega

theorem ofTotal_toNat :
    (ofTotal s minBid gasPrice total).snuff.toNat =
        min (fullTarget s gasPrice s.snuffGas) ((total.toNat - fullFloor s minBid) / 2) ∧
      (ofTotal s minBid gasPrice total).proposal.toNat =
        min (fullTarget s gasPrice s.proposalGas) (total.toNat - fullFloor s minBid -
          (ofTotal s minBid gasPrice total).snuff.toNat) := by
  rw [← excess_toNat]
  generalize excess : saturatingSub total (floor s minBid) = rest
  have bound := rest.toNat_lt
  simp only [ofTotal, excess]
  split
  · rename_i zero
    rw [zero]
    exact ⟨(Nat.min_zero _).symm, (Nat.min_zero _).symm⟩
  · have half : (rest / 2).toNat = rest.toNat / 2 := UInt64.toNat_div rest 2
    have snuff : (min (target s gasPrice s.snuffGas) (rest / 2)).toNat =
        min (fullTarget s gasPrice s.snuffGas) (rest.toNat / 2) := by
      rw [toNat_min, target_toNat, half]
      simp only [UInt64.size]
      omega
    have le : min (target s gasPrice s.snuffGas) (rest / 2) ≤ rest := by
      rw [UInt64.le_iff_toNat_le, snuff]
      omega
    refine ⟨snuff, ?_⟩
    rw [toNat_min, target_toNat, UInt64.toNat_sub_of_le _ _ le]
    simp only [UInt64.size]
    omega

theorem ofTotal_le_full :
    (ofTotal s minBid gasPrice total).snuff.toNat +
        (ofTotal s minBid gasPrice total).proposal.toNat ≤
      total.toNat - fullFloor s minBid := by
  obtain ⟨snuff, proposal⟩ := ofTotal_toNat s minBid gasPrice total
  omega

theorem ofTotal_le_excess :
    (ofTotal s minBid gasPrice total).snuff.toNat +
        (ofTotal s minBid gasPrice total).proposal.toNat ≤
      total.toNat - (floor s minBid).toNat := by
  rw [← saturatingSub_toNat, excess_toNat]
  exact ofTotal_le_full s minBid gasPrice total

theorem ofTotal_le_total :
    (ofTotal s minBid gasPrice total).snuff.toNat +
      (ofTotal s minBid gasPrice total).proposal.toNat ≤ total.toNat :=
  Nat.le_trans (ofTotal_le_excess s minBid gasPrice total) (Nat.sub_le _ _)

theorem ofTotal_eq_none {total : UInt64} (short : total.toNat ≤ fullFloor s minBid) :
    ofTotal s minBid gasPrice total = none := by
  have excess := excess_toNat s minBid total
  have zero : saturatingSub total (floor s minBid) = 0 := by
    rw [← UInt64.toNat_inj, excess, UInt64.toNat_zero]
    exact Nat.sub_eq_zero_of_le short
  rw [ofTotal, if_pos zero]

theorem exists_total :
    ∃ sum, (ofTotal s minBid gasPrice total).total = .ok sum ∧
      sum.toNat = (ofTotal s minBid gasPrice total).snuff.toNat +
        (ofTotal s minBid gasPrice total).proposal.toNat := by
  have le := ofTotal_le_total s minBid gasPrice total
  have sum := UInt64.toNat_ofNat_of_lt' (Nat.lt_of_le_of_lt le total.toNat_lt)
  exact ⟨_, exactAdd_eq_ok.mpr sum, sum⟩

/-- What both bounties leave of a total. -/
def remainder (s : Settings) (minBid gasPrice total : UInt64) : Nat :=
  total.toNat - (ofTotal s minBid gasPrice total).snuff.toNat -
    (ofTotal s minBid gasPrice total).proposal.toNat

theorem min_mono {whole more : Nat} (le : whole ≤ more) (cap : Nat) :
    min cap whole ≤ min cap more ∧ whole - min cap whole ≤ more - min cap more := by
  omega

theorem min_half_mono {whole more : Nat} (le : whole ≤ more) (cap : Nat) :
    min cap (whole / 2) ≤ min cap (more / 2) ∧
      whole - min cap (whole / 2) ≤ more - min cap (more / 2) := by
  omega

/-- Out of a larger total nobody gets less. What is not spent on the snuffer grows with the
total, so the rest that caps the proposer does not shrink. -/
theorem ofTotal_mono {total larger : UInt64} (le : total ≤ larger) :
    (ofTotal s minBid gasPrice total).snuff ≤ (ofTotal s minBid gasPrice larger).snuff ∧
      (ofTotal s minBid gasPrice total).proposal ≤ (ofTotal s minBid gasPrice larger).proposal ∧
      remainder s minBid gasPrice total ≤ remainder s minBid gasPrice larger := by
  obtain ⟨snuff, proposal⟩ := ofTotal_toNat s minBid gasPrice total
  obtain ⟨snuff', proposal'⟩ := ofTotal_toNat s minBid gasPrice larger
  have spent := ofTotal_le_full s minBid gasPrice total
  have spent' := ofTotal_le_full s minBid gasPrice larger
  rw [UInt64.le_iff_toNat_le] at le
  have excess : total.toNat - fullFloor s minBid ≤ larger.toNat - fullFloor s minBid :=
    Nat.sub_le_sub_right le _
  have snuffs := min_half_mono excess (fullTarget s gasPrice s.snuffGas)
  rw [← snuff, ← snuff'] at snuffs
  have proposals := min_mono snuffs.2 (fullTarget s gasPrice s.proposalGas)
  rw [← proposal, ← proposal'] at proposals
  clear snuff snuff' proposal proposal'
  refine ⟨UInt64.le_iff_toNat_le.mpr snuffs.1, UInt64.le_iff_toNat_le.mpr proposals.1, ?_⟩
  rw [remainder, remainder]
  omega

/-- Whatever the settings, prices and totals are, the snuff bounty is the smaller of its target
and half the excess over the floor, the proposal bounty the smaller of its target and what is
left of the excess. So their sum fits, what the winners raise is spent on bounties only as far
as it exceeds the floor, and out of a larger total nobody gets less. -/
theorem bounties_spare_floor :
    (ofTotal s minBid gasPrice total).snuff.toNat =
        min (fullTarget s gasPrice s.snuffGas) ((total.toNat - fullFloor s minBid) / 2) ∧
      (ofTotal s minBid gasPrice total).proposal.toNat =
        min (fullTarget s gasPrice s.proposalGas) (total.toNat - fullFloor s minBid -
          (ofTotal s minBid gasPrice total).snuff.toNat) ∧
      (ofTotal s minBid gasPrice total).snuff.toNat +
          (ofTotal s minBid gasPrice total).proposal.toNat ≤ total.toNat - fullFloor s minBid ∧
      (total.toNat ≤ fullFloor s minBid → ofTotal s minBid gasPrice total = none) ∧
      (∃ sum, (ofTotal s minBid gasPrice total).total = .ok sum ∧
        remainder s minBid gasPrice total = total.toNat - sum.toNat) ∧
      min total.toNat (fullFloor s minBid) ≤ remainder s minBid gasPrice total ∧
      (total ≤ larger →
        (ofTotal s minBid gasPrice total).snuff ≤ (ofTotal s minBid gasPrice larger).snuff ∧
        (ofTotal s minBid gasPrice total).proposal ≤
          (ofTotal s minBid gasPrice larger).proposal ∧
        remainder s minBid gasPrice total ≤ remainder s minBid gasPrice larger) := by
  obtain ⟨snuff, proposal⟩ := ofTotal_toNat s minBid gasPrice total
  have le := ofTotal_le_full s minBid gasPrice total
  obtain ⟨sum, added, exact⟩ := exists_total s minBid gasPrice total
  refine ⟨snuff, proposal, le,
    ofTotal_eq_none s minBid gasPrice, ⟨sum, added, ?_⟩, ?_, ofTotal_mono s minBid gasPrice⟩
  · rw [remainder, exact, Nat.sub_sub]
  · rw [remainder]
    omega

/-- At the highest gas price all targets saturate: nothing is paid out of the floor of 32 bids,
and 1001 over it are split between both bounties. -/
theorem bounties_spare_floor_saturated :
    UInt64.toNat 32000 ≤ fullFloor .standard 1000 ∧ (32000 : UInt64) ≤ 33001 ∧
      UInt64.size ≤ fullTarget .standard (UInt64.ofNat (UInt64.size - 1)) 150000 ∧
      ofTotal .standard 1000 (UInt64.ofNat (UInt64.size - 1)) 32000 = none ∧
      ofTotal .standard 1000 (UInt64.ofNat (UInt64.size - 1)) 33001 = ⟨500, 501⟩ ∧
      remainder .standard 1000 (UInt64.ofNat (UInt64.size - 1)) 32000 ≤
        remainder .standard 1000 (UInt64.ofNat (UInt64.size - 1)) 33001 := by
  have short : UInt64.toNat 32000 ≤ fullFloor .standard 1000 := by decide
  have le : (32000 : UInt64) ≤ 33001 := by decide
  obtain ⟨-, -, -, nothing, -, -, mono⟩ :=
    bounties_spare_floor .standard 1000 (UInt64.ofNat (UInt64.size - 1)) 32000 33001
  exact ⟨short, le, by decide, nothing short, by decide, (mono le).2.2⟩

end CandleAuction.Bounties
