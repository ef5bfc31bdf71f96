import CandleAuction.Proofs.Rules.Bidding

/-!
# What valid settings can be computed with

The duration of valid settings is short and the snuff window is a part of it, so
the close instant is drawn without a fault and lies in the snuff window.
-/

namespace CandleAuction

theorem exactMul_eq_ok {x y z : UInt64} :
    exactMul x y = .ok z ↔ z.toNat = x.toNat * y.toNat := by
  unfold exactMul
  have hz := z.toNat_lt
  split
  · rename_i fits
    have product : (x * y).toNat = x.toNat * y.toNat := by
      rw [UInt64.toNat_mul, Nat.mod_eq_of_lt fits]
    rw [Except.ok.injEq, ← UInt64.toNat_inj, product, eq_comm]
  · rename_i large
    simp only [UInt64.size] at large
    refine iff_of_false nofun ?_
    omega

theorem exactMod_eq_ok {x y z : UInt64} (positive : y ≠ 0) :
    exactMod x y = .ok z ↔ x % y = z := by
  rw [exactMod, if_neg positive, Except.ok.injEq]

theorem exactAdd_eq_error {x y : UInt64} {fault : Fault} :
    exactAdd x y = .error fault ↔ fault = .addition ∧ UInt64.size ≤ x.toNat + y.toNat := by
  unfold exactAdd
  split
  · rename_i fits
    simp [Nat.not_le.mpr fits]
  · rename_i large
    simp [Nat.not_lt.mp large, eq_comm]

/-- The number that the first eight bytes of a word spell. -/
def Word.leading (word : Word) : UInt64 := UInt64.ofNat (Bytes.ofBigEndian (word.toList.take 8))

namespace Settings

variable {s : Settings}

theorem Valid.windowLength (valid : s.Valid) :
    ∃ length, s.windowLength = .ok length ∧
      length.toNat = s.duration.toNat * s.snuffPercent.toNat / 100 ∧
      length.toNat ≤ s.duration.toNat := by
  have percent : s.snuffPercent.toNat ≤ 100 := UInt8.le_iff_toNat_le.mp valid.percent_le
  have product := Nat.mul_le_mul_left s.duration.toNat percent
  have short := valid.duration_lt
  have fits : s.duration.toNat * s.snuffPercent.toUInt64.toNat < UInt64.size := by
    rw [UInt8.toNat_toUInt64]
    simp only [UInt32.size] at short
    simp only [UInt64.size]
    omega
  have multiplied := exactMul_eq_ok.mpr (UInt64.toNat_ofNat_of_lt' fits)
  refine ⟨_ / 100, by rw [Settings.windowLength, multiplied]; rfl, ?_⟩
  rw [UInt64.toNat_div, UInt64.toNat_ofNat_of_lt' fits, UInt8.toNat_toUInt64]
  change _ / 100 = _ ∧ _ / 100 ≤ _
  exact ⟨rfl, by omega⟩

theorem windowStart_eq_ok {length : UInt64} (window : s.windowLength = .ok length)
    (le : length.toNat ≤ s.duration.toNat) :
    ∃ opening, s.windowStart = .ok opening ∧
      opening.toNat = s.duration.toNat - length.toNat := by
  have difference := UInt64.toNat_sub_of_le _ _ (UInt64.le_iff_toNat_le.mpr le)
  refine ⟨_, ?_, difference⟩
  rw [windowStart, window]
  exact exactSub_eq_ok.mpr ⟨le, difference⟩

/-- The snuff window: it takes the stated share of the duration, rounded down, and ends at the
deadline. -/
structure Window (s : Settings) (opening length : UInt64) : Prop where
  starts : s.windowStart = .ok opening
  lasts : s.windowLength = .ok length
  share : length.toNat = s.duration.toNat * s.snuffPercent.toNat / 100
  ends : opening.toNat + length.toNat = s.duration.toNat

theorem Valid.exists_window (valid : s.Valid) : ∃ opening length, s.Window opening length := by
  obtain ⟨length, lasts, share, le⟩ := valid.windowLength
  obtain ⟨opening, starts, rest⟩ := windowStart_eq_ok lasts le
  exact ⟨opening, length, starts, lasts, share, by omega⟩

/-- The close instant is as far into the snuff window as the first eight bytes of the entropy
say, counted around the window. It fits into the timestamp of a bid. -/
theorem Window.closeOffset {opening length : UInt64} (window : s.Window opening length)
    (valid : s.Valid) (entropy : Word) :
    ∃ offset, s.closeOffset entropy = .ok offset ∧
      offset.toNat = opening.toNat + entropy.leading.toNat % (length.toNat + 1) ∧
      offset.toNat ≤ s.duration.toNat := by
  have short := valid.duration_lt
  have ends := window.ends
  have wide : UInt32.size < UInt64.size := by decide
  obtain ⟨instants, successor, count⟩ :
      ∃ instants, exactAdd length 1 = .ok instants ∧ instants.toNat = length.toNat + 1 := by
    have count : (UInt64.ofNat (length.toNat + 1)).toNat = length.toNat + 1 :=
      UInt64.toNat_ofNat_of_lt' (by omega)
    exact ⟨_, exactAdd_eq_ok.mpr count, count⟩
  have positive : instants ≠ 0 := UInt64.pos_iff_ne_zero.mp (count ▸ Nat.succ_pos _)
  have draw : (entropy.leading % instants).toNat =
      entropy.leading.toNat % (length.toNat + 1) := by rw [UInt64.toNat_mod, count]
  have within : entropy.leading.toNat % (length.toNat + 1) ≤ length.toNat :=
    Nat.le_of_lt_succ (Nat.mod_lt _ (Nat.succ_pos _))
  obtain ⟨offset, sum, total⟩ : ∃ offset, exactAdd opening (entropy.leading % instants) =
      .ok offset ∧ offset.toNat =
        opening.toNat + entropy.leading.toNat % (length.toNat + 1) := by
    have total := UInt64.toNat_ofNat_of_lt'
      (n := opening.toNat + entropy.leading.toNat % (length.toNat + 1)) (by omega)
    exact ⟨_, exactAdd_eq_ok.mpr (by rw [draw]; exact total), total⟩
  have fits : offset.toNat < UInt32.size := by omega
  have exact : offset.toUInt32.toNat = offset.toNat := by
    rw [UInt64.toNat_toUInt32, Nat.mod_eq_of_lt fits]
  refine ⟨offset.toUInt32, ?_, exact.trans total, by omega⟩
  rw [Word.leading] at sum
  simp only [Settings.closeOffset, window.lasts, successor, window.starts, bind, Except.bind,
    (exactMod_eq_ok positive).mpr rfl, sum, if_pos fits, pure, Except.pure]

/-- Whatever the entropy, the close instant falls between the opening of the snuff window and
the deadline, both included. -/
theorem Valid.closeOffset (valid : s.Valid) (entropy : Word) :
    ∃ opening offset, s.windowStart = .ok opening ∧ s.closeOffset entropy = .ok offset ∧
      opening.toNat ≤ offset.toNat ∧ offset.toNat ≤ s.duration.toNat := by
  obtain ⟨opening, length, window⟩ := valid.exists_window
  obtain ⟨offset, drawn, total, le⟩ := window.closeOffset valid entropy
  exact ⟨opening, offset, window.starts, drawn, total ▸ Nat.le_add_right _ _, le⟩

end Settings

end CandleAuction
