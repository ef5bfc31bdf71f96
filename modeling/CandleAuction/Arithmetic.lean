/-!
# Word arithmetic

Amounts and times are 64-bit words. Three readings of an operation are used:
checked (no value when the result does not fit), saturating (the nearest
value that fits), and exact, which stops the computation with a fault.
-/

namespace CandleAuction

/-- Why a computation stopped. -/
inductive Fault
  | addition
  | subtraction
  | multiplication
  | remainder
  deriving DecidableEq, Repr

def Fault.message : Fault → String
  | .addition => "attempt to add with overflow"
  | .subtraction => "attempt to subtract with overflow"
  | .multiplication => "attempt to multiply with overflow"
  | .remainder => "attempt to calculate the remainder with a divisor of zero"

def checkedAdd (x y : UInt64) : Option UInt64 :=
  if x.toNat + y.toNat < UInt64.size then some (x + y) else none

def saturatingAdd (x y : UInt64) : UInt64 :=
  UInt64.ofNat (min (x.toNat + y.toNat) (UInt64.size - 1))

def saturatingSub (x y : UInt64) : UInt64 :=
  UInt64.ofNat (x.toNat - y.toNat)

def saturatingMul (x y : UInt64) : UInt64 :=
  UInt64.ofNat (min (x.toNat * y.toNat) (UInt64.size - 1))

def exactAdd (x y : UInt64) : Except Fault UInt64 :=
  if x.toNat + y.toNat < UInt64.size then .ok (x + y) else .error .addition

def exactSub (x y : UInt64) : Except Fault UInt64 :=
  if y ≤ x then .ok (x - y) else .error .subtraction

def exactMul (x y : UInt64) : Except Fault UInt64 :=
  if x.toNat * y.toNat < UInt64.size then .ok (x * y) else .error .multiplication

def exactMod (x y : UInt64) : Except Fault UInt64 :=
  if y = 0 then .error .remainder else .ok (x % y)

/-- The next counter value. -/
def exactSucc (x : UInt32) : Except Fault UInt32 :=
  if x.toNat + 1 < UInt32.size then .ok (x + 1) else .error .addition

theorem checkedAdd_eq_some {x y z : UInt64} :
    checkedAdd x y = some z ↔ z.toNat = x.toNat + y.toNat := by
  unfold checkedAdd
  have hz := z.toNat_lt
  split
  · rename_i fits
    have sum : (x + y).toNat = x.toNat + y.toNat := by
      rw [UInt64.toNat_add, Nat.mod_eq_of_lt fits]
    constructor
    · rintro ⟨⟩
      exact sum
    · intro equal
      rw [Option.some.injEq, ← UInt64.toNat_inj, sum, equal]
  · rename_i large
    constructor
    · rintro ⟨⟩
    · intro equal
      simp only [UInt64.size] at large
      omega

theorem exactAdd_eq_ok {x y z : UInt64} :
    exactAdd x y = .ok z ↔ z.toNat = x.toNat + y.toNat := by
  rw [← checkedAdd_eq_some]
  unfold exactAdd checkedAdd
  split <;> simp

theorem exactSucc_eq_ok {x y : UInt32} : exactSucc x = .ok y ↔ y.toNat = x.toNat + 1 := by
  unfold exactSucc
  have hy := y.toNat_lt
  split
  · rename_i fits
    have sum : (x + 1).toNat = x.toNat + 1 := by
      rw [UInt32.toNat_add, UInt32.toNat_one, Nat.mod_eq_of_lt fits]
    rw [Except.ok.injEq, ← UInt32.toNat_inj, sum, eq_comm]
  · rename_i large
    simp only [UInt32.size] at large
    refine iff_of_false nofun ?_
    omega

theorem exactSub_eq_ok {x y z : UInt64} :
    exactSub x y = .ok z ↔ y.toNat ≤ x.toNat ∧ z.toNat = x.toNat - y.toNat := by
  unfold exactSub
  split
  · rename_i le
    have difference := UInt64.toNat_sub_of_le x y le
    have le := UInt64.le_iff_toNat_le.mp le
    simp only [Except.ok.injEq, ← UInt64.toNat_inj, difference, le, true_and, eq_comm]
  · rename_i gt
    rw [UInt64.le_iff_toNat_le] at gt
    simp [gt]

@[simp]
theorem saturatingSub_toNat (x y : UInt64) :
    (saturatingSub x y).toNat = x.toNat - y.toNat := by
  have := x.toNat_lt
  rw [saturatingSub, UInt64.toNat_ofNat_of_lt' (by simp only [UInt64.size]; omega)]

@[simp]
theorem saturatingMul_toNat (x y : UInt64) :
    (saturatingMul x y).toNat = min (x.toNat * y.toNat) (UInt64.size - 1) := by
  rw [saturatingMul, UInt64.toNat_ofNat_of_lt' (by simp only [UInt64.size]; omega)]

@[simp]
theorem saturatingAdd_toNat (x y : UInt64) :
    (saturatingAdd x y).toNat = min (x.toNat + y.toNat) (UInt64.size - 1) := by
  rw [saturatingAdd, UInt64.toNat_ofNat_of_lt' (by simp only [UInt64.size]; omega)]

end CandleAuction
