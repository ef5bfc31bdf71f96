import CandleAuction.House
import Mathlib.Algebra.BigOperators.Group.List.Basic
import Mathlib.Algebra.Order.Ring.Nat
import Mathlib.Data.List.Nodup

/-!
# Sums over a map

The value a house holds is spread over its rounds and balances. Setting one
entry of a map exchanges what that entry contributes to the sum over all.
-/

namespace CandleAuction

open Std (ExtTreeMap)

variable {Key Value : Type} [Ord Key] [Std.TransOrd Key] [Std.LawfulEqOrd Key]
  {m : ExtTreeMap Key Value} {key : Key} {v : Value}

/-- The sum of a number over all values of a map. -/
def mapTotal (value : Value → Nat) (m : ExtTreeMap Key Value) : Nat :=
  (m.toList.map fun entry => value entry.2).sum

theorem nodup_toList : m.toList.Nodup :=
  ExtTreeMap.distinct_keys_toList.imp fun distinct same =>
    distinct (Std.LawfulEqCmp.compare_eq_iff_eq.mpr (congrArg Prod.fst same))

theorem toList_insert_perm (absent : m[key]? = none) :
    (m.insert key v).toList.Perm ((key, v) :: m.toList) := by
  have fresh : (key, v) ∉ m.toList := by
    rw [ExtTreeMap.mem_toList_iff_getElem?_eq_some, absent]
    simp
  have nodup := List.nodup_cons.mpr ⟨fresh, nodup_toList⟩
  apply (List.perm_ext_iff_of_nodup nodup_toList nodup).mpr
  rintro ⟨other, w⟩
  rw [List.mem_cons, ExtTreeMap.mem_toList_iff_getElem?_eq_some,
    ExtTreeMap.mem_toList_iff_getElem?_eq_some, ExtTreeMap.getElem?_insert, Prod.mk.injEq]
  split
  · rename_i same
    rw [← Std.LawfulEqCmp.compare_eq_iff_eq.mp same]
    simp [absent, eq_comm]
  · rename_i ne
    have ne : other ≠ key := fun same => ne (same ▸ Std.ReflCmp.compare_self)
    simp [ne]

theorem mapTotal_insert_of_absent (value : Value → Nat) (v : Value) (absent : m[key]? = none) :
    mapTotal value (m.insert key v) = mapTotal value m + value v := by
  rw [mapTotal, ((toList_insert_perm absent).map _).sum_eq]
  simp [mapTotal, Nat.add_comm]

theorem insert_eq_self (found : m[key]? = some v) : m.insert key v = m := by
  refine ExtTreeMap.ext_getElem? fun other => ?_
  rw [ExtTreeMap.getElem?_insert]
  split
  · rename_i same
    rw [← Std.LawfulEqCmp.compare_eq_iff_eq.mp same, found]
  · rfl

theorem insert_erase : (m.erase key).insert key v = m.insert key v := by
  refine ExtTreeMap.ext_getElem? fun other => ?_
  simp only [ExtTreeMap.getElem?_insert, ExtTreeMap.getElem?_erase]
  split <;> rfl

theorem mapTotal_insert (value : Value → Nat) (m : ExtTreeMap Key Value) (key : Key) (v : Value) :
    mapTotal value (m.insert key v) + m[key]?.elim 0 value = mapTotal value m + value v := by
  cases found : m[key]? with
  | none => rw [mapTotal_insert_of_absent value v found, Option.elim_none, Nat.add_zero]
  | some old =>
      have erased : (m.erase key)[key]? = none := ExtTreeMap.getElem?_erase_self
      have after : mapTotal value (m.insert key v) = mapTotal value (m.erase key) + value v := by
        rw [← insert_erase, mapTotal_insert_of_absent value v erased]
      have before : mapTotal value m = mapTotal value (m.erase key) + value old := by
        rw [← mapTotal_insert_of_absent value old erased, insert_erase, insert_eq_self found]
      rw [after, before, Option.elim_some]
      omega

end CandleAuction
