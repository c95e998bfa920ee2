import Mathlib.Algebra.Group.Nat.Defs
import Mathlib.Tactic.Common

/-!
# Sixty-four bit unsigned arithmetic

`+` on `UInt64` wraps. The checked and saturating forms below read as
truncated or partial operations on the represented naturals.
-/

namespace SilkChiffon.Machine

def saturatingSub (a b : UInt64) : UInt64 := if b ≤ a then a - b else 0

def saturatingAdd (a b : UInt64) : UInt64 :=
  if a.toNat + b.toNat < 18446744073709551616 then a + b else 18446744073709551615

def saturatingMul (a b : UInt64) : UInt64 :=
  if a.toNat * b.toNat < 18446744073709551616 then a * b else 18446744073709551615

def checkedSub (a b : UInt64) : Option UInt64 := if b ≤ a then some (a - b) else none

def checkedDiv (a b : UInt64) : Option UInt64 := if b = 0 then none else some (a / b)

theorem toNat_add_of_lt {a b : UInt64} (h : a.toNat + b.toNat < 2 ^ 64) :
    (a + b).toNat = a.toNat + b.toNat := by
  rw [UInt64.toNat_add, Nat.mod_eq_of_lt h]

theorem toNat_add_of_ge {a b : UInt64} (h : 2 ^ 64 ≤ a.toNat + b.toNat) :
    (a + b).toNat = a.toNat + b.toNat - 2 ^ 64 := by
  have ha := a.toNat_lt
  have hb := b.toNat_lt
  rw [UInt64.toNat_add, Nat.mod_eq_sub_mod h, Nat.mod_eq_of_lt (by omega)]

@[simp] theorem toNat_saturatingSub (a b : UInt64) :
    (saturatingSub a b).toNat = a.toNat - b.toNat := by
  unfold saturatingSub
  split
  · rename_i h
    exact UInt64.toNat_sub_of_le _ _ h
  · rename_i h
    have := UInt64.le_iff_toNat_le.not.mp h
    simp
    omega

@[simp] theorem toNat_saturatingAdd (a b : UInt64) :
    (saturatingAdd a b).toNat = min (a.toNat + b.toNat) 18446744073709551615 := by
  unfold saturatingAdd
  split
  · rename_i h
    rw [toNat_add_of_lt h, Nat.min_eq_left (by omega)]
  · rename_i h
    rw [Nat.min_eq_right (by omega)]
    rfl

@[simp] theorem toNat_saturatingMul (a b : UInt64) :
    (saturatingMul a b).toNat = min (a.toNat * b.toNat) 18446744073709551615 := by
  unfold saturatingMul
  split
  · rename_i h
    rw [UInt64.toNat_mul, Nat.mod_eq_of_lt h, Nat.min_eq_left (by omega)]
  · rename_i h
    rw [Nat.min_eq_right (by omega)]
    rfl

theorem checkedSub_eq_some {a b c : UInt64} :
    checkedSub a b = some c ↔ c.toNat + b.toNat = a.toNat := by
  unfold checkedSub
  split
  · rename_i h
    have hs := UInt64.toNat_sub_of_le _ _ h
    have hle := UInt64.le_iff_toNat_le.mp h
    simp only [Option.some.injEq, ← UInt64.toNat_inj]
    omega
  · rename_i h
    have := UInt64.le_iff_toNat_le.not.mp h
    simp only [reduceCtorEq, false_iff]
    omega

@[simp] theorem toNat_max (a b : UInt64) : (max a b).toNat = max a.toNat b.toNat := by
  rw [Nat.max_def]
  show (if a ≤ b then b else a).toNat = _
  simp only [UInt64.le_iff_toNat_le]
  split <;> rfl

instance lawfulOrderMax : Std.LawfulOrderMax UInt64 where
  max_le_iff a b c := by
    simp only [UInt64.le_iff_toNat_le, toNat_max]
    exact Nat.max_le
  max_eq_or a b := by
    simp only [← UInt64.toNat_inj, toNat_max]
    omega

end SilkChiffon.Machine
