import Mathlib.Data.List.Basic
import Mathlib.Tactic.Common

/-!
# Two orders on FLOAT64

A number is a sign and the magnitude of its encoding, which grows with the
number's absolute value up to infinity. The IEEE order has no place for NaN and
identifies the two zeros; the total order puts NaN last and the negative zero
before the positive one. Between a value and a finite number the two differ
only on NaN and on zeros of opposite sign.
-/

namespace SilkChiffon

inductive Comparison
  | eq | notEq | lt | ltEq | gt | gtEq
  deriving DecidableEq, Repr

namespace Comparison

def mirror : Comparison → Comparison
  | .eq => .eq
  | .notEq => .notEq
  | .lt => .gt
  | .ltEq => .gtEq
  | .gt => .lt
  | .gtEq => .ltEq

def int (c : Comparison) (a b : Int) : Bool :=
  match c with
  | .eq => a = b
  | .notEq => a ≠ b
  | .lt => a < b
  | .ltEq => a ≤ b
  | .gt => b < a
  | .gtEq => b ≤ a

theorem int_mirror {c : Comparison} : c.mirror.int a b = c.int b a := by
  cases c <;> simp [mirror, int, eq_comm]

end Comparison

def infiniteMagnitude : Nat := 0x7FF0000000000000

inductive Float64
  | nan
  | number (negative : Bool) (magnitude : Fin (infiniteMagnitude + 1))
  deriving DecidableEq

namespace Float64

def zero : Float64 := .number false ⟨0, by decide⟩

def negativeZero : Float64 := .number true ⟨0, by decide⟩

theorem number_eq_zero : number n m = .zero ↔ n = false ∧ m.val = 0 := by
  rw [zero, number.injEq, Fin.ext_iff]

theorem number_eq_negativeZero : number n m = .negativeZero ↔ n = true ∧ m.val = 0 := by
  rw [negativeZero, number.injEq, Fin.ext_iff]

def isFinite : Float64 → Bool
  | .nan => false
  | .number _ magnitude => magnitude.val < infiniteMagnitude

/-- The integer nearest to a magnitude, away from zero when there are two. -/
def nearestInteger (magnitude : Nat) : Nat :=
  let exponent := magnitude >>> 52
  let mantissa := 4503599627370496 + magnitude % 4503599627370496
  if exponent = 0 then 0
  else if 1075 ≤ exponent then mantissa <<< (exponent - 1075)
  else (mantissa + (1 <<< (1074 - exponent))) >>> (1075 - exponent)

/-- `x.round().max(0.0) as usize`. -/
def roundToUsize : Float64 → Nat
  | .nan => 0
  | .number true _ => 0
  | .number false magnitude => min (nearestInteger magnitude) 18446744073709551615

def position : Float64 → Int
  | .nan => 0
  | .number negative magnitude => if negative then -magnitude.val else magnitude.val

def totalPosition : Float64 → Int
  | .nan => infiniteMagnitude + 1
  | .number negative magnitude => if negative then -magnitude.val - 1 else magnitude.val

end Float64

namespace Comparison

def total (c : Comparison) (x y : Float64) : Bool := c.int x.totalPosition y.totalPosition

/-- Every comparison with NaN fails, except being unequal to it. -/
def ieee (c : Comparison) : Float64 → Float64 → Bool
  | .nan, _ | _, .nan => c = .notEq
  | x, y => c.int x.position y.position

theorem total_mirror {c : Comparison} : c.mirror.total x y = c.total y x := int_mirror

/-- Comparing `x` with the finite `y` gives different answers in the two
orders. -/
def Diverges (c : Comparison) (x y : Float64) : Prop :=
  x = .nan ∧ (c = .gt ∨ c = .gtEq) ∨
  x = .negativeZero ∧ y = .zero ∧ (c = .eq ∨ c = .notEq ∨ c = .lt ∨ c = .gtEq) ∨
  x = .zero ∧ y = .negativeZero ∧ (c = .eq ∨ c = .notEq ∨ c = .gt ∨ c = .ltEq)

instance : Decidable (Diverges c x y) := by unfold Diverges; infer_instance

end Comparison

namespace Float64

def SameNumber (x y : Float64) : Prop := Comparison.eq.ieee x y = true

theorem SameNumber.position (h : SameNumber x y) : x.position = y.position := by
  cases x <;> cases y <;> simp_all [SameNumber, Comparison.ieee, Comparison.int]

theorem SameNumber.ieee {c : Comparison} (h : SameNumber y z) : c.ieee x y = c.ieee x z := by
  have hpos := h.position
  cases x with
  | nan => cases y <;> cases z <;> simp_all [SameNumber, Comparison.ieee]
  | number =>
    cases y with
    | nan => simp [SameNumber, Comparison.ieee] at h
    | number =>
      cases z with
      | nan => simp [SameNumber, Comparison.ieee] at h
      | number => simp only [Comparison.ieee, hpos]

end Float64

namespace Comparison

theorem diverges_iff {c : Comparison} (hy : y.isFinite = true) :
    c.Diverges x y ↔ c.total x y ≠ c.ieee x y := by
  cases y with
  | nan => simp [Float64.isFinite] at hy
  | number ny my =>
    have hmy : my.val < infiniteMagnitude := by simpa [Float64.isFinite] using hy
    cases x with
    | nan =>
      have hpos : (Float64.number ny my).totalPosition < Float64.totalPosition .nan := by
        cases ny <;> simp only [Float64.totalPosition] <;> omega
      cases c <;>
        simp [Diverges, total, ieee, int, Float64.zero, Float64.negativeZero] <;> omega
    | number nx mx =>
      obtain ⟨mx, hmx⟩ := mx
      obtain ⟨my, hmy'⟩ := my
      simp only [Diverges, reduceCtorEq, false_and, false_or, Float64.number_eq_zero,
        Float64.number_eq_negativeZero]
      cases c <;> cases nx <;> cases ny <;>
        simp only [total, ieee, int, Float64.totalPosition, Float64.position, decide_eq_decide,
          ↓reduceIte, Bool.false_eq_true, Bool.true_eq_false, reduceCtorEq, true_and, false_and,
          and_true, and_false, or_true, or_false, or_self, false_or, ne_eq, not_true_eq_false,
          false_iff, not_not] <;>
        omega

theorem total_eq_iff : eq.total x y = true ↔ x = y := by
  cases x with
  | nan =>
    cases y with
    | nan => simp [total, int]
    | number n m =>
      cases n <;> simp [total, int, Float64.totalPosition] <;> omega
  | number n m =>
    cases y with
    | nan => cases n <;> simp [total, int, Float64.totalPosition] <;> omega
    | number n' m' =>
      cases n <;> cases n' <;>
        simp [total, int, Float64.totalPosition, Fin.ext_iff] <;> omega

theorem ieee_eq_iff (hy : y.isFinite = true) :
    eq.ieee x y = true ↔ x = y ∨ x = .negativeZero ∧ y = .zero ∨ x = .zero ∧ y = .negativeZero := by
  have hdiverges := diverges_iff (c := .eq) (x := x) hy
  rw [Ne, Bool.eq_iff_iff, total_eq_iff] at hdiverges
  simp only [Diverges, reduceCtorEq, or_self, and_false, false_or, true_or, and_true] at hdiverges
  have hzero : Float64.negativeZero ≠ .zero := by decide
  grind

end Comparison

end SilkChiffon
