import Mathlib.Data.Int.Log
import Mathlib.Data.Rat.Floor
import Mathlib.Tactic.Linarith
import Mathlib.Tactic.Positivity
import Mathlib.Tactic.Ring
import Mathlib.Tactic.NormNum
import Mathlib.Tactic.FieldSimp

/-!
# Rounding to doubles

The nearest double of a positive rational whose exponent is in the normal range,
ties to the even mantissa. A double has 53 bits, so integers up to `2 ^ 53` stay
as they are and the error is at most the `2 ^ 53`-th part of the value.
-/

namespace SilkChiffon.Rounding

def roundHalfEven (x : ℚ) : ℤ :=
  if x - ⌊x⌋ < 1 / 2 then ⌊x⌋
  else if 1 / 2 < x - ⌊x⌋ then ⌊x⌋ + 1
  else if ⌊x⌋ % 2 = 0 then ⌊x⌋
  else ⌊x⌋ + 1

/-- The distance of two doubles next to `q`. -/
def ulp (q : ℚ) : ℚ := 2 ^ (Int.log 2 q - 52)

def roundToDouble (q : ℚ) : ℚ := if q = 0 then 0 else roundHalfEven (q / ulp q) * ulp q

theorem roundHalfEven_intCast (n : ℤ) : roundHalfEven n = n := by
  simp [roundHalfEven]

theorem abs_roundHalfEven_sub_le (x : ℚ) : |(roundHalfEven x : ℚ) - x| ≤ 1 / 2 := by
  have hle := Int.floor_le x
  have hlt := Int.lt_floor_add_one x
  unfold roundHalfEven
  rw [abs_le]
  split
  · constructor <;> linarith
  split
  · push_cast
    constructor <;> linarith
  split
  · constructor <;> linarith
  · push_cast
    constructor <;> linarith

theorem ulp_pos (q : ℚ) : 0 < ulp q := zpow_pos (by norm_num) _

theorem ulp_le (hq : 0 < q) : ulp q ≤ q / 2 ^ 52 := by
  have hlog : (2 : ℚ) ^ Int.log 2 q ≤ q := by
    exact_mod_cast Int.zpow_log_le_self (b := 2) (by norm_num) hq
  rw [ulp, zpow_sub₀ (by norm_num), le_div_iff₀ (by positivity)]
  rw [show (2 : ℚ) ^ (52 : ℤ) = 2 ^ 52 by norm_cast, div_mul_cancel₀ _ (by positivity)]
  exact hlog

theorem abs_roundToDouble_sub_le (hq : 0 < q) : |roundToDouble q - q| ≤ q / 2 ^ 53 := by
  have hu := ulp_pos q
  have hround := abs_roundHalfEven_sub_le (q / ulp q)
  have hsplit : roundToDouble q - q = (roundHalfEven (q / ulp q) - q / ulp q) * ulp q := by
    rw [roundToDouble, if_neg hq.ne', sub_mul, div_mul_cancel₀ _ hu.ne']
  rw [hsplit, abs_mul, abs_of_pos hu]
  calc |(roundHalfEven (q / ulp q) : ℚ) - q / ulp q| * ulp q ≤ 1 / 2 * (q / 2 ^ 52) :=
        mul_le_mul hround (ulp_le hq) hu.le (by norm_num)
    _ = q / 2 ^ 53 := by ring

theorem roundToDouble_natCast (hn : n < 2 ^ 53) : roundToDouble (n : ℕ) = n := by
  by_cases hz : n = 0
  · simp [hz, roundToDouble]
  have hpos : (0 : ℚ) < n := by exact_mod_cast Nat.pos_of_ne_zero hz
  have hlog : Int.log 2 (n : ℚ) = Nat.log 2 n := Int.log_natCast 2 n
  have hle : Nat.log 2 n ≤ 52 := by
    have := Nat.log_lt_of_lt_pow hz hn
    omega
  have hmultiple : (n : ℚ) / ulp n = ((n * 2 ^ (52 - Nat.log 2 n) : ℕ) : ℤ) := by
    rw [ulp, hlog, div_eq_mul_inv, ← zpow_neg]
    have hexp : -((Nat.log 2 n : ℤ) - 52) = ((52 - Nat.log 2 n : ℕ) : ℤ) := by omega
    rw [hexp, zpow_natCast]
    push_cast
    ring
  rw [roundToDouble, if_neg hpos.ne', hmultiple, roundHalfEven_intCast, ← hmultiple,
    div_mul_cancel₀ _ (ulp_pos _).ne']

/-- Rounding keeps the order of values that are further apart than its errors. -/
theorem roundToDouble_lt (hp : 0 ≤ p) (hq : 0 < q) (h : p * (1 + 1 / 2 ^ 53) < q * (1 - 1 / 2 ^ 53)) :
    roundToDouble p < roundToDouble q := by
  have hbelow := (abs_le.mp (abs_roundToDouble_sub_le hq)).1
  have habove : roundToDouble p ≤ p * (1 + 1 / 2 ^ 53) := by
    rcases hp.eq_or_lt with rfl | hp
    · simp [roundToDouble]
    · have := (abs_le.mp (abs_roundToDouble_sub_le hp)).2
      linarith
  linarith

/-- A quotient of counts is rounded to at least a fraction exactly when it is at
least that. -/
theorem roundToDouble_unitFraction_le {d n k : ℕ} (hk : 0 < k) (hn : 0 < n) (hn' : n < 2 ^ 50) :
    roundToDouble (1 / k) ≤ roundToDouble (d / n) ↔ n ≤ k * d := by
  have hnq : (0 : ℚ) < n := by exact_mod_cast hn
  have hkq : (0 : ℚ) < k := by exact_mod_cast hk
  have hbound : (n : ℚ) < 2 ^ 50 := by exact_mod_cast hn'
  rcases lt_trichotomy (k * d) n with hlt | heq | hgt
  · refine iff_of_false (not_le.mpr ?_) (not_le.mpr hlt)
    have hlt' : (k * d + 1 : ℚ) ≤ n := by exact_mod_cast hlt
    refine roundToDouble_lt (by positivity) (by positivity) ?_
    rw [div_mul_eq_mul_div, div_mul_eq_mul_div, div_lt_div_iff₀ hnq hkq]
    nlinarith
  · refine iff_of_true (le_of_eq ?_) heq.ge
    congr 1
    rw [div_eq_div_iff hkq.ne' hnq.ne']
    have : (k * d : ℚ) = n := by exact_mod_cast heq
    linarith
  · refine iff_of_true ?_ hgt.le
    have hgt' : (n + 1 : ℚ) ≤ k * d := by exact_mod_cast hgt
    refine (roundToDouble_lt (by positivity) (div_pos ?_ hnq) ?_).le
    · have : (0 : ℚ) < k * d := by linarith
      exact pos_of_mul_pos_right this hkq.le
    rw [div_mul_eq_mul_div, div_mul_eq_mul_div, div_lt_div_iff₀ hkq hnq]
    nlinarith

end SilkChiffon.Rounding
