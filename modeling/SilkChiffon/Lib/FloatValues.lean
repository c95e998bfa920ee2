import Mathlib.Algebra.Order.Field.Rat
import Mathlib.Algebra.Order.Group.Abs
import Mathlib.Tactic.Linarith
import Mathlib.Tactic.Ring
import SilkChiffon.Lib.Float64

/-!
# The numbers that FLOAT64 holds

A magnitude in units of the smallest positive number, the value of a float, and
the float that a number is rounded to: the nearest, the even one of two.
-/

namespace SilkChiffon.Float64

-- ---------------------------------------------------------------------------
-- Units
-- ---------------------------------------------------------------------------

/-- The units in a magnitude. Infinity has those of the first number that is
out of range. -/
def units (magnitude : Nat) : Nat :=
  if magnitude < 2 ^ 52 then magnitude
  else (2 ^ 52 + magnitude % 2 ^ 52) * 2 ^ (magnitude / 2 ^ 52 - 1)

theorem units_lt_succ (m : Nat) : units m < units (m + 1) := by
  unfold units
  by_cases hsmall : m + 1 < 2 ^ 52
  · rw [if_pos (by omega), if_pos hsmall]
    omega
  rw [if_neg hsmall]
  by_cases hlast : m + 1 = 2 ^ 52
  · rw [if_pos (by omega), hlast]
    omega
  rw [if_neg (by omega)]
  by_cases hcarry : (m + 1) % 2 ^ 52 = 0
  · -- the exponent grows: as many units as the doubled mantissa is short of
    have hquot : (m + 1) / 2 ^ 52 - 1 = m / 2 ^ 52 - 1 + 1 := by omega
    have hrest : m % 2 ^ 52 = 2 ^ 52 - 1 := by omega
    rw [hcarry, hquot, hrest, Nat.pow_succ _ (_ - 1), Nat.mul_comm (2 ^ (_ - 1)) 2, ← Nat.mul_assoc]
    exact Nat.mul_lt_mul_of_pos_right (by decide) (Nat.two_pow_pos _)
  · have hquot : (m + 1) / 2 ^ 52 = m / 2 ^ 52 := by omega
    rw [hquot]
    exact Nat.mul_lt_mul_of_pos_right (by omega) (Nat.two_pow_pos _)

theorem units_strictMono : StrictMono units := strictMono_nat_of_lt_succ units_lt_succ

-- ---------------------------------------------------------------------------
-- Values
-- ---------------------------------------------------------------------------

def value : Float64 → ℚ
  | .nan => 0
  | .number negative magnitude =>
    (if negative then -1 else 1) * units magnitude / 2 ^ 1074

def isEven : Float64 → Bool
  | .nan => false
  | .number _ magnitude => magnitude.val % 2 = 0

def IsNearest (q : ℚ) (x : Float64) : Prop :=
  x.isFinite = true ∧ ∀ y : Float64, y ≠ .nan → |q - x.value| ≤ |q - y.value| ∧
    (|q - x.value| = |q - y.value| → y.value = x.value ∨ x.isEven = true)

theorem isNearest_value (h : x.isFinite = true) : IsNearest x.value x := by
  refine ⟨h, fun y _ => ⟨by simp, fun heq => ?_⟩⟩
  rw [sub_self, abs_zero] at heq
  exact .inl (sub_eq_zero.mp (abs_eq_zero.mp heq.symm)).symm

def IsInteger (x : Float64) : Prop := ∃ n : ℤ, x.value = n

variable {x y : Float64}

theorem IsNearest.lt (h : IsNearest q x) (hy : y ≠ .nan) (hlt : x.value < y.value) : q < y.value := by
  by_contra hge
  have hdist := (h.2 y hy).1
  rw [abs_of_nonneg (by linarith), abs_of_nonneg (by linarith)] at hdist
  linarith

theorem IsNearest.gt (h : IsNearest q x) (hy : y ≠ .nan) (hlt : y.value < x.value) : y.value < q := by
  by_contra hge
  have hdist := (h.2 y hy).1
  rw [abs_of_nonpos (by linarith), abs_of_nonpos (by linarith)] at hdist
  linarith

def neg : Float64 → Float64
  | .nan => .nan
  | .number negative magnitude => .number (!negative) magnitude

@[simp] theorem neg_neg (x : Float64) : x.neg.neg = x := by cases x <;> simp [neg]

theorem neg_ne_nan (h : x ≠ .nan) : x.neg ≠ .nan := by
  cases x with
  | nan => contradiction
  | number => simp [neg]

@[simp] theorem value_neg (x : Float64) : x.neg.value = -x.value := by
  cases x with
  | nan => simp [neg, value]
  | number negative magnitude => cases negative <;> simp [neg, value, neg_div]

theorem IsNearest.neg (h : IsNearest q x) : IsNearest (-q) x.neg := by
  obtain ⟨hfinite, hnearest⟩ := h
  refine ⟨by cases x <;> exact hfinite, fun y hy => ?_⟩
  obtain ⟨hle, htie⟩ := hnearest y.neg (neg_ne_nan hy)
  have heven : x.neg.isEven = x.isEven := by cases x <;> rfl
  rw [value_neg, show -q - -x.value = -(q - x.value) by ring, abs_neg, heven]
  rw [value_neg, show q - -y.value = -(-q - y.value) by ring, abs_neg] at hle htie
  exact ⟨hle, fun heq => (htie heq).imp_left fun h => by linarith⟩

-- ---------------------------------------------------------------------------
-- Around two to the sixty-third
-- ---------------------------------------------------------------------------

theorem units_normal (hr : r < 2 ^ 52) (exponent : Nat) :
    units ((exponent + 1) * 2 ^ 52 + r) = (2 ^ 52 + r) * 2 ^ exponent := by
  have hquot : ((exponent + 1) * 2 ^ 52 + r) / 2 ^ 52 - 1 = exponent := by omega
  rw [units, if_neg (by omega), hquot, Nat.mul_add_mod_of_lt hr]

theorem value_whole (hr : r < 2 ^ 52) (hbound : (1075 + k) * 2 ^ 52 + r < infiniteMagnitude + 1) :
    (number false ⟨(1075 + k) * 2 ^ 52 + r, hbound⟩).value = (2 ^ 52 + r) * 2 ^ k := by
  have hunits := units_normal hr (1074 + k)
  rw [show 1074 + k + 1 = 1075 + k by omega] at hunits
  have hpow : (2 : ℚ) ^ 1074 ≠ 0 := pow_ne_zero _ (by norm_num)
  simp only [value, hunits, if_neg Bool.false_ne_true, one_mul]
  rw [Nat.cast_mul, Nat.cast_pow, pow_add, div_eq_iff hpow]
  generalize (2 : ℚ) ^ 1074 = unit
  push_cast
  ring

/-- Two to the sixty-third, the first integer above those of INT64. -/
def integerLimit : Float64 := .number false ⟨1086 * 2 ^ 52, by decide⟩

theorem integerLimit_value : integerLimit.value = 9223372036854775808 :=
  (value_whole (r := 0) (k := 11) (by decide) (by decide)).trans (by norm_num)

theorem value_mono (h : m ≤ m') : (number false m).value ≤ (number false m').value := by
  simp only [value, if_neg Bool.false_ne_true, one_mul]
  exact div_le_div_of_nonneg_right (by exact_mod_cast units_strictMono.monotone h)
    (pow_nonneg (by norm_num) _)

theorem value_nonpos (m) : (number true m).value ≤ 0 := by
  simp only [value, if_pos]
  exact div_nonpos_of_nonpos_of_nonneg (by simp) (pow_nonneg (by norm_num) _)

theorem value_cases (y : Float64) :
    y.value ≤ 9223372036854774784 ∨ y.value = 9223372036854775808 ∨ 9223372036854777856 ≤ y.value := by
  cases y with
  | nan => exact .inl (by norm_num [value])
  | number negative m =>
    cases negative with
    | true => exact .inl ((value_nonpos m).trans (by norm_num))
    | false =>
      rcases Nat.lt_trichotomy m.val (1086 * 2 ^ 52) with h | h | h
      · have hbelow := value_whole (r := 2 ^ 52 - 1) (k := 10) (by decide) (by decide)
        have hle : m ≤ ⟨1085 * 2 ^ 52 + (2 ^ 52 - 1), by decide⟩ := Fin.mk_le_mk.mpr (by omega)
        exact .inl ((value_mono hle).trans (hbelow.le.trans (by norm_num)))
      · exact .inr (.inl (by rw [← integerLimit_value, integerLimit, ← Fin.eta m (by omega)]; simp only [h]))
      · have habove := value_whole (r := 1) (k := 11) (by decide) (by decide)
        refine .inr (.inr (le_trans ?_ (value_mono (m := ⟨1086 * 2 ^ 52 + 1, by decide⟩) ?_)))
        · exact le_trans (by norm_num) habove.ge
        · exact Fin.mk_le_mk.mpr (by omega)

theorem isNearest_limit (hx : x.value = integerLimit.value) (hfinite : x.isFinite = true) :
    IsNearest 9223372036854776000 x := by
  refine ⟨hfinite, fun y _ => ?_⟩
  rw [hx, integerLimit_value]
  rcases value_cases y with h | h | h
  · rw [abs_of_nonneg (by norm_num), abs_of_nonneg (by linarith)]
    exact ⟨by linarith, fun heq => by linarith⟩
  · rw [h]
    exact ⟨le_rfl, fun _ => .inl rfl⟩
  · rw [abs_of_nonneg (by norm_num), abs_of_nonpos (by linarith)]
    exact ⟨by linarith, fun heq => by linarith⟩

theorem IsNearest.limit_bounds (h : IsNearest q x) (hx : x.value = integerLimit.value) :
    9223372036854775296 ≤ q ∧ q ≤ 9223372036854776832 := by
  have hbelow := value_whole (r := 2 ^ 52 - 1) (k := 10) (by decide) (by decide)
  have habove := value_whole (r := 1) (k := 11) (by decide) (by decide)
  have hlow := (h.2 (.number false ⟨1085 * 2 ^ 52 + (2 ^ 52 - 1), by decide⟩) (by simp)).1
  have hhigh := (h.2 (.number false ⟨1086 * 2 ^ 52 + 1, by decide⟩) (by simp)).1
  rw [hbelow, hx, integerLimit_value] at hlow
  rw [habove, hx, integerLimit_value] at hhigh
  norm_num at hlow hhigh
  constructor
  · by_contra hlt
    rw [abs_of_nonpos (by linarith)] at hlow
    rcases abs_cases (q - 9223372036854774784) with ⟨habs, -⟩ | ⟨habs, -⟩ <;> rw [habs] at hlow <;> linarith
  · by_contra hlt
    rw [abs_of_nonneg (by linarith)] at hhigh
    rcases abs_cases (q - 9223372036854777856) with ⟨habs, -⟩ | ⟨habs, -⟩ <;> rw [habs] at hhigh <;> linarith

-- ---------------------------------------------------------------------------
-- Decimal digits
-- ---------------------------------------------------------------------------

def HasDigits (count : Nat) (q : ℚ) : Prop := ∃ m e : ℤ, |m| < 10 ^ count ∧ q = m * (10 : ℚ) ^ e

theorem HasDigits.neg (h : HasDigits count q) : HasDigits count (-q) := by
  obtain ⟨m, e, hm, rfl⟩ := h
  exact ⟨-m, e, by rwa [abs_neg], by push_cast; ring⟩

theorem hasDigits_limit : HasDigits 16 9223372036854776000 :=
  ⟨9223372036854776, 3, by norm_num, by norm_num⟩

/-- With sixteen digits the limit is only approached from above. -/
theorem IsNearest.limit_lt (h : IsNearest q x) (hx : x.value = integerLimit.value)
    (hdigits : HasDigits 16 q) : integerLimit.value < q := by
  obtain ⟨hlow, hhigh⟩ := h.limit_bounds hx
  obtain ⟨m, e, hm, rfl⟩ := hdigits
  have he : 3 ≤ e := by
    by_contra hlt
    have hpow : (10 : ℚ) ^ e ≤ 10 ^ (2 : ℤ) := zpow_le_zpow_right₀ (by norm_num) (by omega)
    have hm' : (m : ℚ) ≤ 10 ^ 16 := by exact_mod_cast (le_abs_self m).trans hm.le
    have hpos : (0 : ℚ) < 10 ^ e := zpow_pos (by norm_num) e
    have : (m : ℚ) * 10 ^ e ≤ 10 ^ 16 * 10 ^ (2 : ℤ) :=
      mul_le_mul hm' hpow hpos.le (by norm_num)
    norm_num at this
    linarith
  obtain ⟨j, rfl⟩ := Int.le.dest he
  have hwhole : (m : ℚ) * 10 ^ (3 + j : ℤ) = ((m * 10 ^ j * 1000 : ℤ) : ℚ) := by
    rw [zpow_add₀ (by norm_num)]
    push_cast
    rw [zpow_natCast]
    ring
  rw [hwhole] at hlow
  rw [hwhole, integerLimit_value]
  have hlow' : (9223372036854775296 : ℤ) ≤ m * 10 ^ j * 1000 := by exact_mod_cast hlow
  exact_mod_cast (by omega : (9223372036854775808 : ℤ) < m * 10 ^ j * 1000)

end SilkChiffon.Float64
