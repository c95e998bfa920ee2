import Mathlib.Algebra.BigOperators.Group.List.Basic
import Mathlib.Tactic.Ring

/-!
# The proleptic Gregorian calendar

Days are counted from 1970-01-01 in both directions, years before the first one
are zero and negative. Every day has one date.
-/

namespace SilkChiffon

namespace Calendar

-- ---------------------------------------------------------------------------
-- Months
-- ---------------------------------------------------------------------------

def isLeap (year : Int) : Bool := year % 4 = 0 && (year % 100 ≠ 0 || year % 400 = 0)

def monthLengths (leap : Bool) : List Nat :=
  [31, if leap then 29 else 28, 31, 30, 31, 30, 31, 31, 30, 31, 30, 31]

def yearLength (leap : Bool) : Nat := if leap then 366 else 365

theorem sum_monthLengths (leap : Bool) : (monthLengths leap).sum = yearLength leap := by
  cases leap <;> rfl

/-- The span a place falls into, among spans one behind the other, and how far
into it. -/
def place : List Nat → Nat → Nat × Nat
  | [], n => (0, n)
  | length :: lengths, n =>
    if n < length then (0, n) else ((place lengths (n - length)).1 + 1, (place lengths (n - length)).2)

theorem place_ok (h : n < lengths.sum) :
    ∃ length, lengths[(place lengths n).1]? = some length ∧ (place lengths n).2 < length ∧
      (lengths.take (place lengths n).1).sum + (place lengths n).2 = n := by
  induction lengths generalizing n with
  | nil => simp at h
  | cons length lengths ih =>
    rw [place]
    split
    · exact ⟨length, rfl, ‹_›, by simp⟩
    · obtain ⟨length', hlength, hlt, hsum⟩ := ih (n := n - length) (by rw [List.sum_cons] at h; omega)
      exact ⟨length', by simpa using hlength, hlt, by simp only [List.take_succ_cons, List.sum_cons]; omega⟩

-- ---------------------------------------------------------------------------
-- Years
-- ---------------------------------------------------------------------------

def newYear (y : Int) : Int := 365 * (y - 1) + (y - 1) / 4 - (y - 1) / 100 + (y - 1) / 400 - 719162

theorem newYear_succ (y : Int) : newYear (y + 1) = newYear y + yearLength (isLeap y) := by
  unfold newYear isLeap yearLength
  split <;> rename_i h <;> simp at h <;> omega

theorem newYear_mono {y y' : Int} (h : y ≤ y') : newYear y ≤ newYear y' := by
  unfold newYear
  omega

/-- The first day of a year by its place in the cycles. -/
theorem newYear_cycles (hcentury : 0 ≤ century ∧ century ≤ 3) (hquad : 0 ≤ quad ∧ quad ≤ 24)
    (hyear : 0 ≤ year ∧ year ≤ 3) (cycle : Int) :
    newYear (400 * cycle + 100 * century + 4 * quad + year + 1) =
      146097 * cycle + 36524 * century + 1461 * quad + 365 * year - 719162 := by
  have h4 : (400 * cycle + 100 * century + 4 * quad + year) / 4 = 100 * cycle + 25 * century + quad := by
    omega
  have h100 : (400 * cycle + 100 * century + 4 * quad + year) / 100 = 4 * cycle + century := by omega
  have h400 : (400 * cycle + 100 * century + 4 * quad + year) / 400 = cycle := by omega
  simp only [newYear, Int.add_sub_cancel, h4, h100, h400]
  omega

def yearOf (n : Int) : Int :=
  let inCycle := (n + 719162) % 146097
  let century := min (inCycle / 36524) 3
  let inCentury := inCycle - 36524 * century
  let quad := inCentury / 1461
  400 * ((n + 719162) / 146097) + 100 * century + 4 * quad +
    min ((inCentury - 1461 * quad) / 365) 3 + 1

theorem yearOf_cycles (n : Int) :
    ∃ cycle century quad year : Int, (0 ≤ century ∧ century ≤ 3) ∧ (0 ≤ quad ∧ quad ≤ 24) ∧
      (0 ≤ year ∧ year ≤ 3) ∧ yearOf n = 400 * cycle + 100 * century + 4 * quad + year + 1 ∧
      146097 * cycle + 36524 * century + 1461 * quad + 365 * year ≤ n + 719162 ∧
      n + 719162 < 146097 * cycle + 36524 * century + 1461 * quad + 365 * year + 366 ∧
      (year < 3 ∨ quad = 24 ∧ century < 3 →
        n + 719162 < 146097 * cycle + 36524 * century + 1461 * quad + 365 * year + 365) := by
  let inCycle := (n + 719162) % 146097
  let century := min (inCycle / 36524) 3
  let inCentury := inCycle - 36524 * century
  let quad := inCentury / 1461
  let inQuad := inCentury - 1461 * quad
  have hcycle : 0 ≤ inCycle ∧ inCycle < 146097 := by omega
  have hcentury : 0 ≤ inCentury ∧ inCentury ≤ 36524 ∧ (century < 3 → inCentury < 36524) := by omega
  have hquad : 0 ≤ inQuad ∧ inQuad < 1461 ∧ inCentury = 1461 * quad + inQuad := by omega
  refine ⟨(n + 719162) / 146097, century, quad, min (inQuad / 365) 3, by omega, by omega, by omega,
    rfl, by omega, by omega, by omega⟩

theorem yearOf_ok (n : Int) : newYear (yearOf n) ≤ n ∧ n < newYear (yearOf n + 1) := by
  obtain ⟨cycle, century, quad, year, hcentury, hquad, hyear, heq, hlow, hhigh, hshort⟩ := yearOf_cycles n
  rw [heq]
  refine ⟨by rw [newYear_cycles hcentury hquad hyear]; omega, ?_⟩
  -- the next year is the next of its four, or begins four, a hundred or four hundred
  by_cases hlast : year < 3
  · rw [show 400 * cycle + 100 * century + 4 * quad + year + 1 + 1 =
      400 * cycle + 100 * century + 4 * quad + (year + 1) + 1 by omega,
      newYear_cycles hcentury hquad ⟨by omega, by omega⟩]
    have := hshort (.inl hlast)
    omega
  by_cases hlast' : quad < 24
  · rw [show 400 * cycle + 100 * century + 4 * quad + year + 1 + 1 =
      400 * cycle + 100 * century + 4 * (quad + 1) + 0 + 1 by omega,
      newYear_cycles hcentury ⟨by omega, by omega⟩ (by decide)]
    omega
  by_cases hlast'' : century < 3
  · rw [show 400 * cycle + 100 * century + 4 * quad + year + 1 + 1 =
      400 * cycle + 100 * (century + 1) + 4 * 0 + 0 + 1 by omega,
      newYear_cycles ⟨by omega, by omega⟩ (by decide) (by decide)]
    have := hshort (.inr ⟨by omega, hlast''⟩)
    omega
  · rw [show 400 * cycle + 100 * century + 4 * quad + year + 1 + 1 =
      400 * (cycle + 1) + 100 * 0 + 4 * 0 + 0 + 1 by omega,
      newYear_cycles (by decide) (by decide) (by decide)]
    omega

theorem le_yearOf : y ≤ yearOf n ↔ newYear y ≤ n := by
  obtain ⟨hlow, hhigh⟩ := yearOf_ok n
  constructor
  · intro h
    exact Int.le_trans (newYear_mono h) hlow
  · intro h
    by_contra hlt
    have : newYear (yearOf n + 1) ≤ newYear y := newYear_mono (by omega)
    omega

-- ---------------------------------------------------------------------------
-- Dates
-- ---------------------------------------------------------------------------

structure Date where
  year : Int
  month : Nat
  day : Nat
  deriving DecidableEq, Repr

namespace Date

def Valid (date : Date) : Prop :=
  1 ≤ date.month ∧ 1 ≤ date.day ∧
    date.day ≤ (monthLengths (isLeap date.year)).getD (date.month - 1) 0

instance (date : Date) : Decidable date.Valid := by unfold Valid; infer_instance

def number (date : Date) : Int :=
  newYear date.year +
    (((monthLengths (isLeap date.year)).take (date.month - 1)).sum + (date.day - 1) : Nat)

def ofNumber (n : Int) : Date :=
  let spot := place (monthLengths (isLeap (yearOf n))) (n - newYear (yearOf n)).toNat
  ⟨yearOf n, spot.1 + 1, spot.2 + 1⟩

theorem ofNumber_ok (n : Int) : (ofNumber n).Valid ∧ (ofNumber n).number = n := by
  obtain ⟨hlow, hhigh⟩ := yearOf_ok n
  rw [newYear_succ] at hhigh
  obtain ⟨length, hlength, hlt, hsum⟩ := place_ok
    (show (n - newYear (yearOf n)).toNat < (monthLengths (isLeap (yearOf n))).sum by rw [sum_monthLengths]; omega)
  refine ⟨⟨Nat.le_add_left .., Nat.le_add_left .., ?_⟩, ?_⟩
  · simp only [ofNumber, Nat.add_sub_cancel, List.getD_eq_getElem?_getD, hlength, Option.getD_some]
    omega
  · simp only [number, ofNumber, Nat.add_sub_cancel, hsum]
    omega

theorem Valid.bounds (h : Valid date) : date.month ≤ 12 ∧ date.day ≤ 31 := by
  obtain ⟨-, hday, hlength⟩ := h
  have hmonth : date.month - 1 < 12 := by
    by_contra hge
    rw [List.getD_eq_getElem?_getD, List.getElem?_eq_none (Nat.not_lt.mp hge), Option.getD_none] at hlength
    omega
  have hlongest : ∀ leap, ∀ month < 12, (monthLengths leap).getD month 0 ≤ 31 := by decide
  exact ⟨by omega, Nat.le_trans hlength (hlongest _ _ hmonth)⟩

end Date

example : Date.ofNumber 19782 = ⟨2024, 2, 29⟩ := by decide

end Calendar

end SilkChiffon
