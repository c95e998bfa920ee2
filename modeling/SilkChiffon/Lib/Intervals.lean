import Mathlib.Data.List.Perm.Basic
import Mathlib.Order.Lattice

/-!
# Half-open intervals

Intervals that follow one another own every point between their ends once, so
that sorting elements into them by a point of each loses and repeats none.
-/

namespace SilkChiffon

/-- Intervals from one point to another, each beginning where the last ended. -/
inductive Contiguous [LE α] : α → List (α × α) → α → Prop
  | nil : Contiguous a [] a
  | cons : a ≤ b → Contiguous b rest c → Contiguous a ((a, b) :: rest) c

def inInterval [LinearOrder α] (x : α) (interval : α × α) : Bool := interval.1 ≤ x ∧ x < interval.2

namespace Contiguous

variable [LinearOrder α] {intervals : List (α × α)}

theorem countP_below (h : Contiguous a intervals c) (hx : x < a) :
    intervals.countP (inInterval x) = 0 := by
  induction h with
  | nil => rfl
  | cons hab _ ih =>
    rw [List.countP_cons_of_neg (by simp [inInterval, not_le.mpr hx]), ih (hx.trans_le hab)]

theorem countP_between (h : Contiguous a intervals c) (ha : a ≤ x) (hc : x < c) :
    intervals.countP (inInterval x) = 1 := by
  induction h with
  | nil => exact absurd hc (not_lt.mpr ha)
  | @cons a b c rest hab hrest ih =>
    by_cases hb : x < b
    · rw [List.countP_cons_of_pos (by simp [inInterval, ha, hb]), hrest.countP_below hb]
    · rw [List.countP_cons_of_neg (by simp [inInterval, hb]), ih (not_lt.mp hb) hc]

end Contiguous

theorem flatMap_marked (bins : List β) (q : β → Bool) (a : α) :
    (bins.flatMap fun bin => if q bin then [a] else []) = List.replicate (bins.countP q) a := by
  induction bins with
  | nil => rfl
  | cons bin bins ih => cases hbin : q bin <;> simp [hbin, ih, List.replicate_succ]

theorem flatMap_filter_perm {bins : List β} {p : β → α → Bool} {l : List α}
    (h : ∀ a ∈ l, bins.countP (p · a) = 1) : (bins.flatMap fun bin => l.filter (p bin)).Perm l := by
  induction l with
  | nil => simp
  | cons a l ih =>
    have hown : (bins.flatMap fun bin => if p bin a then [a] else []) = [a] := by
      rw [flatMap_marked, h a List.mem_cons_self]
      rfl
    have hsplit : (fun bin => (a :: l).filter (p bin)) =
        fun bin => (if p bin a then [a] else []) ++ l.filter (p bin) := by
      funext bin
      by_cases hbin : p bin a <;> simp [hbin]
    rw [hsplit]
    refine (List.flatMap_append_perm bins _ _).symm.trans ?_
    rw [hown]
    exact (ih fun b hb => h b (List.mem_cons_of_mem _ hb)).cons a

end SilkChiffon
