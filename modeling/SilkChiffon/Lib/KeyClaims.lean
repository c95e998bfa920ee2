import Mathlib.Data.List.Nodup
import SilkChiffon.Lib.Lists

/-!
# Claims to keys

Claimants name keys, and a key should have one of them. The first key with
several is reported, in an order that has all keys.
-/

namespace SilkChiffon.KeyClaims

variable {κ γ : Type} [DecidableEq κ]

def claimants (claims : List (κ × γ)) (k : κ) : List γ := (claims.filter (·.1 = k)).map (·.2)

def inOrder (claims : List (κ × γ)) : List κ := (claims.map (·.1)).eraseDups

def sorted [Ord κ] (claims : List (κ × γ)) : List κ :=
  (inOrder claims).mergeSort fun a b => (compare a b).isLE

def conflict (order : List κ) (claims : List (κ × γ)) : Option (κ × List γ) :=
  (order.find? fun k => 1 < (claimants claims k).length).map fun k => (k, claimants claims k)

variable {claims : List (κ × γ)}

theorem length_claimants (k : κ) : (claimants claims k).length = (claims.map (·.1)).count k := by
  induction claims with
  | nil => rfl
  | cons claim rest ih =>
    simp only [claimants, List.length_map, List.map_cons, List.count_cons, List.filter_cons] at ih ⊢
    by_cases h : claim.1 = k
    · simp [h, ih]
    · simp [h, ih]

theorem conflict_eq_none {order : List κ} (horder : ∀ k ∈ claims.map (·.1), k ∈ order) :
    conflict order claims = none ↔ (claims.map (·.1)).Nodup := by
  rw [conflict, Option.map_eq_none_iff, List.find?_eq_none, List.nodup_iff_count_le_one]
  simp only [length_claimants, decide_eq_true_eq, Nat.not_lt]
  refine ⟨fun h k => ?_, fun h k _ => h k⟩
  by_cases hk : k ∈ claims.map (·.1)
  · exact h k (horder k hk)
  · rw [List.count_eq_zero.mpr hk]
    exact Nat.zero_le _

theorem mem_inOrder : k ∈ inOrder claims ↔ k ∈ claims.map (·.1) := List.mem_eraseDups

theorem mem_sorted [Ord κ] : k ∈ sorted claims ↔ k ∈ claims.map (·.1) :=
  List.mem_mergeSort.trans mem_inOrder

theorem inOrder_eq_none : conflict (inOrder claims) claims = none ↔ (claims.map (·.1)).Nodup :=
  conflict_eq_none fun _ => mem_inOrder.mpr

theorem sorted_eq_none [Ord κ] : conflict (sorted claims) claims = none ↔ (claims.map (·.1)).Nodup :=
  conflict_eq_none fun _ => mem_sorted.mpr

/-- The value a table holds for a key: the one entered last. -/
def latest (entries : List (κ × γ)) (k : κ) : Option γ := entries.reverse.lookup k

theorem latest_eq_some {entries : List (κ × γ)} (h : (entries.map (·.1)).Nodup) :
    latest entries k = some v ↔ (k, v) ∈ entries := by
  constructor
  · intro hlookup
    obtain ⟨before, after, hsplit, _⟩ := List.lookup_eq_some_iff.mp hlookup
    rw [← List.mem_reverse, hsplit]
    simp
  · intro hmem
    refine Lists.lookup_eq_some (List.mem_reverse.mpr hmem) fun v' hv' => ?_
    have heq := List.inj_on_of_nodup_map h (List.mem_reverse.mp hv') hmem rfl
    exact (Prod.mk.inj heq).2

end SilkChiffon.KeyClaims
