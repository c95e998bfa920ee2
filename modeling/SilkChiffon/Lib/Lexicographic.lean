import Mathlib.Data.List.Basic
import Mathlib.Tactic.Common

/-!
# Lexicographic orders

Comparing by one key after the other. A key that compares equal may be left
out, wherever it stands.
-/

namespace SilkChiffon.Lexicographic

variable {κ β : Type}

def lexCompare (cmp : κ → β → β → Ordering) : List κ → β → β → Ordering
  | [], _, _ => .eq
  | k :: ks, a, b => (cmp k a b).then (lexCompare cmp ks a b)

def SortedBy (cmp : κ → β → β → Ordering) (ks : List κ) (l : List β) : Prop :=
  l.Pairwise fun a b => lexCompare cmp ks a b ≠ .gt

variable {cmp : κ → β → β → Ordering}

theorem lexCompare_append (ks ks' : List κ) (a b : β) :
    lexCompare cmp (ks ++ ks') a b = (lexCompare cmp ks a b).then (lexCompare cmp ks' a b) := by
  induction ks with
  | nil => rfl
  | cons k ks ih =>
    rw [List.cons_append, lexCompare, ih, lexCompare]
    cases cmp k a b <;> rfl

theorem lexCompare_eq_of_forall {ks : List κ} (h : ∀ k ∈ ks, cmp k a b = .eq) :
    lexCompare cmp ks a b = .eq := by
  induction ks with
  | nil => rfl
  | cons k ks ih =>
    rw [lexCompare, h k (by simp), ih fun k' hk' => h k' (List.mem_cons_of_mem _ hk')]
    rfl

theorem lexCompare_drop_prefix {ks ks' : List κ} (h : ∀ k ∈ ks, cmp k a b = .eq) :
    lexCompare cmp (ks ++ ks') a b = lexCompare cmp ks' a b := by
  rw [lexCompare_append, lexCompare_eq_of_forall h]
  rfl

theorem SortedBy.sublist (h : SortedBy cmp ks l) (hs : List.Sublist l' l) : SortedBy cmp ks l' :=
  List.Pairwise.sublist hs h

theorem SortedBy.congr (h : SortedBy cmp ks l)
    (hcmp : ∀ a ∈ l, ∀ b ∈ l, lexCompare cmp ks a b = lexCompare cmp' ks' a b) :
    SortedBy cmp' ks' l := by
  refine List.Pairwise.imp_of_mem (fun ha hb hab => ?_) h
  rwa [← hcmp _ ha _ hb]

theorem SortedBy.of_prefix (h : SortedBy cmp ks l) (hfront : List.IsPrefix ks' ks) : SortedBy cmp ks' l := by
  obtain ⟨rest, rfl⟩ := hfront
  refine List.Pairwise.imp (fun {a b} hab hgt => hab ?_) h
  rw [lexCompare_append, hgt]
  rfl

end SilkChiffon.Lexicographic
