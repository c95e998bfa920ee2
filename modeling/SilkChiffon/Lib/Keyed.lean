import Mathlib.Data.List.Basic
import Mathlib.Tactic.Common

/-!
# Keyed lists

A table of entries with a key each. `insertKey` replaces an entry,
`modifyKey` changes it where it stands, and a table built by inserting entries
one after the other keeps the last one of each key.
-/

namespace SilkChiffon.Keyed

variable {κ β : Type} [BEq κ]

def insertKey (k : κ) (v : β) (l : List (κ × β)) : List (κ × β) :=
  (k, v) :: l.filter fun p => p.1 != k

/-- The entry of a key under `f`, where `f fresh` is added for a key that has
none. -/
def modifyKey (k : κ) (fresh : β) (f : β → β) : List (κ × β) → List (κ × β)
  | [] => [(k, f fresh)]
  | (k', v) :: rest =>
    if k' == k then (k', f v) :: rest else (k', v) :: modifyKey k fresh f rest

def collect (l : List (κ × β)) : List (κ × β) :=
  l.foldl (fun table p => insertKey p.1 p.2 table) []

-- ---------------------------------------------------------------------------
-- Looking up
-- ---------------------------------------------------------------------------

variable [LawfulBEq κ] {l : List (κ × β)} {k k' : κ}

theorem lookup_cons : List.lookup k ((k', v) :: l) = if k' == k then some v else l.lookup k := by
  rw [List.lookup_cons, BEq.comm]
  cases k' == k <;> rfl

theorem lookup_filter_ne (h : k' ≠ k) : (l.filter fun p => p.1 != k).lookup k' = l.lookup k' := by
  induction l with
  | nil => rfl
  | cons p rest ih =>
    obtain ⟨k'', v⟩ := p
    rw [List.filter_cons]
    by_cases hk : k'' = k
    · have hne : (k'' == k') = false := beq_false_of_ne fun heq => h (heq.symm.trans hk)
      rw [if_neg (by simp [hk]), ih, lookup_cons, hne]
      rfl
    · rw [if_pos (by simp [hk]), lookup_cons, lookup_cons, ih]

theorem lookup_insertKey :
    (insertKey k v l).lookup k' = if k == k' then some v else l.lookup k' := by
  rw [insertKey, lookup_cons]
  by_cases h : k = k'
  · simp [h]
  · rw [beq_false_of_ne h, lookup_filter_ne (Ne.symm h)]

theorem lookup_modifyKey {f : β → β} : (modifyKey k fresh f l).lookup k' =
    if k == k' then some (f ((l.lookup k).getD fresh)) else l.lookup k' := by
  induction l with
  | nil => rw [modifyKey, lookup_cons]; rfl
  | cons p rest ih =>
    obtain ⟨k'', v⟩ := p
    by_cases hk : k'' = k
    · subst hk
      simp only [modifyKey, beq_self_eq_true, if_true, lookup_cons, Option.getD_some]
      by_cases h : k'' = k' <;> simp [h]
    · simp only [modifyKey, beq_false_of_ne hk, Bool.false_eq_true, if_false, lookup_cons, ih]
      by_cases h : k'' = k'
      · have hne : k ≠ k' := fun heq => hk (h.trans heq.symm)
        simp [h, hne]
      · simp [h]

theorem modifyKey_cases (k : κ) (fresh : β) (f : β → β) (l : List (κ × β)) :
    (∃ before v after, l = before ++ (k, v) :: after ∧ k ∉ before.map Prod.fst ∧
      modifyKey k fresh f l = before ++ (k, f v) :: after) ∨
    (k ∉ l.map Prod.fst ∧ modifyKey k fresh f l = l ++ [(k, f fresh)]) := by
  induction l with
  | nil => exact .inr ⟨List.not_mem_nil, rfl⟩
  | cons p rest ih =>
    obtain ⟨k', v⟩ := p
    by_cases hk : k' = k
    · subst hk
      exact .inl ⟨[], v, rest, rfl, List.not_mem_nil, by simp [modifyKey]⟩
    · have hstep : modifyKey k fresh f ((k', v) :: rest) = (k', v) :: modifyKey k fresh f rest := by
        simp [modifyKey, hk]
      rcases ih with ⟨before, v', after, rfl, hbefore, heq⟩ | ⟨hnew, heq⟩
      · refine .inl ⟨(k', v) :: before, v', after, rfl, ?_, by rw [hstep, heq]; rfl⟩
        simpa [Ne.symm hk] using hbefore
      · refine .inr ⟨?_, by rw [hstep, heq]; rfl⟩
        simpa [Ne.symm hk] using hnew

theorem modifyKey_modifyKey {f g : β → β} (l : List (κ × β)) :
    modifyKey k fresh g (modifyKey k fresh f l) = modifyKey k fresh (g ∘ f) l := by
  induction l with
  | nil => simp [modifyKey]
  | cons p rest ih =>
    obtain ⟨k', v⟩ := p
    by_cases h : k' = k
    · simp [modifyKey, h]
    · simp [modifyKey, h, ih]

theorem lookup_foldl_insertKey (entries : List (κ × β)) (table : List (κ × β)) :
    (entries.foldl (fun table p => insertKey p.1 p.2 table) table).lookup k =
      ((entries.reverse.lookup k).or (table.lookup k)) := by
  induction entries generalizing table with
  | nil => simp
  | cons p rest ih =>
    obtain ⟨k', v⟩ := p
    rw [List.foldl_cons, ih, lookup_insertKey, List.reverse_cons, List.lookup_append, lookup_cons]
    by_cases h : k' = k <;> simp [h]

theorem lookup_collect (entries : List (κ × β)) :
    (collect entries).lookup k = entries.reverse.lookup k := by
  simp [collect, lookup_foldl_insertKey]

-- ---------------------------------------------------------------------------
-- Distinct keys
-- ---------------------------------------------------------------------------

theorem insertKey_nodup (h : (l.map Prod.fst).Nodup) :
    ((insertKey k v l).map Prod.fst).Nodup := by
  rw [insertKey, List.map_cons, List.nodup_cons]
  refine ⟨?_, (List.filter_sublist.map Prod.fst).nodup h⟩
  rw [List.mem_map]
  rintro ⟨p, hp, hkey⟩
  simpa [hkey] using (List.mem_filter.mp hp).2

theorem collect_nodup (entries : List (κ × β)) : ((collect entries).map Prod.fst).Nodup := by
  have hfold : ∀ table : List (κ × β), (table.map Prod.fst).Nodup →
      ((entries.foldl (fun table p => insertKey p.1 p.2 table) table).map Prod.fst).Nodup := by
    induction entries with
    | nil => exact fun _ h => h
    | cons p rest ih => exact fun table h => ih _ (insertKey_nodup h)
  exact hfold [] List.nodup_nil

theorem mem_iff_lookup (h : (l.map Prod.fst).Nodup) : (k, v) ∈ l ↔ l.lookup k = some v := by
  induction l with
  | nil => simp
  | cons p rest ih =>
    obtain ⟨k', v'⟩ := p
    rw [List.map_cons, List.nodup_cons] at h
    rw [List.mem_cons, lookup_cons, ih h.2]
    by_cases hk : k' = k
    · subst hk
      have hnone : rest.lookup k' = none := by
        rw [List.lookup_eq_none_iff]
        intro p hp
        have hne : k' ≠ p.1 := fun heq => h.1 (List.mem_map.mpr ⟨p, hp, heq.symm⟩)
        simpa using hne
      simp [hnone, eq_comm]
    · simp [hk, Ne.symm hk]

end SilkChiffon.Keyed
