import Mathlib.Data.List.Sort
import SilkChiffon.Lib.Keyed

/-!
# Canonical lists and groups

A list sorted by a key, with one item of each key, does not depend on the order
of what it is made of. Putting its items one by one into the group of their
kind, or into a new one behind the others, divides it.
-/

namespace SilkChiffon.Grouping

variable {α β κ : Type}

-- ---------------------------------------------------------------------------
-- One item of each key
-- ---------------------------------------------------------------------------

section
variable [DecidableEq κ]

def distinctBy (key : α → κ) : List α → List α
  | [] => []
  | a :: l => a :: (distinctBy key l).filter fun b => decide (key b ≠ key a)

/-- What follows `kept`, where an item with the key of the last one kept is
dropped. -/
def dedupFrom (key : α → κ) (kept : α) : List α → List α
  | [] => [kept]
  | a :: l => if key a = key kept then dedupFrom key kept l else kept :: dedupFrom key a l

def dedupBy (key : α → κ) : List α → List α
  | [] => []
  | a :: l => dedupFrom key a l

theorem mem_distinctBy {key : α → κ} {l : List α} :
    a ∈ distinctBy key l ↔ l.find? (fun b => decide (key b = key a)) = some a := by
  induction l with
  | nil => simp [distinctBy]
  | cons b l ih =>
    rw [distinctBy, List.mem_cons, List.mem_filter, ih, List.find?_cons]
    by_cases hkey : key b = key a
    · simp [hkey, eq_comm]
    · have hne : a ≠ b := fun h => hkey (congrArg key h.symm)
      rw [decide_eq_false hkey, or_iff_right hne, and_iff_left (decide_eq_true (Ne.symm hkey))]

theorem distinctBy_distinct {key : α → κ} {l : List α} :
    (distinctBy key l).Pairwise fun a b => key a ≠ key b := by
  induction l with
  | nil => exact .nil
  | cons a l ih =>
    refine .cons ?_ (ih.filter _)
    intro b hb
    exact Ne.symm (of_decide_eq_true (List.mem_filter.mp hb).2)

theorem dedupFrom_sublist {key : α → κ} {l : List α} : (dedupFrom key kept l).Sublist (kept :: l) := by
  induction l generalizing kept with
  | nil => exact List.Sublist.refl _
  | cons a l ih =>
    rw [dedupFrom]
    split
    · exact ih.trans ((List.sublist_cons_self a l).cons_cons kept)
    · exact ih.cons_cons kept

theorem find?_dedupFrom {key : α → κ} {l : List α} :
    (dedupFrom key kept l).find? (fun a => decide (key a = k)) =
      (kept :: l).find? (fun a => decide (key a = k)) := by
  induction l generalizing kept with
  | nil => rfl
  | cons a l ih =>
    rw [dedupFrom]
    split
    · rename_i hkey
      rw [ih]
      by_cases hk : key kept = k
      · simp [hk]
      · simp [hk, hkey]
    · simp only [List.find?_cons, ih]

theorem find?_dedupBy {key : α → κ} {l : List α} :
    (dedupBy key l).find? (fun a => decide (key a = k)) = l.find? (fun a => decide (key a = k)) := by
  cases l with
  | nil => rfl
  | cons a l => exact find?_dedupFrom

theorem mem_iff_find? {key : α → κ} {l : List α} (h : l.Pairwise fun a b => key a ≠ key b) :
    a ∈ l ↔ l.find? (fun b => decide (key b = key a)) = some a := by
  induction h with
  | nil => simp
  | @cons b l hne _ ih =>
    rw [List.mem_cons, ih, List.find?_cons]
    by_cases hkey : key b = key a
    · simp only [hkey, decide_true, Option.some.injEq]
      refine ⟨fun h => ?_, fun h => .inl h.symm⟩
      rcases h with rfl | h
      · rfl
      · exact absurd hkey (hne a (ih.mpr h))
    · have hab : a ≠ b := fun h => hkey (congrArg key h.symm)
      simp [hkey, hab]

end

-- ---------------------------------------------------------------------------
-- Sorted by the key
-- ---------------------------------------------------------------------------

theorem map_eq_of_keys {key : α → κ} {f : α → β} {l l' : List α} (hkeys : l.map key = l'.map key)
    (hf : ∀ a ∈ l, ∀ b ∈ l', key a = key b → f a = f b) : l.map f = l'.map f := by
  induction l generalizing l' with
  | nil =>
    obtain rfl := List.map_eq_nil_iff.mp hkeys.symm
    rfl
  | cons a l ih =>
    cases l' with
    | nil => cases hkeys
    | cons b l' =>
      obtain ⟨hkey, hkeys⟩ := List.cons.inj hkeys
      rw [List.map_cons, List.map_cons, hf a List.mem_cons_self b List.mem_cons_self hkey]
      refine congrArg _ (ih hkeys ?_)
      exact fun x hx y hy => hf x (List.mem_cons_of_mem _ hx) y (List.mem_cons_of_mem _ hy)

section
variable [LinearOrder κ]

def sortBy (key : α → κ) (l : List α) : List α := l.mergeSort fun a b => decide (key a ≤ key b)

def canonical (key : α → κ) (l : List α) : List α := dedupBy key (sortBy key l)

theorem sortBy_perm (key : α → κ) (l : List α) : (sortBy key l).Perm l := List.mergeSort_perm ..

theorem sortBy_sorted (key : α → κ) (l : List α) : (sortBy key l).Pairwise fun a b => key a ≤ key b := by
  have hsorted : (sortBy key l).Pairwise fun a b => decide (key a ≤ key b) := List.pairwise_mergeSort
    (fun _ _ _ hab hbc => by simpa using (of_decide_eq_true hab).trans (of_decide_eq_true hbc))
    (fun a b => by simpa using le_total (key a) (key b)) l
  exact hsorted.imp of_decide_eq_true

theorem filter_sortBy (key : α → κ) (l : List α) :
    (sortBy key l).filter (fun a => decide (key a = k)) = l.filter fun a => decide (key a = k) := by
  have hequal : (l.filter fun a => decide (key a = k)).Pairwise fun a b => decide (key a ≤ key b) := by
    refine List.pairwise_of_forall_mem_list fun a ha b hb => ?_
    have ha : key a = k := of_decide_eq_true (List.mem_filter.mp ha).2
    have hb : key b = k := of_decide_eq_true (List.mem_filter.mp hb).2
    simp [ha, hb]
  have hsublist : (l.filter fun a => decide (key a = k)).Sublist (sortBy key l) := List.sublist_mergeSort
    (fun _ _ _ hab hbc => by simpa using (of_decide_eq_true hab).trans (of_decide_eq_true hbc))
    (fun a b => by simpa using le_total (key a) (key b)) hequal List.filter_sublist
  have hfilter := hsublist.filter fun a => decide (key a = k)
  rw [List.filter_filter] at hfilter
  simp only [Bool.and_self] at hfilter
  exact (hfilter.eq_of_length_le ((sortBy_perm key l).filter _).length_eq.le).symm

theorem find?_canonical (key : α → κ) (l : List α) :
    (canonical key l).find? (fun a => decide (key a = k)) = l.find? fun a => decide (key a = k) := by
  rw [canonical, find?_dedupBy, ← List.head?_filter, filter_sortBy, List.head?_filter]

theorem dedupFrom_sorted {key : α → κ} {l : List α} (h : (kept :: l).Pairwise fun a b => key a ≤ key b) :
    (dedupFrom key kept l).Pairwise fun a b => key a < key b := by
  induction l generalizing kept with
  | nil => exact List.pairwise_singleton ..
  | cons a l ih =>
    obtain ⟨hkept, hrest⟩ := List.pairwise_cons.mp h
    rw [dedupFrom]
    split
    · refine ih (List.pairwise_cons.mpr ⟨?_, (List.pairwise_cons.mp hrest).2⟩)
      exact fun b hb => hkept b (List.mem_cons_of_mem _ hb)
    · rename_i hne
      have hlt : key kept < key a := lt_of_le_of_ne (hkept a List.mem_cons_self) (Ne.symm hne)
      refine .cons (fun b hb => ?_) (ih hrest)
      rcases List.mem_cons.mp (dedupFrom_sublist.subset hb) with rfl | hb
      · exact hlt
      · exact hlt.trans_le ((List.pairwise_cons.mp hrest).1 b hb)

theorem canonical_sorted (key : α → κ) (l : List α) : (canonical key l).Pairwise fun a b => key a < key b := by
  have hsorted := sortBy_sorted key l
  unfold canonical
  cases hl : sortBy key l with
  | nil => exact .nil
  | cons a rest =>
    rw [hl] at hsorted
    exact dedupFrom_sorted hsorted

theorem mem_canonical {key : α → κ} {l : List α} :
    a ∈ canonical key l ↔ l.find? (fun b => decide (key b = key a)) = some a := by
  rw [mem_iff_find? ((canonical_sorted key l).imp ne_of_lt), find?_canonical]

theorem canonical_perm (key : α → κ) (l : List α) : (canonical key l).Perm (distinctBy key l) := by
  have hnodup : ∀ {l : List α}, (l.Pairwise fun a b => key a ≠ key b) → l.Nodup :=
    fun h => h.imp fun hne heq => hne (congrArg key heq)
  refine (List.perm_ext_iff_of_nodup (hnodup ((canonical_sorted key l).imp ne_of_lt))
    (hnodup distinctBy_distinct)).mpr fun a => ?_
  rw [mem_canonical, mem_distinctBy]

theorem mem_of_mem_canonical {key : α → κ} {l : List α} (h : a ∈ canonical key l) : a ∈ l :=
  List.mem_of_find?_eq_some (mem_canonical.mp h)

theorem mem_canonical_keys {key : α → κ} {l : List α} : k ∈ (canonical key l).map key ↔ k ∈ l.map key := by
  constructor
  · intro h
    obtain ⟨a, ha, rfl⟩ := List.mem_map.mp h
    exact List.mem_map_of_mem (mem_of_mem_canonical ha)
  · intro h
    obtain ⟨a, ha, rfl⟩ := List.mem_map.mp h
    cases hfind : l.find? (fun b => decide (key b = key a)) with
    | none => simpa using List.find?_eq_none.mp hfind a ha
    | some b =>
      have hkey : key b = key a := by simpa using List.find?_some hfind
      exact hkey ▸ List.mem_map_of_mem (mem_canonical.mpr (hkey ▸ hfind))

/-- What items of one key agree in is not a matter of their order. -/
theorem canonical_congr {key : α → κ} {f : α → β} {l l' : List α} (hperm : l.Perm l')
    (hf : ∀ a ∈ l, ∀ b ∈ l, key a = key b → f a = f b) :
    (canonical key l).map f = (canonical key l').map f := by
  have hkeys : (canonical key l).map key = (canonical key l').map key := by
    refine (List.pairwise_map.mpr (canonical_sorted key l)).eq_of_mem_iff
      (List.pairwise_map.mpr (canonical_sorted key l')) fun k => ?_
    rw [mem_canonical_keys, mem_canonical_keys, (hperm.map key).mem_iff]
  refine map_eq_of_keys hkeys fun a ha b hb => ?_
  exact hf a (mem_of_mem_canonical ha) b (hperm.mem_iff.mpr (mem_of_mem_canonical hb))

end

-- ---------------------------------------------------------------------------
-- Groups
-- ---------------------------------------------------------------------------

section

/-- Nothing is lost, and no two groups are of one kind. -/
structure IsPartition (kind : α → κ) (l : List α) (groups : List (κ × List α)) : Prop where
  perm : (groups.flatMap (·.2)).Perm l
  nonempty : ∀ g ∈ groups, g.2 ≠ []
  homogeneous : ∀ g ∈ groups, ∀ a ∈ g.2, kind a = g.1
  distinct : (groups.map (·.1)).Nodup
  ordered : ∀ g ∈ groups, g.2.Sublist l
  firsts : (groups.filterMap (·.2.head?)).Sublist l

theorem IsPartition.nil {kind : α → κ} : IsPartition kind [] [] where
  perm := .nil
  nonempty := by simp
  homogeneous := by simp
  distinct := List.nodup_nil
  ordered := by simp
  firsts := List.Sublist.refl _

variable [DecidableEq κ]

def addTo (kind : α → κ) (groups : List (κ × List α)) (a : α) : List (κ × List α) :=
  Keyed.modifyKey (kind a) [] (· ++ [a]) groups

def groupsOf (kind : α → κ) (l : List α) : List (κ × List α) := l.foldl (addTo kind) []

theorem addTo_nil {kind : α → κ} {a : α} : addTo kind [] a = [(kind a, [a])] := rfl

theorem addTo_cons {kind : α → κ} {groups : List (κ × List α)} {a : α} {g : κ × List α} :
    addTo kind (g :: groups) a =
      if g.1 = kind a then (g.1, g.2 ++ [a]) :: groups else g :: addTo kind groups a := by
  rw [addTo, Keyed.modifyKey]
  by_cases h : g.1 = kind a
  · rw [if_pos (beq_iff_eq.mpr h), if_pos h]
  · rw [if_neg fun heq => h (beq_iff_eq.mp heq), if_neg h, addTo]

theorem IsPartition.addTo {kind : α → κ} {l : List α} {groups : List (κ × List α)} (h : IsPartition kind l groups)
    (a : α) : IsPartition kind (l ++ [a]) (addTo kind groups a) := by
  have hgrow : l.Sublist (l ++ [a]) := List.sublist_append_left ..
  rcases Keyed.modifyKey_cases (kind a) [] (· ++ [a]) groups with
    ⟨before, items, after, rfl, -, hadd⟩ | ⟨hnew, hadd⟩
  · have hgroup : (kind a, items) ∈ before ++ (kind a, items) :: after := by simp
    obtain ⟨first, rest, rfl⟩ := List.exists_cons_of_ne_nil (h.nonempty _ hgroup)
    have hother : ∀ g ∈ before ++ after, g ∈ before ++ (kind a, first :: rest) :: after := by
      simp only [List.mem_append, List.mem_cons]
      tauto
    have hcases : ∀ g ∈ Grouping.addTo kind (before ++ (kind a, first :: rest) :: after) a,
        g = (kind a, first :: rest ++ [a]) ∨ g ∈ before ++ after := by
      rw [Grouping.addTo, hadd]
      simp only [List.mem_append, List.mem_cons]
      tauto
    constructor
    · have hperm := h.perm
      rw [Grouping.addTo, hadd]
      simp only [List.flatMap_append, List.flatMap_cons] at hperm ⊢
      calc before.flatMap (·.2) ++ (first :: rest ++ [a] ++ after.flatMap (·.2))
        _ = before.flatMap (·.2) ++ (first :: rest) ++ ([a] ++ after.flatMap (·.2)) := by simp
        _ |>.Perm (before.flatMap (·.2) ++ (first :: rest) ++ (after.flatMap (·.2) ++ [a])) :=
          List.perm_append_comm.append_left _
        _ = before.flatMap (·.2) ++ (first :: rest ++ after.flatMap (·.2)) ++ [a] := by simp
        _ |>.Perm (l ++ [a]) := hperm.append_right [a]
    · intro g hg
      rcases hcases g hg with rfl | hg
      · simp
      · exact h.nonempty g (hother g hg)
    · intro g hg b hb
      rcases hcases g hg with rfl | hg
      · rcases List.mem_append.mp hb with hb | hb
        · exact h.homogeneous _ hgroup b hb
        · rw [List.mem_singleton.mp hb]
      · exact h.homogeneous g (hother g hg) b hb
    · have hdistinct := h.distinct
      rw [Grouping.addTo, hadd]
      simpa using hdistinct
    · intro g hg
      rcases hcases g hg with rfl | hg
      · exact (h.ordered _ hgroup).append_right [a]
      · exact (h.ordered g (hother g hg)).trans hgrow
    · have hfirsts := h.firsts.trans hgrow
      rw [Grouping.addTo, hadd]
      simpa using hfirsts
  · have hcases : ∀ g ∈ Grouping.addTo kind groups a, g ∈ groups ∨ g = (kind a, [a]) := by
      rw [Grouping.addTo, hadd]
      simp
    constructor
    · rw [Grouping.addTo, hadd]
      simpa using h.perm.append_right [a]
    · intro g hg
      rcases hcases g hg with hg | rfl
      · exact h.nonempty g hg
      · simp
    · intro g hg b hb
      rcases hcases g hg with hg | rfl
      · exact h.homogeneous g hg b hb
      · rw [List.mem_singleton.mp hb]
    · rw [Grouping.addTo, hadd, List.map_append]
      exact List.nodup_append_comm.mp (List.nodup_cons.mpr ⟨hnew, h.distinct⟩)
    · intro g hg
      rcases hcases g hg with hg | rfl
      · exact (h.ordered g hg).trans hgrow
      · exact List.sublist_append_right ..
    · rw [Grouping.addTo, hadd, List.filterMap_append]
      exact h.firsts.append_right [a]

theorem groupsOf_isPartition (kind : α → κ) (l : List α) : IsPartition kind l (groupsOf kind l) := by
  have hrun : ∀ done groups, IsPartition kind done groups → IsPartition kind (done ++ l) (l.foldl (addTo kind) groups) := by
    induction l with
    | nil => simp
    | cons a l ih =>
      intro done groups h
      have hrest := ih (done ++ [a]) (addTo kind groups a) (h.addTo a)
      rwa [List.append_assoc] at hrest
  exact hrun [] [] .nil

end

end SilkChiffon.Grouping
