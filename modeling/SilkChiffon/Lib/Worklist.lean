import Mathlib.Algebra.BigOperators.Group.List.Basic
import Mathlib.Tactic.Ring
import SilkChiffon.Lib.Lists

/-!
# Worklists

A loop that takes an item from a list of pending ones, visits it and puts its
children on the list. Whichever item is taken next, every item below the first
ones is visited once.
-/

namespace SilkChiffon.Worklist

variable {α σ ε : Type}

/-- The items that a visit adds, and a size in which they fit. -/
structure Branching (α : Type) where
  children : α → List α
  size : α → Nat
  shrinks : ∀ a, ((children a).map size).sum < size a

namespace Branching

variable (tree : Branching α)

def weight (pending : List α) : Nat := (pending.map tree.size).sum

theorem weight_append (pending pending' : List α) :
    tree.weight (pending ++ pending') = tree.weight pending + tree.weight pending' := by
  simp [weight]

theorem weight_perm {pending pending' : List α} (h : pending.Perm pending') :
    tree.weight pending = tree.weight pending' :=
  (h.map tree.size).sum_eq

theorem weight_visit {pending rest : List α} (h : pending.Perm (a :: rest)) :
    tree.weight (rest ++ tree.children a) < tree.weight pending := by
  have hlt := tree.shrinks a
  have hweight : tree.weight (a :: rest) = tree.size a + tree.weight rest := by simp [weight]
  rw [tree.weight_perm h, hweight, weight_append]
  unfold weight
  omega

/-- The items at and below the pending ones, once for every way to them. -/
def nodes (pending : List α) : List α :=
  match pending with
  | [] => []
  | a :: rest => a :: nodes (tree.children a ++ rest)
termination_by tree.weight pending
decreasing_by
  rw [tree.weight_perm List.perm_append_comm]
  exact tree.weight_visit (.refl _)

@[simp] theorem nodes_nil : tree.nodes [] = [] := by
  rw [nodes]

theorem nodes_append (pending pending' : List α) :
    tree.nodes (pending ++ pending') = tree.nodes pending ++ tree.nodes pending' := by
  induction pending using nodes.induct tree with
  | case1 => simp
  | case2 a rest ih => rw [List.cons_append, nodes, nodes, ← List.append_assoc, ih, List.cons_append]

theorem nodes_cons (a : α) (rest : List α) :
    tree.nodes (a :: rest) = a :: (tree.nodes (tree.children a) ++ tree.nodes rest) := by
  rw [nodes, nodes_append]

theorem nodes_perm {pending pending' : List α} (h : pending.Perm pending') :
    (tree.nodes pending).Perm (tree.nodes pending') := by
  induction h with
  | nil => exact .refl _
  | cons a _ ih =>
    rw [nodes_cons, nodes_cons]
    exact (ih.append_left _).cons a
  | swap a b l =>
    rw [nodes_cons, nodes_cons, nodes_cons, nodes_cons]
    have hswap : (tree.nodes (tree.children b) ++ a :: (tree.nodes (tree.children a) ++ tree.nodes l)).Perm
        (a :: (tree.nodes (tree.children a) ++ (tree.nodes (tree.children b) ++ tree.nodes l))) :=
      List.perm_middle.trans ((List.perm_append_comm_assoc ..).cons a)
    exact (hswap.cons b).trans ((List.Perm.swap a b _).trans (List.perm_middle.symm.cons a))
  | trans _ _ ih ih' => exact ih.trans ih'

theorem nodes_unique {list : List α → List α} (hnil : list [] = [])
    (hcons : ∀ a rest, list (a :: rest) = a :: list (tree.children a ++ rest)) (pending : List α) :
    tree.nodes pending = list pending := by
  induction pending using nodes.induct tree with
  | case1 => rw [nodes_nil, hnil]
  | case2 a rest ih => rw [nodes, hcons, ih]

inductive Reached (pending : List α) : α → Prop
  | first : a ∈ pending → Reached pending a
  | child : Reached pending a → b ∈ tree.children a → Reached pending b

theorem subset_nodes {pending : List α} (h : a ∈ pending) : a ∈ tree.nodes pending := by
  obtain ⟨before, after, rfl⟩ := List.append_of_mem h
  rw [nodes_append, nodes_cons]
  simp

theorem child_mem_nodes {pending : List α} (h : a ∈ tree.nodes pending) (hb : b ∈ tree.children a) :
    b ∈ tree.nodes pending := by
  induction pending using nodes.induct tree with
  | case1 => simp at h
  | case2 c rest ih =>
    rw [nodes] at h ⊢
    rcases List.mem_cons.mp h with rfl | h
    · exact List.mem_cons_of_mem _ (tree.subset_nodes (List.mem_append_left _ hb))
    · exact List.mem_cons_of_mem _ (ih h)

theorem mem_nodes {pending : List α} : a ∈ tree.nodes pending ↔ tree.Reached pending a := by
  constructor
  · intro h
    induction pending using nodes.induct tree with
    | case1 => simp at h
    | case2 c rest ih =>
      have hmono : ∀ b, tree.Reached (tree.children c ++ rest) b → tree.Reached (c :: rest) b := by
        intro b hb
        induction hb with
        | first hmem =>
          rcases List.mem_append.mp hmem with hmem | hmem
          · exact .child (.first List.mem_cons_self) hmem
          · exact .first (List.mem_cons_of_mem _ hmem)
        | child _ hmem ih => exact .child ih hmem
      rw [nodes] at h
      rcases List.mem_cons.mp h with rfl | h
      · exact .first List.mem_cons_self
      · exact hmono a (ih h)
  · intro h
    induction h with
    | first hmem => exact tree.subset_nodes hmem
    | child _ hmem ih => exact tree.child_mem_nodes ih hmem

inductive Visits : List α → List α → Prop
  | done : Visits [] []
  | visit : List.Perm pending (a :: rest) → Visits (rest ++ tree.children a) visited → Visits pending (a :: visited)

/-- In every order the same items are visited, each of them once. -/
theorem Visits.perm_nodes {tree : Branching α} (h : tree.Visits pending visited) :
    visited.Perm (tree.nodes pending) := by
  induction h with
  | done => rw [nodes_nil]
  | @visit pending a rest visited hpending _ ih =>
    refine (ih.cons a).trans (.trans ?_ (tree.nodes_perm hpending).symm)
    rw [nodes_cons, nodes_append]
    exact List.perm_append_comm.cons a

def Round (after before : List α) : Prop :=
  ∃ a rest, before.Perm (a :: rest) ∧ after = rest ++ tree.children a

theorem wellFounded_round : WellFounded tree.Round := by
  refine Subrelation.wf ?_ (measure tree.weight).wf
  rintro _ before ⟨a, rest, hbefore, rfl⟩
  exact tree.weight_visit hbefore

-- ---------------------------------------------------------------------------
-- The last item first
-- ---------------------------------------------------------------------------

theorem perm_of_getLast? {pending : List α} (h : pending.getLast? = some a) :
    pending.Perm (a :: pending.dropLast) := by
  have hsplit : pending = pending.dropLast ++ [a] := (List.dropLast_append_getLast? a h).symm
  exact (List.Perm.of_eq hsplit).trans List.perm_append_comm

/-- `while let Some(item) = pending.pop()`, the children going to the end. -/
def order (pending : List α) : List α :=
  match _h : pending.getLast? with
  | none => []
  | some a => a :: order (pending.dropLast ++ tree.children a)
termination_by tree.weight pending
decreasing_by exact tree.weight_visit (perm_of_getLast? _h)

theorem order_some {pending : List α} (h : pending.getLast? = some a) :
    tree.order pending = a :: tree.order (pending.dropLast ++ tree.children a) := by
  rw [order]
  split
  · rename_i hnone
    cases h.symm.trans hnone
  · rename_i hsome
    obtain rfl := Option.some.inj (h.symm.trans hsome)
    rfl

@[simp] theorem order_nil : tree.order [] = [] := by
  rw [order]
  rfl

theorem visits_order (pending : List α) : tree.Visits pending (tree.order pending) := by
  induction pending using order.induct tree with
  | case1 pending h =>
    obtain rfl := List.getLast?_eq_none_iff.mp h
    rw [order_nil]
    exact .done
  | case2 pending a h ih =>
    rw [tree.order_some h]
    exact .visit (perm_of_getLast? h) ih

def run (f : σ → α → Except ε σ) (s : σ) (pending : List α) : Except ε σ :=
  match _h : pending.getLast? with
  | none => .ok s
  | some a => do
    let s' ← f s a
    run f s' (pending.dropLast ++ tree.children a)
termination_by tree.weight pending
decreasing_by exact tree.weight_visit (perm_of_getLast? _h)

theorem run_some {f : σ → α → Except ε σ} {pending : List α} (h : pending.getLast? = some a) :
    tree.run f s pending = f s a >>= fun s' => tree.run f s' (pending.dropLast ++ tree.children a) := by
  rw [run]
  split
  · rename_i hnone
    cases h.symm.trans hnone
  · rename_i hsome
    obtain rfl := Option.some.inj (h.symm.trans hsome)
    rfl

@[simp] theorem run_nil {f : σ → α → Except ε σ} : tree.run f s [] = .ok s := by
  rw [run]
  rfl

theorem run_eq_foldlM (f : σ → α → Except ε σ) (s : σ) (pending : List α) :
    tree.run f s pending = (tree.order pending).foldlM f s := by
  induction pending using order.induct tree generalizing s with
  | case1 pending h =>
    obtain rfl := List.getLast?_eq_none_iff.mp h
    rw [run_nil, order_nil]
    rfl
  | case2 pending a h ih =>
    rw [tree.run_some h, tree.order_some h, List.foldlM_cons]
    exact bind_congr fun s' => ih s'

-- ---------------------------------------------------------------------------
-- Any item first
-- ---------------------------------------------------------------------------

/-- The ends of the loop when any pending item may be next. -/
inductive Runs (f : σ → α → Except ε σ) : σ → List α → Except ε σ → Prop
  | done : Runs f s [] (.ok s)
  | visit : List.Perm pending (a :: rest) → f s a = .ok s' → Runs f s' (rest ++ tree.children a) outcome →
      Runs f s pending outcome
  | fail : List.Perm pending (a :: rest) → f s a = .error e → Runs f s pending (.error e)

/-- Every end is the fold in some order of all items. -/
theorem Runs.exists_order {tree : Branching α} {f : σ → α → Except ε σ} (h : tree.Runs f s pending outcome) :
    ∃ visited, tree.Visits pending visited ∧ visited.foldlM f s = outcome := by
  induction h with
  | done => exact ⟨[], .done, rfl⟩
  | @visit pending a rest s s' outcome hpending hvisit _ ih =>
    obtain ⟨visited, hvisited, houtcome⟩ := ih
    refine ⟨a :: visited, .visit hpending hvisited, ?_⟩
    rw [List.foldlM_cons, hvisit]
    exact houtcome
  | @fail pending a rest s e hpending hvisit =>
    refine ⟨a :: tree.order (rest ++ tree.children a), .visit hpending (tree.visits_order _), ?_⟩
    rw [List.foldlM_cons, hvisit]
    rfl

theorem Visits.runs {tree : Branching α} (f : σ → α → Except ε σ) (h : tree.Visits pending visited) (s : σ) :
    tree.Runs f s pending (visited.foldlM f s) := by
  induction h generalizing s with
  | done => exact .done
  | @visit pending a rest visited hpending _ ih =>
    rw [List.foldlM_cons]
    cases hvisit : f s a with
    | error e => exact .fail hpending hvisit
    | ok s' => exact .visit hpending hvisit (ih s')

theorem run_runs (f : σ → α → Except ε σ) (s : σ) (pending : List α) :
    tree.Runs f s pending (tree.run f s pending) := by
  rw [run_eq_foldlM]
  exact (tree.visits_order pending).runs f s

theorem Runs.check_ok {tree : Branching α} {check : α → Except ε Unit} {outcome : Except ε Unit}
    (h : tree.Runs (fun _ a => check a) ⟨⟩ pending outcome) :
    outcome = .ok ⟨⟩ ↔ ∀ a ∈ tree.nodes pending, check a = .ok ⟨⟩ := by
  obtain ⟨visited, hvisited, rfl⟩ := h.exists_order
  simp only [← hvisited.perm_nodes.mem_iff]
  clear h hvisited
  induction visited with
  | nil => simp [pure, Except.pure]
  | cons a rest ih =>
    rw [List.foldlM_cons, List.forall_mem_cons, Lists.bind_eq_ok]
    constructor
    · rintro ⟨_, ha, hrest⟩
      exact ⟨ha, ih.mp hrest⟩
    · rintro ⟨ha, hrest⟩
      exact ⟨⟨⟩, ha, ih.mpr hrest⟩

end Branching

end SilkChiffon.Worklist
