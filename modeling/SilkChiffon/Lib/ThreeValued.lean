import Mathlib.Data.List.Basic

/-!
# Three-valued conditions

Conditions as SQL evaluates them: a comparison with a missing value is
unknown, `AND` takes the lesser and `OR` the greater of its sides. A condition
is a tree of `AND`, `OR` and `NOT` over leaves of any kind.
-/

namespace SilkChiffon.ThreeValued

inductive Truth
  | fails | unknown | holds
  deriving DecidableEq, Repr

namespace Truth

def and : Truth → Truth → Truth
  | .fails, _ | _, .fails => .fails
  | .unknown, _ | _, .unknown => .unknown
  | .holds, .holds => .holds

def or : Truth → Truth → Truth
  | .holds, _ | _, .holds => .holds
  | .unknown, _ | _, .unknown => .unknown
  | .fails, .fails => .fails

def not : Truth → Truth
  | .fails => .holds
  | .unknown => .unknown
  | .holds => .fails

def ofBool : Bool → Truth
  | true => .holds
  | false => .fails

@[simp] theorem and_eq_holds : and a b = .holds ↔ a = .holds ∧ b = .holds := by
  cases a <;> cases b <;> simp [and]

@[simp] theorem ofBool_eq_holds : ofBool b = .holds ↔ b = true := by cases b <;> simp [ofBool]

@[simp] theorem ofBool_ne_unknown : ofBool b ≠ .unknown := by cases b <;> simp [ofBool]

@[simp] theorem ofBool_inj : ofBool a = ofBool b ↔ a = b := by
  cases a <;> cases b <;> simp [ofBool]

end Truth

inductive Condition (α : Type u)
  | leaf (a : α)
  | and (left right : Condition α)
  | or (left right : Condition α)
  | not (child : Condition α)
  deriving DecidableEq, Repr

namespace Condition

def leaves : Condition α → List α
  | .leaf a => [a]
  | .and left right | .or left right => left.leaves ++ right.leaves
  | .not child => child.leaves

def eval (truth : α → Truth) : Condition α → Truth
  | .leaf a => truth a
  | .and left right => (left.eval truth).and (right.eval truth)
  | .or left right => (left.eval truth).or (right.eval truth)
  | .not child => (child.eval truth).not

/-- The same tree with every leaf mapped, if every leaf can be. -/
def traverse (f : α → Option β) : Condition α → Option (Condition β)
  | .leaf a => (f a).map .leaf
  | .and left right => do return .and (← left.traverse f) (← right.traverse f)
  | .or left right => do return .or (← left.traverse f) (← right.traverse f)
  | .not child => do return .not (← child.traverse f)

theorem traverse_eq_none {c : Condition α} :
    c.traverse f = none ↔ ∃ a ∈ c.leaves, f a = none := by
  induction c with
  | leaf a => simp [traverse, leaves]
  | and left right ihl ihr | or left right ihl ihr =>
    simp only [traverse, leaves, List.mem_append, or_and_right, exists_or, ← ihl, ← ihr]
    cases left.traverse f <;> cases right.traverse f <;> simp
  | not child ih =>
    simp only [traverse, leaves, ← ih]
    cases child.traverse f <;> simp

theorem traverse_eval {c : Condition α} {c' : Condition β} (h : c.traverse f = some c')
    (heq : ∀ a ∈ c.leaves, ∀ b, f a = some b → g b = t a) : c'.eval g = c.eval t := by
  induction c generalizing c' with
  | leaf a =>
    obtain ⟨b, hb, rfl⟩ := Option.map_eq_some_iff.mp h
    exact heq a (by simp [leaves]) b hb
  | and left right ihl ihr | or left right ihl ihr =>
    simp only [traverse, Option.pure_def, Option.bind_eq_bind, Option.bind_eq_some_iff] at h
    obtain ⟨l, hl, r, hr, h⟩ := h
    cases h
    simp only [leaves, List.forall_mem_append] at heq
    simp only [eval, ihl hl heq.1, ihr hr heq.2]
  | not child ih =>
    simp only [traverse, Option.pure_def, Option.bind_eq_bind, Option.bind_eq_some_iff] at h
    obtain ⟨c, hc, h⟩ := h
    cases h
    simp only [eval, ih hc heq]

theorem mem_leaves_traverse {c : Condition α} {c' : Condition β} (h : c.traverse f = some c') :
    b ∈ c'.leaves ↔ ∃ a ∈ c.leaves, f a = some b := by
  induction c generalizing c' with
  | leaf a =>
    obtain ⟨b', hb, rfl⟩ := Option.map_eq_some_iff.mp h
    simp [leaves, hb, eq_comm]
  | and left right ihl ihr | or left right ihl ihr =>
    simp only [traverse, Option.pure_def, Option.bind_eq_bind, Option.bind_eq_some_iff] at h
    obtain ⟨l, hl, r, hr, h⟩ := h
    cases h
    simp only [leaves, List.mem_append, ihl hl, ihr hr, or_and_right, exists_or]
  | not child ih =>
    simp only [traverse, Option.pure_def, Option.bind_eq_bind, Option.bind_eq_some_iff] at h
    obtain ⟨c, hc, h⟩ := h
    cases h
    simpa only [leaves] using ih hc

theorem eval_congr {c : Condition α} (h : ∀ a ∈ c.leaves, t a = t' a) : c.eval t = c.eval t' := by
  induction c with
  | leaf a => exact h a (by simp [leaves])
  | and left right ihl ihr | or left right ihl ihr =>
    simp only [leaves, List.forall_mem_append] at h
    simp only [eval, ihl h.1, ihr h.2]
  | not child ih => simp only [eval, ih h]

theorem eval_unknown {c : Condition α} (h : ∀ a ∈ c.leaves, t a = .unknown) :
    c.eval t = .unknown := by
  induction c with
  | leaf a => exact h a (by simp [leaves])
  | and left right ihl ihr | or left right ihl ihr =>
    simp only [leaves, List.forall_mem_append] at h
    simp only [eval, ihl h.1, ihr h.2, Truth.and, Truth.or]
  | not child ih => simp only [eval, ih h, Truth.not]

/-- The conjunction of a nonempty list, associated to the left. -/
def conjunction (first : Condition α) (rest : List (Condition α)) : Condition α :=
  rest.foldl .and first

end Condition

end SilkChiffon.ThreeValued
