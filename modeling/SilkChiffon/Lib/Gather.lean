import Mathlib.Data.List.Range
import Mathlib.Logic.Relation
import SilkChiffon.Lib.Grouping
import SilkChiffon.Lib.Lists

/-!
# Gathering the outcomes of concurrent tasks

Numbered tasks are started in order and at most `limit` of them run at once.
An outcome is collected when its task ends, in any order, and the first failure
ends all. Sorted by their numbers the outcomes are those of the tasks run one
after the other.
-/

namespace SilkChiffon.Gather

open Grouping (sortBy sortBy_perm sortBy_sorted)

structure State (α : Type) where
  started : Nat
  running : List Nat
  collected : List (Nat × α)

def State.new : State α := ⟨0, [], []⟩

variable {outcome : Nat → Except ε α} {n limit : Nat}

inductive Step (outcome : Nat → Except ε α) (n limit : Nat) : State α → State α → Prop
  | start (hmore : s.started < n) (hroom : s.running.length < limit) :
      Step outcome n limit s { s with started := s.started + 1, running := s.running ++ [s.started] }
  | collect (hrunning : i ∈ s.running) (houtcome : outcome i = .ok a) :
      Step outcome n limit s { s with running := s.running.erase i, collected := s.collected ++ [(i, a)] }

def Reachable (outcome : Nat → Except ε α) (n limit : Nat) (s : State α) : Prop :=
  Relation.ReflTransGen (Step outcome n limit) .new s

inductive Ends (outcome : Nat → Except ε α) (n : Nat) (s : State α) : Except ε (List (Nat × α)) → Prop
  | all (hstarted : s.started = n) (hidle : s.running = []) : Ends outcome n s (.ok s.collected)
  | failed (hrunning : i ∈ s.running) (houtcome : outcome i = .error e) : Ends outcome n s (.error e)

def Gathers (outcome : Nat → Except ε α) (n limit : Nat) (result : Except ε (List (Nat × α))) : Prop :=
  ∃ s, Reachable outcome n limit s ∧ Ends outcome n s result

def oneByOne (outcome : Nat → Except ε α) (n : Nat) : Except ε (List (Nat × α)) :=
  (List.range n).mapM fun i => (outcome i).map (i, ·)

-- ---------------------------------------------------------------------------
-- Every task runs once
-- ---------------------------------------------------------------------------

structure Sound (outcome : Nat → Except ε α) (n limit : Nat) (s : State α) : Prop where
  once : (s.running ++ s.collected.map Prod.fst).Perm (List.range s.started)
  started_le : s.started ≤ n
  running_le : s.running.length ≤ limit
  collected : ∀ entry ∈ s.collected, outcome entry.1 = .ok entry.2

theorem sound_new : Sound outcome n limit .new :=
  ⟨List.Perm.refl _, Nat.zero_le _, Nat.zero_le _, List.forall_mem_nil _⟩

theorem Sound.step (hs : Sound outcome n limit s) (h : Step outcome n limit s s') : Sound outcome n limit s' := by
  obtain ⟨honce, hstarted, hrunning, hcollected⟩ := hs
  cases h with
  | start hmore hroom =>
    refine ⟨?_, hmore, by simpa using Nat.succ_le_of_lt hroom, hcollected⟩
    have hbehind : ([s.started] ++ s.collected.map Prod.fst).Perm (s.collected.map Prod.fst ++ [s.started]) :=
      List.perm_append_comm
    rw [List.range_succ, List.append_assoc]
    refine (hbehind.append_left s.running).trans ?_
    rw [← List.append_assoc]
    exact honce.append_right _
  | @collect i _ a hmem houtcome =>
    refine ⟨?_, hstarted, (List.length_erase_le ..).trans hrunning, ?_⟩
    · rw [List.map_append, ← List.append_assoc]
      refine List.perm_append_comm.trans (List.Perm.trans ?_ honce)
      exact (List.perm_cons_erase hmem).symm.append_right _
    · simpa [or_imp, forall_and, houtcome] using hcollected

theorem reachable_sound (h : Reachable outcome n limit s) : Sound outcome n limit s := by
  induction h with
  | refl => exact sound_new
  | tail _ hstep ih => exact ih.step hstep

theorem Sound.lt (hs : Sound outcome n limit s) (hi : i ∈ s.running) : i < n := by
  have hstarted := hs.once.subset (List.mem_append_left _ hi)
  exact (List.mem_range.mp hstarted).trans_le hs.started_le

-- ---------------------------------------------------------------------------
-- What is gathered
-- ---------------------------------------------------------------------------

theorem sortBy_collected (hs : Sound outcome n limit s) (hstarted : s.started = n) (hidle : s.running = []) :
    (sortBy Prod.fst s.collected).map Prod.fst = List.range n := by
  have honce := hs.once
  rw [hidle, hstarted, List.nil_append] at honce
  have hperm := ((sortBy_perm Prod.fst s.collected).map Prod.fst).trans honce
  have hsorted : ((sortBy Prod.fst s.collected).map Prod.fst).Pairwise (· ≤ ·) :=
    List.pairwise_map.mpr (sortBy_sorted Prod.fst s.collected)
  exact hperm.eq_of_pairwise (fun _ _ _ _ => Nat.le_antisymm) hsorted List.pairwise_le_range

theorem mapM_outcomes {entries : List (Nat × α)} (h : ∀ entry ∈ entries, outcome entry.1 = .ok entry.2) :
    (entries.map Prod.fst).mapM (fun i => (outcome i).map (i, ·)) = .ok entries := by
  rw [Lists.mapM_eq_ok_iff_forall₂, List.forall₂_map_left_iff, List.forall₂_same]
  intro entry hentry
  rw [h entry hentry]
  rfl

theorem gathers_ok (h : Gathers outcome n limit (.ok collected)) :
    oneByOne outcome n = .ok (sortBy Prod.fst collected) := by
  obtain ⟨s, hreachable, hends⟩ := h
  have hsound := reachable_sound hreachable
  cases hends with
  | all hstarted hidle =>
    rw [oneByOne, ← sortBy_collected hsound hstarted hidle]
    exact mapM_outcomes fun entry hentry => hsound.collected entry ((sortBy_perm ..).subset hentry)

theorem gathers_error (h : Gathers outcome n limit (.error e)) : ∃ i, i < n ∧ outcome i = .error e := by
  obtain ⟨s, hreachable, hends⟩ := h
  cases hends with
  | failed hrunning houtcome => exact ⟨_, (reachable_sound hreachable).lt hrunning, houtcome⟩

theorem oneByOne_ok (h : oneByOne outcome n = .ok entries) (hi : i < n) : ∃ a, outcome i = .ok a := by
  obtain ⟨before, after, hrange⟩ := List.mem_iff_append.mp (List.mem_range.mpr hi)
  rw [oneByOne, hrange] at h
  obtain ⟨-, _, -, hrest, -⟩ := Lists.mapM_append_eq_ok.mp h
  obtain ⟨_, _, hentry, -, -⟩ := Lists.mapM_cons_eq_ok.mp hrest
  obtain ⟨a, ha, -⟩ := Lists.map_eq_ok.mp hentry
  exact ⟨a, ha⟩

theorem gathers_of_oneByOne (hall : oneByOne outcome n = .ok entries) (h : Gathers outcome n limit result) :
    ∃ collected, result = .ok collected ∧ sortBy Prod.fst collected = entries := by
  cases result with
  | ok collected => exact ⟨collected, rfl, Except.ok.inj ((gathers_ok h).symm.trans hall)⟩
  | error e =>
    obtain ⟨i, hi, hfailed⟩ := gathers_error h
    obtain ⟨a, ha⟩ := oneByOne_ok hall hi
    cases hfailed.symm.trans ha

-- ---------------------------------------------------------------------------
-- Every run ends
-- ---------------------------------------------------------------------------

def State.steps (s : State α) : Nat := s.started + s.collected.length

theorem Step.steps_succ (h : Step outcome n limit s s') : s'.steps = s.steps + 1 := by
  cases h <;> simp [State.steps] <;> omega

theorem Sound.steps_le (hs : Sound outcome n limit s) : s.steps ≤ 2 * n := by
  have hlength := hs.once.length_eq
  simp only [List.length_append, List.length_map, List.length_range] at hlength
  have hstarted := hs.started_le
  unfold State.steps
  omega

/-- With room for a task, what has not ended goes on. -/
theorem Sound.progress (hs : Sound outcome n limit s) (hlimit : 0 < limit) :
    (∃ s', Step outcome n limit s s') ∨ ∃ result, Ends outcome n s result := by
  cases hrunning : s.running with
  | nil =>
    rcases hs.started_le.lt_or_eq with hmore | hstarted
    · exact .inl ⟨_, .start hmore (by simpa [hrunning] using hlimit)⟩
    · exact .inr ⟨_, .all hstarted hrunning⟩
  | cons i rest =>
    have hi : i ∈ s.running := hrunning ▸ List.mem_cons_self
    cases houtcome : outcome i with
    | ok a => exact .inl ⟨_, .collect hi houtcome⟩
    | error e => exact .inr ⟨_, .failed hi houtcome⟩

/-- From every moment of a run it comes to an end, in at most two steps for
each task. -/
theorem reachable_ends (hlimit : 0 < limit) (h : Reachable outcome n limit s) :
    ∃ s' result, Relation.ReflTransGen (Step outcome n limit) s s' ∧ Ends outcome n s' result := by
  induction hleft : 2 * n - s.steps generalizing s with
  | zero =>
    rcases (reachable_sound h).progress hlimit with ⟨s', hstep⟩ | ⟨result, hends⟩
    · have hbound := ((reachable_sound h).step hstep).steps_le
      have hsucc := hstep.steps_succ
      omega
    · exact ⟨s, result, .refl, hends⟩
  | succ left ih =>
    rcases (reachable_sound h).progress hlimit with ⟨s', hstep⟩ | ⟨result, hends⟩
    · have hsucc := hstep.steps_succ
      obtain ⟨last, result, hrest, hends⟩ := ih (h.tail hstep) (by omega)
      exact ⟨last, result, .head hstep hrest, hends⟩
    · exact ⟨s, result, .refl, hends⟩

end SilkChiffon.Gather
