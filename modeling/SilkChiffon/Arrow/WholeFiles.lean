import Mathlib.Data.List.MinMax
import Mathlib.Data.List.Sort
import Mathlib.Data.Prod.Lex
import Mathlib.Tactic.Ring
import SilkChiffon.Lib.Lists
import SilkChiffon.Lib.Machine

/-!
# Whole files to partitions

An IPC stream cannot be read from its middle, so its partitions hold whole
files. The files go, the largest first, to the group with the least in it.
-/

namespace SilkChiffon.Arrow

open Machine

/-- `rest` is what a file has besides its place and its size. -/
structure PartitionedFile (ρ : Type) where
  path : String
  size : UInt64
  rest : ρ
  deriving DecidableEq, Repr

variable {ρ : Type}

abbrev FileGroup (ρ : Type) := List (PartitionedFile ρ)

structure OpenGroup (ρ : Type) where
  size : UInt64
  files : FileGroup ρ

def PartitionedFile.before (left right : PartitionedFile ρ) : Bool :=
  ((compare right.size left.size).then (compare left.path right.path)).isLE

def OpenGroup.key (group : OpenGroup ρ × Nat) : ℕ ×ₗ ℕ ×ₗ ℕ :=
  toLex (group.1.size.toNat, toLex (group.1.files.length, group.2))

def OpenGroup.push (group : OpenGroup ρ) (file : PartitionedFile ρ) : OpenGroup ρ :=
  ⟨saturatingAdd group.size file.size, group.files ++ [file]⟩

/-- The error is the panic of `expect`. -/
def place (groups : List (OpenGroup ρ)) (file : PartitionedFile ρ) : Except String (List (OpenGroup ρ)) :=
  match groups.zipIdx.argmin OpenGroup.key with
  | none => .error "a positive group count creates at least one group"
  | some (group, index) => .ok (groups.set index (group.push file))

def repartitionWholeFiles (fileGroups : List (FileGroup ρ)) (targetPartitions : Nat) :
    Except String (Option (List (FileGroup ρ))) := do
  let files := fileGroups.flatten
  let groupCount := min targetPartitions files.length
  if groupCount ≤ fileGroups.length then return none
  let groups ← (files.insertionSort fun left right => left.before right).foldlM place (List.replicate groupCount ⟨0, []⟩)
  return some (groups.map OpenGroup.files)

-- ---------------------------------------------------------------------------
-- One file
-- ---------------------------------------------------------------------------

def totalSize (files : FileGroup ρ) : Nat := (files.map fun file => file.size.toNat).sum

theorem totalSize_append (files files' : FileGroup ρ) :
    totalSize (files ++ files') = totalSize files + totalSize files' := by
  simp [totalSize]

/-- A file goes to a group that is no larger than any other, and no fuller than
one of its size. -/
theorem place_ok {groups : List (OpenGroup ρ)} (h : place groups file = .ok groups') :
    ∃ before least after, groups = before ++ least :: after ∧ groups' = before ++ least.push file :: after ∧
      ∀ group ∈ groups, least.size.toNat ≤ group.size.toNat ∧
        (group.size.toNat = least.size.toNat → least.files.length ≤ group.files.length) := by
  unfold place at h
  split at h
  · cases h
  · rename_i least index hleast
    obtain rfl := Except.ok.inj h
    have hmem := List.mem_zipIdx_iff_getElem?.mp (List.argmin_mem hleast)
    obtain ⟨before, after, hgroups, -, hset, -⟩ := Lists.split_at hmem
    refine ⟨before, least, after, hgroups, hset _, fun group hgroup => ?_⟩
    obtain ⟨i, hi⟩ := List.mem_iff_getElem?.mp hgroup
    have hkey := List.le_of_mem_argmin (List.mem_zipIdx_iff_getElem?.mpr hi : (group, i) ∈ groups.zipIdx) hleast
    simp only [OpenGroup.key, Prod.Lex.toLex_le_toLex] at hkey
    omega

theorem place_total {groups : List (OpenGroup ρ)} (h : groups ≠ []) (file : PartitionedFile ρ) :
    ∃ groups', place groups file = .ok groups' := by
  unfold place
  split
  · rename_i hnone
    have hnil : groups = [] := by simpa using hnone
    exact absurd hnil h
  · exact ⟨_, rfl⟩

-- ---------------------------------------------------------------------------
-- The groups at any time
-- ---------------------------------------------------------------------------

def OpenGroup.Counted (group : OpenGroup ρ) : Prop :=
  group.size.toNat = min (totalSize group.files) 18446744073709551615

/-- Each group was, before its last file, no larger than any other is now; while
one is empty, none has two files. -/
structure Level (groups : List (OpenGroup ρ)) : Prop where
  counted : ∀ group ∈ groups, group.Counted
  level : ∀ a ∈ groups, ∀ b ∈ groups, min (totalSize a.files.dropLast) 18446744073709551615 ≤ b.size.toNat
  spread : (∃ group ∈ groups, group.files = []) → ∀ group ∈ groups, group.files.length ≤ 1

theorem level_replicate (count : Nat) : Level (List.replicate count (⟨0, []⟩ : OpenGroup ρ)) := by
  refine ⟨fun group hgroup => ?_, fun a ha b _ => ?_, fun _ group hgroup => ?_⟩
  · obtain rfl := List.eq_of_mem_replicate hgroup
    rfl
  · obtain rfl := List.eq_of_mem_replicate ha
    exact Nat.zero_le _
  · obtain rfl := List.eq_of_mem_replicate hgroup
    exact Nat.zero_le _

theorem OpenGroup.Counted.push {group : OpenGroup ρ} (h : group.Counted) (file : PartitionedFile ρ) :
    (group.push file).Counted := by
  unfold OpenGroup.Counted at h ⊢
  have htotal : totalSize (group.push file).files = totalSize group.files + file.size.toNat := by
    rw [OpenGroup.push, totalSize_append]
    simp [totalSize]
  rw [htotal, OpenGroup.push, toNat_saturatingAdd, h]
  omega

theorem le_push (group : OpenGroup ρ) (file : PartitionedFile ρ) :
    group.size.toNat ≤ (group.push file).size.toNat := by
  have hlt := group.size.toNat_lt
  rw [OpenGroup.push, toNat_saturatingAdd]
  omega

theorem mem_replaced {before after : List α} {x y z : α} (h : z ∈ before ++ y :: after) :
    z = y ∨ z ∈ before ++ x :: after := by
  simp only [List.mem_append, List.mem_cons] at h ⊢
  rcases h with h | h | h
  · exact .inr (.inl h)
  · exact .inl h
  · exact .inr (.inr (.inr h))

theorem Level.place {groups : List (OpenGroup ρ)} (hlevel : Level groups) (h : place groups file = .ok groups') :
    Level groups' := by
  obtain ⟨before, least, after, rfl, rfl, hleast⟩ := place_ok h
  have hmem : least ∈ before ++ least :: after := List.mem_append_right _ List.mem_cons_self
  have hsizes : ∀ b ∈ before ++ least.push file :: after, ∃ b' ∈ before ++ least :: after,
      b'.size.toNat ≤ b.size.toNat := by
    intro b hb
    rcases mem_replaced hb with rfl | hb
    · exact ⟨least, hmem, le_push least file⟩
    · exact ⟨b, hb, Nat.le_refl _⟩
  refine ⟨fun group hgroup => ?_, fun a ha b hb => ?_, fun hempty group hgroup => ?_⟩
  · rcases mem_replaced hgroup with rfl | hgroup
    · exact (hlevel.counted least hmem).push file
    · exact hlevel.counted group hgroup
  · obtain ⟨b', hb', hle⟩ := hsizes b hb
    refine Nat.le_trans ?_ hle
    rcases mem_replaced ha with rfl | ha
    · have hdrop : (least.push file).files.dropLast = least.files := List.dropLast_concat
      rw [hdrop, ← hlevel.counted least hmem]
      exact (hleast b' hb').1
    · exact hlevel.level a ha b' hb'
  · obtain ⟨empty, hin, hnil⟩ := hempty
    -- an empty group was empty before, so the least one was empty too
    rcases mem_replaced hin with rfl | hin
    · exact absurd hnil (by simp [OpenGroup.push])
    · have hzero : empty.size.toNat = 0 := by
        rw [hlevel.counted empty hin, hnil]
        rfl
      obtain ⟨hsize, hfiles⟩ := hleast empty hin
      have hleastNil : least.files.length = 0 := by
        have := hfiles (by omega)
        rwa [hnil, List.length_nil, Nat.le_zero] at this
      rcases mem_replaced hgroup with rfl | hgroup
      · simp [OpenGroup.push, hleastNil]
      · exact hlevel.spread ⟨empty, hin, hnil⟩ group hgroup

-- ---------------------------------------------------------------------------
-- All files
-- ---------------------------------------------------------------------------

structure Holding (count : Nat) (groups : List (OpenGroup ρ)) (placed : List (PartitionedFile ρ)) : Prop where
  level : Level groups
  length_eq : groups.length = count
  perm : (groups.flatMap OpenGroup.files).Perm placed

theorem Holding.place {groups : List (OpenGroup ρ)} (hholding : Holding count groups placed)
    (h : place groups file = .ok groups') : Holding count groups' (placed ++ [file]) := by
  refine ⟨hholding.level.place h, ?_, ?_⟩
  · obtain ⟨before, least, after, rfl, rfl, -⟩ := place_ok h
    rw [← hholding.length_eq]
    simp
  · obtain ⟨before, least, after, rfl, rfl, -⟩ := place_ok h
    have hsplit : ((before ++ least.push file :: after).flatMap OpenGroup.files).Perm
        ((before ++ least :: after).flatMap OpenGroup.files ++ [file]) := by
      simp only [List.flatMap_append, List.flatMap_cons, OpenGroup.push, List.append_assoc]
      exact ((List.perm_append_comm).append_left _).append_left _
    exact hsplit.trans (hholding.perm.append_right _)

theorem foldlM_place {groups : List (OpenGroup ρ)} (hholding : Holding count groups placed) (hcount : 0 < count)
    (files : List (PartitionedFile ρ)) :
    ∃ groups', files.foldlM place groups = .ok groups' ∧ Holding count groups' (placed ++ files) := by
  induction files generalizing groups placed with
  | nil => exact ⟨groups, rfl, by simpa using hholding⟩
  | cons file files ih =>
    have hne : groups ≠ [] := fun hnil => by
      have hlength := hholding.length_eq
      rw [hnil, List.length_nil] at hlength
      omega
    obtain ⟨next, hnext⟩ := place_total hne file
    obtain ⟨groups', hrun, hholding'⟩ := ih (hholding.place hnext)
    refine ⟨groups', ?_, ?_⟩
    · rw [List.foldlM_cons, hnext]
      exact hrun
    · rw [List.append_assoc] at hholding'
      exact hholding'

theorem Holding.ne_nil {groups : List (OpenGroup ρ)} (hholding : Holding count groups placed)
    (hcount : count ≤ placed.length) (hgroup : group ∈ groups) : group.files ≠ [] := by
  intro hnil
  have hone := hholding.level.spread ⟨group, hgroup, hnil⟩
  obtain ⟨before, after, rfl⟩ := List.append_of_mem hgroup
  have hside : ∀ side : List (OpenGroup ρ), (∀ g ∈ side, g.files.length ≤ 1) →
      (side.flatMap OpenGroup.files).length ≤ side.length := by
    intro side hside
    induction side with
    | nil => exact Nat.zero_le _
    | cons g side ih =>
      have hrest := ih fun g hg => hside g (List.mem_cons_of_mem _ hg)
      have hfirst := hside g List.mem_cons_self
      rw [List.flatMap_cons, List.length_append, List.length_cons]
      omega
  have hbefore := hside before fun g hg => hone g (List.mem_append_left _ hg)
  have hafter := hside after fun g hg => hone g (List.mem_append_right _ (List.mem_cons_of_mem _ hg))
  have hplaced := hholding.perm.length_eq
  have hlength := hholding.length_eq
  simp only [List.flatMap_append, List.flatMap_cons, hnil, List.nil_append, List.length_append,
    List.length_cons] at hplaced hlength
  omega

/-- Every file once, in groups that differ by no more than a last file. -/
structure BalancedPartition (files : List (PartitionedFile ρ)) (targetPartitions : Nat)
    (groups : List (FileGroup ρ)) : Prop where
  count : groups.length = min targetPartitions files.length
  nonempty : ∀ group ∈ groups, group ≠ []
  once : groups.flatten.Perm files
  balanced : ∀ a ∈ groups, ∀ b ∈ groups, totalSize a < 2 ^ 64 → totalSize a.dropLast ≤ totalSize b

theorem Holding.balanced {groups : List (OpenGroup ρ)} (hholding : Holding count groups placed)
    (hcount : count = min targetPartitions placed.length) :
    BalancedPartition placed targetPartitions (groups.map OpenGroup.files) := by
  refine ⟨by rw [List.length_map, hholding.length_eq, hcount], fun files hfiles => ?_, hholding.perm,
    fun filesA ha filesB hb hfits => ?_⟩
  · obtain ⟨group, hgroup, rfl⟩ := List.mem_map.mp hfiles
    exact hholding.ne_nil (by omega) hgroup
  · obtain ⟨a, hina, rfl⟩ := List.mem_map.mp ha
    obtain ⟨b, hinb, rfl⟩ := List.mem_map.mp hb
    have hlevel := hholding.level.level a hina b hinb
    have hb' : b.size.toNat ≤ totalSize b.files := by
      rw [hholding.level.counted b hinb]
      exact Nat.min_le_left _ _
    have hdrop : totalSize a.files.dropLast ≤ totalSize a.files := by
      by_cases hnil : a.files = []
      · rw [hnil, List.dropLast_nil]
      · conv_rhs => rw [← List.dropLast_append_getLast hnil, totalSize_append]
        exact Nat.le_add_right _ _
    omega

/-- Repartitioning does not panic, and the groups it returns are balanced. -/
theorem whole_files_balanced (fileGroups : List (FileGroup ρ)) (targetPartitions : Nat) :
    ∃ outcome, repartitionWholeFiles fileGroups targetPartitions = .ok outcome ∧
      ∀ groups, outcome = some groups → BalancedPartition fileGroups.flatten targetPartitions groups := by
  unfold repartitionWholeFiles
  dsimp only
  split
  · exact ⟨none, rfl, fun groups h => nomatch h⟩
  · rename_i hcount
    have hstart : Holding (min targetPartitions fileGroups.flatten.length)
        (List.replicate (min targetPartitions fileGroups.flatten.length) (⟨0, []⟩ : OpenGroup ρ)) [] :=
      ⟨level_replicate _, List.length_replicate, .of_eq (List.flatMap_eq_nil_iff.mpr fun group hgroup => by
        rw [List.eq_of_mem_replicate hgroup])⟩
    obtain ⟨groups, hrun, hholding⟩ := foldlM_place hstart (by omega)
      (fileGroups.flatten.insertionSort fun left right => left.before right)
    refine ⟨some (groups.map OpenGroup.files), by rw [hrun]; rfl, fun groups' h => ?_⟩
    obtain rfl := Option.some.inj h
    have hsorted := List.perm_insertionSort (fun left right : PartitionedFile ρ => left.before right)
      fileGroups.flatten
    obtain ⟨hlevel, hlength, hperm⟩ := hholding
    exact Holding.balanced ⟨hlevel, hlength, hperm.trans hsorted⟩ rfl

theorem whole_files_balanced_three :
    repartitionWholeFiles [[⟨"a", 1, ()⟩, ⟨"b", 3, ()⟩, ⟨"c", 1, ()⟩]] 2 =
      .ok (some [[⟨"b", 3, ()⟩], [⟨"a", 1, ()⟩, ⟨"c", 1, ()⟩]]) ∧
    BalancedPartition [⟨"a", 1, ()⟩, ⟨"b", 3, ()⟩, ⟨"c", 1, ()⟩] 2
      [[⟨"b", 3, ()⟩], [⟨"a", 1, ()⟩, ⟨"c", 1, ()⟩]] := by
  have hrun : repartitionWholeFiles [[⟨"a", 1, ()⟩, ⟨"b", 3, ()⟩, ⟨"c", 1, ()⟩]] 2 =
      .ok (some [[⟨"b", 3, ()⟩], [⟨"a", 1, ()⟩, ⟨"c", 1, ()⟩]]) := by decide
  obtain ⟨outcome, houtcome, hbalanced⟩ := whole_files_balanced [[⟨"a", 1, ()⟩, ⟨"b", 3, ()⟩, ⟨"c", 1, ()⟩]] 2
  exact ⟨hrun, hbalanced _ (Except.ok.inj (houtcome.symm.trans hrun))⟩

end SilkChiffon.Arrow
