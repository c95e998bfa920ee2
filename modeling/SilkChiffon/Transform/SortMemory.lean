import SilkChiffon.Lib.Fallible
import SilkChiffon.Lib.Machine
import SilkChiffon.Lib.Worklist

/-!
# Memory for sorting

A sort reserves memory for merging its spilled runs. The reservation is the
largest one that some partition of some sort of the plan asks for, within what
a partition is given.
-/

namespace SilkChiffon.SortMemory

open Machine (saturatingMul checkedDiv)
open Worklist (Branching)

def minSortSpillReservation : UInt64 := 10 * 1024 * 1024

inductive Precision
  | exact (value : UInt64)
  | inexact (value : UInt64)
  | absent
  deriving DecidableEq

def Precision.getValue : Precision → Option UInt64
  | exact value => some value
  | inexact value => some value
  | absent => none

structure Statistics where
  numRows : Precision
  totalByteSize : Precision
  deriving DecidableEq

/-- What a plan says about its output; statistics may not be had. -/
structure PlanProperties where
  partitionCount : UInt64
  partitionStatistics : UInt64 → Option Statistics

/-- The child of a sort is its input. -/
inductive Plan
  | sort (properties : PlanProperties) (input : Plan)
  | other (properties : PlanProperties) (children : List Plan)

namespace Plan

def properties : Plan → PlanProperties
  | sort properties _ => properties
  | other properties _ => properties

def children : Plan → List Plan
  | sort _ input => [input]
  | other _ children => children

end Plan

inductive Panic
  | clamp  -- the lower bound is above the upper one
  deriving DecidableEq

def clamp (value low high : UInt64) : Except Panic UInt64 :=
  if high < low then .error .clamp else .ok (if value < low then low else if high < value then high else value)

def estimateSortSpillReservation
    (averageRowBytes totalInMemoryBytes memoryPerPartition batchSize : UInt64) : Except Panic (Option UInt64) :=
  if averageRowBytes = 0 ∨ memoryPerPartition = 0 then .ok none
  else
    let maximum := memoryPerPartition / 2
    if maximum < minSortSpillReservation then .ok none
    else
      let spillFiles := max ((checkedDiv totalInMemoryBytes memoryPerPartition).getD 1) 1
      let reservation := saturatingMul spillFiles (saturatingMul batchSize averageRowBytes)
      (clamp reservation minSortSpillReservation maximum).map some

/-- Without statistics a sort has a tenth of the memory, if that is allowed. -/
def fallback (memoryPerPartition : UInt64) : Except Panic (Option UInt64) :=
  let maximum := memoryPerPartition / 2
  if minSortSpillReservation ≤ maximum then
    (clamp (memoryPerPartition / 10) minSortSpillReservation maximum).map some
  else .ok none

def estimatePartition (memoryPerPartition batchSize : UInt64) (statistics : Option Statistics) :
    Except Panic (Option UInt64) :=
  match statistics with
  | none => .ok none
  | some statistics =>
    match statistics.numRows.getValue, statistics.totalByteSize.getValue with
    | some rows, some bytes =>
      match checkedDiv bytes (max rows 1) with
      | none => .ok none
      | some averageRowBytes => estimateSortSpillReservation averageRowBytes bytes memoryPerPartition batchSize
    | _, _ => .ok none

/-- One plan of the worklist: a sort asks for each partition of its input. -/
def visitPlan (memoryPerPartition batchSize : UInt64) (reservations : List (Option UInt64)) (plan : Plan) :
    Except Panic (List (Option UInt64)) :=
  match plan with
  | .other _ _ => .ok reservations
  | .sort _ input => do
    let partitionCount := max input.properties.partitionCount 1
    let fallback ← fallback memoryPerPartition
    (List.range partitionCount.toNat).foldlM (fun reservations partition => do
      let estimate ← estimatePartition memoryPerPartition batchSize
        (input.properties.partitionStatistics (.ofNat partition))
      pure (reservations ++ [estimate.or fallback])) reservations

mutual

def Plan.size : Plan → Nat
  | .sort _ input => input.size + 1
  | .other _ children => planSizes children + 1

def planSizes : List Plan → Nat
  | [] => 0
  | plan :: rest => plan.size + planSizes rest

end

theorem planSizes_eq (plans : List Plan) : planSizes plans = (plans.map Plan.size).sum := by
  induction plans with
  | nil => rfl
  | cons plan rest ih => rw [planSizes, ih, List.map_cons, List.sum_cons]

def planTree : Branching Plan where
  children := Plan.children
  size := Plan.size
  shrinks plan := by
    cases plan with
    | sort properties input => simp [Plan.children, Plan.size]
    | other properties children =>
      rw [Plan.size, planSizes_eq]
      exact Nat.lt_succ_self _

def sortSpillReservationFromPlan (plan : Plan) (memoryPerPartition batchSize : UInt64) :
    Except Panic (Option UInt64) := do
  let reservations ← planTree.run (visitPlan memoryPerPartition batchSize) [] [plan]
  pure (if reservations = [] then none else (reservations.filterMap id).max?)

-- ---------------------------------------------------------------------------
-- Reservations without bounds
-- ---------------------------------------------------------------------------

/-- What a partition asks for: a batch of average rows for each spilled run, or
a tenth of the memory where that is not known. -/
def wanted (memory batch : Nat) (statistics : Option Statistics) : Nat :=
  match statistics with
  | none => memory / 10
  | some statistics =>
    match statistics.numRows.getValue, statistics.totalByteSize.getValue with
    | some rows, some bytes =>
      let averageRowBytes := bytes.toNat / max rows.toNat 1
      if averageRowBytes = 0 then memory / 10 else max (bytes.toNat / memory) 1 * (batch * averageRowBytes)
    | _, _ => memory / 10

/-- The reservation of a partition, between ten mebibytes and half the memory. -/
def reservation (memory batch : Nat) (statistics : Option Statistics) : Nat :=
  max 10485760 (min (wanted memory batch statistics) (memory / 2))

theorem toNat_minSortSpillReservation : minSortSpillReservation.toNat = 10485760 := by decide

theorem toNat_half (memory : UInt64) : (memory / 2).toNat = memory.toNat / 2 := UInt64.toNat_div ..

theorem clamp_ok (value low high : UInt64) (h : low.toNat ≤ high.toNat) :
    ∃ clamped, clamp value low high = .ok clamped ∧
      clamped.toNat = max low.toNat (min value.toNat high.toNat) := by
  unfold clamp
  rw [if_neg (by rw [UInt64.lt_iff_toNat_lt]; omega)]
  refine ⟨_, rfl, ?_⟩
  simp only [UInt64.lt_iff_toNat_lt]
  split
  · omega
  · split <;> omega

theorem min_saturated {runs step bound limit : Nat} (hruns : 1 ≤ runs) (hbound : bound ≤ limit) :
    min (min (runs * min step limit) limit) bound = min (runs * step) bound := by
  rcases Nat.le_total step limit with hstep | hstep
  · rw [Nat.min_eq_left hstep]
    omega
  · have hlimit : limit ≤ runs * limit := Nat.le_mul_of_pos_left _ hruns
    have hproduct : step ≤ runs * step := Nat.le_mul_of_pos_left _ hruns
    rw [Nat.min_eq_right hstep]
    omega

theorem half_lt_iff (memory : UInt64) : memory / 2 < minSortSpillReservation ↔ memory.toNat / 2 < 10485760 := by
  rw [UInt64.lt_iff_toNat_lt, toNat_half, toNat_minSortSpillReservation]

theorem eq_zero_iff (n : UInt64) : n = 0 ↔ n.toNat = 0 := by
  rw [← UInt64.toNat_inj]
  rfl

theorem estimate_none {average memory : UInt64} (h : average.toNat = 0 ∨ memory.toNat / 2 < 10485760) :
    estimateSortSpillReservation average bytes memory batch = .ok none := by
  unfold estimateSortSpillReservation
  dsimp only
  simp only [half_lt_iff, eq_zero_iff]
  by_cases hzero : average.toNat = 0 ∨ memory.toNat = 0
  · rw [if_pos hzero]
  · rw [if_neg hzero, if_pos (by omega)]

theorem estimate_some (average bytes memory batch : UInt64) (haverage : average.toNat ≠ 0)
    (hhalf : 10485760 ≤ memory.toNat / 2) :
    ∃ value, estimateSortSpillReservation average bytes memory batch = .ok (some value) ∧
      value.toNat = max 10485760 (min (max (bytes.toNat / memory.toNat) 1 * (batch.toNat * average.toNat))
        (memory.toNat / 2)) := by
  have hruns : checkedDiv bytes memory = some (bytes / memory) := by
    unfold checkedDiv
    rw [if_neg (by rw [eq_zero_iff]; omega)]
  obtain ⟨clamped, hclamp, hvalue⟩ := clamp_ok
    (saturatingMul (max (bytes / memory) 1) (saturatingMul batch average)) minSortSpillReservation (memory / 2)
    (by rw [toNat_half, toNat_minSortSpillReservation]; exact hhalf)
  have hlt := memory.toNat_lt
  refine ⟨clamped, ?_, ?_⟩
  · unfold estimateSortSpillReservation
    dsimp only
    simp only [half_lt_iff, eq_zero_iff]
    rw [if_neg (by omega), if_neg (by omega), hruns, Option.getD_some, hclamp]
    rfl
  · rw [hvalue, toNat_half, toNat_minSortSpillReservation, Machine.toNat_saturatingMul, Machine.toNat_saturatingMul,
      Machine.toNat_max, UInt64.toNat_div, UInt64.toNat_one, min_saturated (Nat.le_max_right ..) (by omega)]

theorem fallback_none (h : memory.toNat / 2 < 10485760) : fallback memory = .ok none := by
  unfold fallback
  dsimp only
  rw [if_neg (by rw [UInt64.le_iff_toNat_le, toNat_half, toNat_minSortSpillReservation]; omega)]

theorem fallback_some (h : 10485760 ≤ memory.toNat / 2) :
    ∃ value, fallback memory = .ok (some value) ∧
      value.toNat = max 10485760 (min (memory.toNat / 10) (memory.toNat / 2)) := by
  have hle : minSortSpillReservation.toNat ≤ (memory / 2).toNat := by
    rw [toNat_half, toNat_minSortSpillReservation]
    exact h
  obtain ⟨clamped, hclamp, hvalue⟩ := clamp_ok (memory / 10) minSortSpillReservation (memory / 2) hle
  refine ⟨clamped, ?_, ?_⟩
  · unfold fallback
    dsimp only
    rw [if_pos (UInt64.le_iff_toNat_le.mpr hle), hclamp]
    rfl
  · rw [hvalue, toNat_half, toNat_minSortSpillReservation, UInt64.toNat_div]
    rfl

def grant (memory batch : UInt64) (statistics : Option Statistics) : Option UInt64 :=
  if memory.toNat / 2 < 10485760 then none
  else some (.ofNat (reservation memory.toNat batch.toNat statistics))

theorem reservation_lt (memory : UInt64) (batch : Nat) (statistics : Option Statistics) :
    reservation memory.toNat batch statistics < 2 ^ 64 := by
  have hlt := memory.toNat_lt
  unfold reservation
  omega

theorem grant_eq_some {memory batch value : UInt64} :
    grant memory batch statistics = some value ↔
      10485760 ≤ memory.toNat / 2 ∧ value.toNat = reservation memory.toNat batch.toNat statistics := by
  have htoNat := UInt64.toNat_ofNat_of_lt' (reservation_lt memory batch.toNat statistics)
  unfold grant
  split
  · simp
    omega
  · rw [Option.some.injEq, ← UInt64.toNat_inj, htoNat, eq_comm]
    exact ⟨fun h => ⟨by omega, h⟩, And.right⟩

def grants (memory batch : UInt64) : Plan → List (Option UInt64)
  | .other _ _ => []
  | .sort _ input => (List.range (max input.properties.partitionCount.toNat 1)).map fun partition =>
    grant memory batch (input.properties.partitionStatistics (.ofNat partition))

theorem estimatePartition_or_fallback (memory batch : UInt64) (statistics : Option Statistics) :
    ∃ estimate default, estimatePartition memory batch statistics = .ok estimate ∧
      fallback memory = .ok default ∧ estimate.or default = grant memory batch statistics := by
  by_cases hhalf : memory.toNat / 2 < 10485760
  · refine ⟨none, none, ?_, fallback_none hhalf, (if_pos hhalf).symm⟩
    unfold estimatePartition
    split
    · rfl
    · split
      · split
        · rfl
        · exact estimate_none (.inr hhalf)
      · rfl
  · obtain ⟨default, hdefault, hvalue⟩ := fallback_some (Nat.not_lt.mp hhalf)
    have hunknown : ∀ statistics, wanted memory.toNat batch.toNat statistics = memory.toNat / 10 →
        some default = grant memory batch statistics := by
      intro statistics hwanted
      refine (grant_eq_some.mpr ⟨Nat.not_lt.mp hhalf, ?_⟩).symm
      rw [hvalue, reservation, hwanted]
    cases statistics with
    | none => exact ⟨none, some default, rfl, hdefault, hunknown _ rfl⟩
    | some statistics =>
      cases hrows : statistics.numRows.getValue with
      | none => exact ⟨none, some default, by simp [estimatePartition, hrows], hdefault, hunknown _ (by simp [wanted, hrows])⟩
      | some rows =>
        cases hbytes : statistics.totalByteSize.getValue with
        | none =>
          exact ⟨none, some default, by simp [estimatePartition, hrows, hbytes], hdefault,
            hunknown _ (by simp [wanted, hrows, hbytes])⟩
        | some bytes =>
          have hdivisor : (max rows 1).toNat = max rows.toNat 1 := Machine.toNat_max ..
          have hdiv : checkedDiv bytes (max rows 1) = some (bytes / max rows 1) := by
            unfold checkedDiv
            rw [if_neg (by rw [eq_zero_iff, hdivisor]; omega)]
          have haverage : (bytes / max rows 1).toNat = bytes.toNat / max rows.toNat 1 := by
            rw [UInt64.toNat_div, hdivisor]
          have hestimate : estimatePartition memory batch (some statistics) =
              estimateSortSpillReservation (bytes / max rows 1) bytes memory batch := by
            simp [estimatePartition, hrows, hbytes, hdiv]
          have hwanted : wanted memory.toNat batch.toNat (some statistics) =
              if bytes.toNat / max rows.toNat 1 = 0 then memory.toNat / 10
              else max (bytes.toNat / memory.toNat) 1 * (batch.toNat * (bytes.toNat / max rows.toNat 1)) := by
            simp [wanted, hrows, hbytes]
          by_cases hzero : bytes.toNat / max rows.toNat 1 = 0
          · rw [if_pos hzero] at hwanted
            exact ⟨none, some default, hestimate.trans (estimate_none (.inl (haverage.trans hzero))), hdefault,
              hunknown _ hwanted⟩
          · obtain ⟨estimate, hsome, hvalue⟩ := estimate_some (bytes / max rows 1) bytes memory batch
              (by rw [haverage]; exact hzero) (Nat.not_lt.mp hhalf)
            refine ⟨some estimate, some default, hestimate.trans hsome, hdefault, ?_⟩
            refine (grant_eq_some.mpr ⟨Nat.not_lt.mp hhalf, ?_⟩).symm
            rw [hvalue, haverage, reservation, hwanted, if_neg hzero]

/-- Every visit is a sort's grants or nothing, and none of them panics. -/
theorem visitPlan_eq (memory batch : UInt64) (reservations : List (Option UInt64)) (plan : Plan) :
    visitPlan memory batch reservations plan = .ok (reservations ++ grants memory batch plan) := by
  cases plan with
  | other properties children => simp [visitPlan, grants]
  | sort properties input =>
    obtain ⟨_, default, -, hdefault, -⟩ := estimatePartition_or_fallback memory batch none
    have hpartition : ∀ statistics, ∃ estimate, estimatePartition memory batch statistics = .ok estimate ∧
        estimate.or default = grant memory batch statistics := by
      intro statistics
      obtain ⟨estimate, default', hestimate, hdefault', hgrant⟩ := estimatePartition_or_fallback memory batch statistics
      obtain rfl := Except.ok.inj (hdefault.symm.trans hdefault')
      exact ⟨estimate, hestimate, hgrant⟩
    have hcount : (max input.properties.partitionCount 1).toNat = max input.properties.partitionCount.toNat 1 :=
      Machine.toNat_max ..
    unfold visitPlan grants
    dsimp only
    rw [hdefault, hcount]
    dsimp only [bind, Except.bind]
    generalize List.range (max input.properties.partitionCount.toNat 1) = partitions
    induction partitions generalizing reservations with
    | nil => simp [pure, Except.pure]
    | cons partition rest ih =>
      obtain ⟨estimate, hestimate, hgrant⟩ := hpartition (input.properties.partitionStatistics (.ofNat partition))
      rw [List.foldlM_cons, hestimate]
      dsimp only [bind, Except.bind, pure, Except.pure]
      rw [hgrant]
      refine (ih _).trans ?_
      rw [List.map_cons, List.append_assoc, List.singleton_append]

theorem foldlM_visitPlan (memory batch : UInt64) (plans : List Plan) (reservations : List (Option UInt64)) :
    plans.foldlM (visitPlan memory batch) reservations = .ok (reservations ++ plans.flatMap (grants memory batch)) := by
  induction plans generalizing reservations with
  | nil => simp [pure, Except.pure]
  | cons plan rest ih =>
    rw [List.foldlM_cons, visitPlan_eq, List.flatMap_cons, ← List.append_assoc]
    exact ih _

-- ---------------------------------------------------------------------------
-- The largest reservation
-- ---------------------------------------------------------------------------

mutual

def Plan.subplans : Plan → List Plan
  | .sort properties input => .sort properties input :: input.subplans
  | .other properties children => .other properties children :: subplansOf children

def subplansOf : List Plan → List Plan
  | [] => []
  | plan :: rest => plan.subplans ++ subplansOf rest

end

theorem subplansOf_append (plans plans' : List Plan) :
    subplansOf (plans ++ plans') = subplansOf plans ++ subplansOf plans' := by
  induction plans with
  | nil => rfl
  | cons plan rest ih => rw [List.cons_append, subplansOf, subplansOf, ih, List.append_assoc]

theorem Plan.subplans_eq (plan : Plan) : plan.subplans = plan :: subplansOf plan.children := by
  cases plan with
  | sort properties input => simp [subplans, children, subplansOf]
  | other properties children => rw [subplans, Plan.children]

theorem nodes_eq_subplansOf (plans : List Plan) : planTree.nodes plans = subplansOf plans := by
  refine planTree.nodes_unique rfl (fun plan rest => ?_) plans
  rw [subplansOf, plan.subplans_eq, subplansOf_append]
  rfl

theorem order_perm_subplans (plan : Plan) : (planTree.order [plan]).Perm plan.subplans := by
  have horder := (planTree.visits_order [plan]).perm_nodes
  rw [nodes_eq_subplansOf, subplansOf, subplansOf, List.append_nil] at horder
  exact horder

def Asks (plan : Plan) (memory batch value : Nat) : Prop :=
  ∃ properties input partition, .sort properties input ∈ plan.subplans ∧
    partition < max input.properties.partitionCount.toNat 1 ∧
    value = reservation memory batch (input.properties.partitionStatistics (.ofNat partition))

theorem some_mem_grants {plans : List Plan} {value : UInt64} :
    some value ∈ plans.flatMap (grants memory batch) ↔
      ∃ properties input partition, .sort properties input ∈ plans ∧
        partition < max input.properties.partitionCount.toNat 1 ∧
        grant memory batch (input.properties.partitionStatistics (.ofNat partition)) = some value := by
  rw [List.mem_flatMap]
  constructor
  · rintro ⟨plan, hplan, hgrant⟩
    cases plan with
    | other properties children => cases hgrant
    | sort properties input =>
      obtain ⟨partition, hpartition, hgrant⟩ := List.mem_map.mp hgrant
      exact ⟨properties, input, partition, hplan, List.mem_range.mp hpartition, hgrant⟩
  · rintro ⟨properties, input, partition, hplan, hpartition, hgrant⟩
    exact ⟨_, hplan, List.mem_map.mpr ⟨partition, List.mem_range.mpr hpartition, hgrant⟩⟩

theorem fromPlan_eq (plan : Plan) (memory batch : UInt64) :
    sortSpillReservationFromPlan plan memory batch =
      .ok (((planTree.order [plan]).flatMap (grants memory batch)).filterMap id).max? := by
  unfold sortSpillReservationFromPlan
  rw [Branching.run_eq_foldlM, foldlM_visitPlan, List.nil_append]
  generalize (planTree.order [plan]).flatMap (grants memory batch) = reservations
  dsimp only [bind, Except.bind, pure, Except.pure]
  split
  · rename_i hnone
    rw [hnone]
    rfl
  · rfl

/-- The sorts of a plan reserve the most that one of their partitions asks for,
unless there is no sort or not enough memory. -/
theorem sortSpillReservationFromPlan_exact (plan : Plan) (memory batch : UInt64) :
    ∃ outcome, sortSpillReservationFromPlan plan memory batch = .ok outcome ∧
      (outcome = none ↔ (∀ properties input, .sort properties input ∉ plan.subplans) ∨ memory.toNat / 2 < 10485760) ∧
      (∀ value, outcome = some value →
        Asks plan memory.toNat batch.toNat value.toNat ∧
        (∀ asked, Asks plan memory.toNat batch.toNat asked → asked ≤ value.toNat) ∧
        10485760 ≤ value.toNat ∧ value.toNat ≤ memory.toNat / 2) ∧
      planTree.run (visitPlan memory batch) [] [plan] =
        (planTree.order [plan]).foldlM (visitPlan memory batch) [] ∧
      (planTree.order [plan]).Perm plan.subplans := by
  have horder := order_perm_subplans plan
  have hgranted : ∀ value : UInt64, value ∈ ((planTree.order [plan]).flatMap (grants memory batch)).filterMap id ↔
      10485760 ≤ memory.toNat / 2 ∧ Asks plan memory.toNat batch.toNat value.toNat := by
    intro value
    simp only [List.mem_filterMap, id_eq, exists_eq_right, some_mem_grants, horder.mem_iff, grant_eq_some]
    constructor
    · rintro ⟨properties, input, partition, hmem, hpartition, hhalf, hvalue⟩
      exact ⟨hhalf, properties, input, partition, hmem, hpartition, hvalue⟩
    · rintro ⟨hhalf, properties, input, partition, hmem, hpartition, hvalue⟩
      exact ⟨properties, input, partition, hmem, hpartition, hhalf, hvalue⟩
  have hasked : ∀ asked, 10485760 ≤ memory.toNat / 2 → Asks plan memory.toNat batch.toNat asked →
      ∃ value : UInt64, value.toNat = asked ∧
        value ∈ ((planTree.order [plan]).flatMap (grants memory batch)).filterMap id := by
    rintro asked hhalf ⟨properties, input, partition, hmem, hpartition, rfl⟩
    have htoNat := UInt64.toNat_ofNat_of_lt' (reservation_lt memory batch.toNat
      (input.properties.partitionStatistics (.ofNat partition)))
    exact ⟨_, htoNat, (hgranted _).mpr ⟨hhalf, properties, input, partition, hmem, hpartition, htoNat⟩⟩
  refine ⟨_, fromPlan_eq plan memory batch, ?_, ?_, planTree.run_eq_foldlM .., horder⟩
  · rw [List.max?_eq_none_iff, List.eq_nil_iff_forall_not_mem]
    constructor
    · intro hnone
      by_contra hboth
      simp only [not_or, not_forall, not_not] at hboth
      obtain ⟨⟨properties, input, hmem⟩, hhalf⟩ := hboth
      obtain ⟨value, -, hvalue⟩ := hasked _ (by omega) ⟨properties, input, 0, hmem, by omega, rfl⟩
      exact hnone value hvalue
    · intro hnone value hvalue
      obtain ⟨hhalf, properties, input, _, hmem, -, -⟩ := (hgranted value).mp hvalue
      rcases hnone with hnone | hnone
      · exact hnone properties input hmem
      · omega
  · intro value hvalue
    obtain ⟨hmem, hmax⟩ := List.max?_eq_some_iff.mp hvalue
    obtain ⟨hhalf, hasks⟩ := (hgranted value).mp hmem
    refine ⟨hasks, fun asked hasked' => ?_, ?_⟩
    · obtain ⟨other, rfl, hother⟩ := hasked asked hhalf hasked'
      exact UInt64.le_iff_toNat_le.mp (hmax other hother)
    · obtain ⟨_, _, _, -, -, hreservation⟩ := hasks
      rw [hreservation, reservation]
      omega

end SilkChiffon.SortMemory
