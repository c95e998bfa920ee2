import SilkChiffon.Cli.MemoryBudget

/-!
# Budget arithmetic

A budget is a share of the memory, the query engine's limit a share of the
budget, and the reserve for what cannot spill a share of the limit. Each share
is a product divided by a hundred, in machine words.
-/

namespace SilkChiffon.Cli

open Machine
open MemoryPool (Usize ReservedSpillPool)

/-- `total` and `available` are what the system reports. -/
def MemoryBudgetSpec.resolve (totalMemory availableMemory : Usize) : MemoryBudgetSpec → Usize
  | total pct least => max (totalMemory * pct.toUInt64 / 100) (least.getD 0)
  | available pct least => max (availableMemory * pct.toUInt64 / 100) (least.getD 0)
  | fixed n => n
  | reserve n least => max (saturatingSub totalMemory n) (least.getD 0)

def effectiveMemoryLimit (hasSort : Bool) (totalBudget : Usize) : Usize :=
  if hasSort then totalBudget * 60 / 100 else totalBudget * 20 / 100

inductive PoolReserveSpec
  | percent (pct : UInt8)
  | fixed (n : Usize)
  deriving DecidableEq, Repr

def PoolReserveSpec.fromStr (sizes : ByteSizes) (s : List Char) : Except String PoolReserveSpec :=
  if stripPercent s ≠ [] ∧ (stripPercent s).all Char.isDigit then
    match parseU8 (stripPercent s) with
    | none => .error s!"invalid percentage '{String.ofList s}': expected 1-99"
    | some pct =>
      if pct = 0 ∨ 100 ≤ pct then .error s!"reserve percentage must be between 1 and 99, got {pct}"
      else .ok (.percent pct)
  else (parseNonzeroByteSize sizes s).map .fixed

def PoolReserveSpec.amount (display : Usize → String) (poolSize : Usize) : PoolReserveSpec → Except String Usize
  | percent pct =>
    let r := poolSize * pct.toUInt64 / 100
    if r = 0 then
      .error (s!"non-spillable reserve of {pct}% resolves to 0 bytes for pool size {display poolSize}; " ++
        "use a larger pool or a fixed byte reserve instead")
    else .ok r
  | fixed n => .ok n

def PoolReserveSpec.resolve (display : Usize → String) (spec : PoolReserveSpec) (poolSize : Usize) :
    Except String Usize := do
  if poolSize = 0 then throw "cannot resolve non-spillable reserve against a zero-byte pool"
  let reserve ← spec.amount display poolSize
  if poolSize - 1 < reserve then
    throw (s!"non-spillable reserve ({display reserve}) exceeds pool size ({display poolSize}); " ++
      "the reserve must be less than the pool size")
  return reserve

-- ---------------------------------------------------------------------------
-- Exact numbers
-- ---------------------------------------------------------------------------

/-- The budget in integers of any size. -/
def MemoryBudgetSpec.exact (totalMemory availableMemory : Nat) : MemoryBudgetSpec → Nat
  | total pct least => max (totalMemory * pct.toNat / 100) (least.getD 0).toNat
  | available pct least => max (availableMemory * pct.toNat / 100) (least.getD 0).toNat
  | fixed n => n.toNat
  | reserve n least => max (totalMemory - n.toNat) (least.getD 0).toNat

def limitPercent (hasSort : Bool) : Nat := if hasSort then 60 else 20

def PoolReserveSpec.exact (poolSize : Nat) : PoolReserveSpec → Nat
  | percent pct => poolSize * pct.toNat / 100
  | fixed n => n.toNat

/-- No number wraps: the budget and the limit are exact, and a reserve that is not
rejected is exact and fits a pool of that limit. -/
structure ExactLimits (display : Usize → String) (sizes : ByteSizes) (spec : MemoryBudgetSpec)
    (totalMemory availableMemory : Usize) (hasSort : Bool) : Prop where
  budget : (spec.resolve totalMemory availableMemory).toNat = spec.exact totalMemory.toNat availableMemory.toNat
  limit : (effectiveMemoryLimit hasSort (spec.resolve totalMemory availableMemory)).toNat =
    spec.exact totalMemory.toNat availableMemory.toNat * limitPercent hasSort / 100
  reserve : ∀ text reserveSpec, PoolReserveSpec.fromStr sizes text = .ok reserveSpec → ∀ reserve,
    reserveSpec.resolve display (effectiveMemoryLimit hasSort (spec.resolve totalMemory availableMemory)) =
        .ok reserve →
      reserve.toNat = reserveSpec.exact
        (spec.exact totalMemory.toNat availableMemory.toNat * limitPercent hasSort / 100) ∧
      0 < reserve.toNat ∧
      reserve.toNat < spec.exact totalMemory.toNat availableMemory.toNat * limitPercent hasSort / 100 ∧
      (ReservedSpillPool.new (effectiveMemoryLimit hasSort (spec.resolve totalMemory availableMemory)) reserve).isSome

/-- The share of the memory is a word, or no more than the minimum. -/
def MemoryBudgetSpec.Fits (totalMemory availableMemory : Nat) : MemoryBudgetSpec → Prop
  | total pct least => totalMemory * pct.toNat < 2 ^ 64 ∨ totalMemory * pct.toNat / 100 ≤ (least.getD 0).toNat
  | available pct least =>
    availableMemory * pct.toNat < 2 ^ 64 ∨ availableMemory * pct.toNat / 100 ≤ (least.getD 0).toNat
  | _ => True

-- ---------------------------------------------------------------------------
-- Words
-- ---------------------------------------------------------------------------

theorem toNat_percent (a : Usize) (b : Usize) : (a * b / 100).toNat = a.toNat * b.toNat % 2 ^ 64 / 100 := by
  rw [UInt64.toNat_div, UInt64.toNat_mul]
  rfl

theorem max_wrapped_iff {least : Nat} :
    max (n % 2 ^ 64 / 100) least = max (n / 100) least ↔ n < 2 ^ 64 ∨ n / 100 ≤ least := by
  omega

theorem wrapped_iff : n % 2 ^ 64 / 100 = n / 100 ↔ n < 2 ^ 64 := by
  omega

theorem resolve_exact_iff (spec : MemoryBudgetSpec) (totalMemory availableMemory : Usize) :
    (spec.resolve totalMemory availableMemory).toNat = spec.exact totalMemory.toNat availableMemory.toNat ↔
      spec.Fits totalMemory.toNat availableMemory.toNat := by
  cases spec with
  | total pct least =>
    rw [MemoryBudgetSpec.resolve, toNat_max, toNat_percent, UInt8.toNat_toUInt64]
    exact max_wrapped_iff
  | available pct least =>
    rw [MemoryBudgetSpec.resolve, toNat_max, toNat_percent, UInt8.toNat_toUInt64]
    exact max_wrapped_iff
  | fixed n => exact iff_of_true rfl trivial
  | reserve n least =>
    rw [MemoryBudgetSpec.resolve, toNat_max, toNat_saturatingSub]
    exact iff_of_true rfl trivial

theorem toNat_effectiveMemoryLimit (hasSort : Bool) (budget : Usize) :
    (effectiveMemoryLimit hasSort budget).toNat = budget.toNat * limitPercent hasSort % 2 ^ 64 / 100 := by
  cases hasSort <;> exact toNat_percent _ _

-- ---------------------------------------------------------------------------
-- The reserve
-- ---------------------------------------------------------------------------

def PoolReserveSpec.Positive : PoolReserveSpec → Prop
  | percent pct => pct.toNat < 100
  | fixed n => n ≠ 0

theorem PoolReserveSpec.fromStr_ok (h : PoolReserveSpec.fromStr sizes s = .ok spec) : spec.Positive := by
  unfold PoolReserveSpec.fromStr at h
  split at h
  · split at h
    · cases h
    · split at h
      · cases h
      · rename_i hrange
        obtain rfl := Except.ok.inj h
        rw [not_or, UInt8.le_iff_toNat_le] at hrange
        exact Nat.not_le.mp hrange.2
  · obtain ⟨n, hn, rfl⟩ := Lists.map_eq_ok.mp h
    exact (parseNonzeroByteSize_ok.mp hn).2

theorem PoolReserveSpec.resolve_ok {pool : Usize} (hspec : PoolReserveSpec.Positive spec)
    (hpool : pool.toNat * 100 < 2 ^ 64) (h : spec.resolve display pool = .ok reserve) :
    reserve.toNat = spec.exact pool.toNat ∧ 0 < reserve.toNat ∧ reserve.toNat < pool.toNat ∧
      (ReservedSpillPool.new pool reserve).isSome := by
  unfold PoolReserveSpec.resolve at h
  simp only [Lists.ite_throw_ok, Lists.bind_eq_ok] at h
  obtain ⟨hne, r, hr, hle, h⟩ := h
  obtain rfl := Except.ok.inj h
  have hpos : 0 < pool.toNat := by
    rw [Nat.pos_iff_ne_zero]
    exact fun h => hne (UInt64.toNat_inj.mp h)
  have hlt : r.toNat < pool.toNat := by
    have hsub : (pool - 1).toNat = pool.toNat - 1 := UInt64.toNat_sub_of_le _ _ (UInt64.le_iff_toNat_le.mpr hpos)
    rw [UInt64.lt_iff_toNat_lt, hsub] at hle
    omega
  have hnew : (ReservedSpillPool.new pool r).isSome := by
    have hpool : (0 : Usize) < pool := by
      rw [UInt64.lt_iff_toNat_lt]
      exact hpos
    rw [ReservedSpillPool.new, if_pos hpool, dif_pos (UInt64.lt_iff_toNat_lt.mpr hlt)]
    rfl
  cases spec with
  | fixed n =>
    obtain rfl := Except.ok.inj hr
    exact ⟨rfl, Nat.pos_of_ne_zero fun h => hspec (UInt64.toNat_inj.mp h), hlt, hnew⟩
  | percent pct =>
    simp only [PoolReserveSpec.amount] at hr
    split at hr
    · cases hr
    · rename_i hzero
      obtain rfl := Except.ok.inj hr
      have hproduct : pool.toNat * pct.toNat < 2 ^ 64 :=
        lt_of_le_of_lt (Nat.mul_le_mul_left _ (Nat.le_of_lt hspec)) hpool
      refine ⟨?_, Nat.pos_of_ne_zero fun h => hzero (UInt64.toNat_inj.mp h), hlt, hnew⟩
      rw [toNat_percent, UInt8.toNat_toUInt64, Nat.mod_eq_of_lt hproduct]
      rfl

-- ---------------------------------------------------------------------------
-- All of it
-- ---------------------------------------------------------------------------

/-- The numbers are exact if and only if the share of the memory is a word (or
below the minimum) and so is the share of the budget. -/
theorem budget_exact_iff (display : Usize → String) (sizes : ByteSizes) (spec : MemoryBudgetSpec)
    (totalMemory availableMemory : Usize) (hasSort : Bool) :
    ExactLimits display sizes spec totalMemory availableMemory hasSort ↔
      spec.Fits totalMemory.toNat availableMemory.toNat ∧
        spec.exact totalMemory.toNat availableMemory.toNat * limitPercent hasSort < 2 ^ 64 := by
  constructor
  · intro h
    refine ⟨(resolve_exact_iff ..).mp h.budget, wrapped_iff.mp ?_⟩
    rw [← h.limit, toNat_effectiveMemoryLimit, h.budget]
  · rintro ⟨hfits, hlimit⟩
    have hbudget := (resolve_exact_iff ..).mpr hfits
    have hexact : (effectiveMemoryLimit hasSort (spec.resolve totalMemory availableMemory)).toNat =
        spec.exact totalMemory.toNat availableMemory.toNat * limitPercent hasSort / 100 := by
      rw [toNat_effectiveMemoryLimit, hbudget, wrapped_iff.mpr hlimit]
    have hpool : (effectiveMemoryLimit hasSort (spec.resolve totalMemory availableMemory)).toNat * 100 < 2 ^ 64 := by
      rw [hexact]
      exact lt_of_le_of_lt (Nat.div_mul_le_self _ _) hlimit
    refine ⟨hbudget, hexact, fun text reserveSpec haccepted reserve hreserve => ?_⟩
    rw [← hexact]
    exact PoolReserveSpec.resolve_ok (PoolReserveSpec.fromStr_ok haccepted) hpool hreserve

/-- Sixty percent of an exabyte is taken for 46 petabytes. -/
theorem exabyte_budget_wraps :
    MemoryBudgetSpec.fromStr decimalSizes "1EB".toList = .ok (.fixed 1000000000000000000) ∧
    effectiveMemoryLimit true ((MemoryBudgetSpec.fixed 1000000000000000000).resolve 17179869184 8589934592) =
      46597677788713451 ∧
    ¬ ExactLimits (fun _ => "") decimalSizes (.fixed 1000000000000000000) 17179869184 8589934592 true := by
  refine ⟨by decide, by decide, fun h => ?_⟩
  have hlimit := h.limit
  revert hlimit
  decide

end SilkChiffon.Cli
