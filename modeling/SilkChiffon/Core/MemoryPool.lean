import Mathlib.Algebra.GroupWithZero.Nat
import Mathlib.Data.List.Induction
import SilkChiffon.Lib.Lists
import SilkChiffon.Lib.Machine

/-!
# The reserved spill pool

`ReservedSpillPool` splits a memory budget between spillable consumers, which
share `poolSize - reserveForNonSpillable` evenly, and non-spillable consumers.
The admission test for a spillable consumer reads that consumer's own size
and the number of registered consumers; it never reads the total. `Fits` is
what the test leaves unchecked: the reserve is kept along a run exactly when
every admitted growth fits.
-/

namespace SilkChiffon.MemoryPool

open Machine

abbrev Usize := UInt64

structure MemoryConsumer where
  name : String
  canSpill : Bool
  deriving DecidableEq, Repr

structure MemoryReservation where
  consumer : MemoryConsumer
  size : Usize
  deriving DecidableEq, Repr

structure PoolState where
  numSpill : Usize
  spillable : Usize
  nonSpillable : Usize
  deriving DecidableEq, Repr

structure ReservedSpillPool where
  poolSize : Usize
  reserveForNonSpillable : Usize
  reserve_lt : reserveForNonSpillable.toNat < poolSize.toNat

/-- `none` is the panic of either assertion. -/
def ReservedSpillPool.new (poolSize reserveForNonSpillable : Usize) : Option ReservedSpillPool :=
  if 0 < poolSize then
    if h : reserveForNonSpillable < poolSize then
      some ⟨poolSize, reserveForNonSpillable, UInt64.lt_iff_toNat_lt.mp h⟩
    else none
  else none

/-- The figures of the two resource errors, in the order of their texts. -/
inductive TryGrowError
  | fairShare (additional : Usize) (name : String)
      (allocated remaining perConsumer spillCapacity : Usize)
  | totalPool (additional : Usize) (name : String) (allocated available : Usize)
  deriving DecidableEq, Repr

def PoolState.empty : PoolState := ⟨0, 0, 0⟩

def PoolState.register (state : PoolState) (consumer : MemoryConsumer) : PoolState :=
  if consumer.canSpill then { state with numSpill := state.numSpill + 1 } else state

def PoolState.unregister (state : PoolState) (consumer : MemoryConsumer) : Option PoolState :=
  if consumer.canSpill then
    (checkedSub state.numSpill 1).map fun n => { state with numSpill := n }
  else some state

def PoolState.shrink (state : PoolState) (reservation : MemoryReservation) (amount : Usize) :
    Option PoolState :=
  if reservation.consumer.canSpill then
    (checkedSub state.spillable amount).map fun n => { state with spillable := n }
  else
    (checkedSub state.nonSpillable amount).map fun n => { state with nonSpillable := n }

namespace ReservedSpillPool

variable (pool : ReservedSpillPool)

/-- The spillable region, reduced when non-spillable usage exceeds the reserve. -/
def spillCapacity (state : PoolState) : Usize :=
  saturatingSub pool.poolSize (max state.nonSpillable pool.reserveForNonSpillable)

def perConsumer (state : PoolState) : Usize :=
  (checkedDiv (pool.spillCapacity state) state.numSpill).getD (pool.spillCapacity state)

def tryGrow (state : PoolState) (reservation : MemoryReservation) (additional : Usize) :
    Except TryGrowError PoolState :=
  if reservation.consumer.canSpill then
    if pool.perConsumer state < reservation.size + additional then
      .error (.fairShare additional reservation.consumer.name reservation.size
        (saturatingSub (pool.perConsumer state) reservation.size)
        (pool.perConsumer state) (pool.spillCapacity state))
    else .ok { state with spillable := state.spillable + additional }
  else
    let available := saturatingSub pool.poolSize (state.nonSpillable + state.spillable)
    if available < additional then
      .error (.totalPool additional reservation.consumer.name reservation.size available)
    else .ok { state with nonSpillable := state.nonSpillable + additional }

end ReservedSpillPool

-- ---------------------------------------------------------------------------
-- Runs of registered consumers
-- ---------------------------------------------------------------------------

/-- The pool's counters beside what every registered consumer really holds. -/
structure Accounts where
  state : PoolState
  reservations : List MemoryReservation
  deriving DecidableEq, Repr

def Accounts.empty : Accounts := ⟨.empty, []⟩

/-- A consumer is named by its position among the registered ones. -/
inductive Op
  | register (consumer : MemoryConsumer)
  | unregister (index : Nat)
  | tryGrow (index : Nat) (additional : Usize)
  | shrink (index : Nat) (amount : Usize)
  deriving DecidableEq, Repr

namespace ReservedSpillPool

variable (pool : ReservedSpillPool)

/-- `none` is a call no caller makes: an unknown consumer, one that leaves
while it still holds memory, or a panic. A refused `tryGrow` is a step that
changes nothing. The size of a reservation wraps as the pool's counters do. -/
def step (accounts : Accounts) : Op → Option Accounts
  | .register consumer =>
    some ⟨accounts.state.register consumer, accounts.reservations ++ [⟨consumer, 0⟩]⟩
  | .unregister i => do
    let r ← accounts.reservations[i]?
    if r.size = 0 then
      let state ← accounts.state.unregister r.consumer
      some ⟨state, accounts.reservations.eraseIdx i⟩
    else none
  | .tryGrow i additional => do
    let r ← accounts.reservations[i]?
    match pool.tryGrow accounts.state r additional with
    | .ok state => some ⟨state, accounts.reservations.set i { r with size := r.size + additional }⟩
    | .error _ => some accounts
  | .shrink i amount => do
    let r ← accounts.reservations[i]?
    let size ← checkedSub r.size amount
    let state ← accounts.state.shrink r amount
    some ⟨state, accounts.reservations.set i { r with size }⟩

def exec : Accounts → List Op → Option Accounts
  | accounts, [] => some accounts
  | accounts, op :: ops => (pool.step accounts op).bind (exec · ops)

end ReservedSpillPool

def usage (reservations : List MemoryReservation) (canSpill : Bool) : Nat :=
  ((reservations.filter (·.consumer.canSpill = canSpill)).map (·.size.toNat)).sum

def Accounts.usage (accounts : Accounts) (canSpill : Bool) : Nat :=
  MemoryPool.usage accounts.reservations canSpill

/-- The guarantee of the type's documentation, for one state. -/
structure Guaranteed (pool : ReservedSpillPool) (accounts : Accounts) : Prop where
  spillable : accounts.usage true ≤ pool.poolSize.toNat - pool.reserveForNonSpillable.toNat
  total : accounts.usage true + accounts.usage false ≤ pool.poolSize.toNat
  reserve : ∀ r ∈ accounts.reservations, r.consumer.canSpill = false → ∀ additional : Usize,
    accounts.usage false + additional.toNat ≤ pool.reserveForNonSpillable.toNat →
      ∃ state, pool.tryGrow accounts.state r additional = .ok state

/-- What the fair-share test does not look at: when it admits a growth, the
other spillable consumers' holdings fit beside the grown reservation. -/
def Fits (pool : ReservedSpillPool) (accounts : Accounts) : Op → Prop
  | .tryGrow i additional => ∀ r, accounts.reservations[i]? = some r → r.consumer.canSpill = true →
      r.size + additional ≤ pool.perConsumer accounts.state →
      r.size.toNat + additional.toNat < 2 ^ 64 →
      usage (accounts.reservations.eraseIdx i) true + (r.size.toNat + additional.toNat) ≤
        (pool.spillCapacity accounts.state).toNat
  | _ => True

-- ---------------------------------------------------------------------------
-- Usage
-- ---------------------------------------------------------------------------

@[simp] theorem usage_nil : usage [] b = 0 := rfl

@[simp] theorem usage_append : usage (l ++ m) b = usage l b + usage m b := by
  simp [usage]

@[simp] theorem usage_cons : usage (r :: l) b =
    (if r.consumer.canSpill = b then r.size.toNat else 0) + usage l b := by
  unfold usage
  by_cases h : r.consumer.canSpill = b <;> simp [h]

theorem usage_set (b : Bool) {l : List MemoryReservation} (h : l[i]? = some r)
    (r' : MemoryReservation) (hc : r'.consumer = r.consumer) :
    usage (l.set i r') b = usage (l.eraseIdx i) b +
      (if r.consumer.canSpill = b then r'.size.toNat else 0) := by
  obtain ⟨before, after, rfl, -, hset, herase⟩ := Lists.split_at h
  simp only [hset, herase, usage_append, usage_cons, hc]
  omega

theorem usage_split {l : List MemoryReservation} (h : l[i]? = some r) :
    usage l b = usage (l.eraseIdx i) b + (if r.consumer.canSpill = b then r.size.toNat else 0) := by
  obtain ⟨before, after, rfl, -, -, herase⟩ := Lists.split_at h
  simp only [herase, usage_append, usage_cons]
  omega

-- ---------------------------------------------------------------------------
-- What one step does
-- ---------------------------------------------------------------------------

theorem tryGrow_spill {pool : ReservedSpillPool} (hc : r.consumer.canSpill = true) :
    pool.tryGrow state r a = .ok state' ↔ r.size + a ≤ pool.perConsumer state ∧
      state' = { state with spillable := state.spillable + a } := by
  simp only [ReservedSpillPool.tryGrow, hc, ↓reduceIte]
  split
  · rename_i h
    simp only [reduceCtorEq, false_iff, not_and]
    intro hle
    exact absurd h (UInt64.not_lt.mpr hle)
  · rename_i h
    simp [UInt64.not_lt.mp h, eq_comm]

theorem tryGrow_nonSpill {pool : ReservedSpillPool} (hc : r.consumer.canSpill = false) :
    pool.tryGrow state r a = .ok state' ↔
      a ≤ saturatingSub pool.poolSize (state.nonSpillable + state.spillable) ∧
      state' = { state with nonSpillable := state.nonSpillable + a } := by
  simp only [ReservedSpillPool.tryGrow, hc, Bool.false_eq_true, ↓reduceIte]
  split
  · rename_i h
    simp only [reduceCtorEq, false_iff, not_and]
    intro hle
    exact absurd h (UInt64.not_lt.mpr hle)
  · rename_i h
    simp [UInt64.not_lt.mp h, eq_comm]

theorem step_cases {pool : ReservedSpillPool} (h : pool.step accounts op = some next) :
    (∃ c, op = .register c ∧
      next = ⟨accounts.state.register c, accounts.reservations ++ [⟨c, 0⟩]⟩) ∨
    (∃ i r state, op = .unregister i ∧ accounts.reservations[i]? = some r ∧ r.size = 0 ∧
      accounts.state.unregister r.consumer = some state ∧
      next = ⟨state, accounts.reservations.eraseIdx i⟩) ∨
    (∃ i a r state, op = .tryGrow i a ∧ accounts.reservations[i]? = some r ∧
      pool.tryGrow accounts.state r a = .ok state ∧
      next = ⟨state, accounts.reservations.set i { r with size := r.size + a }⟩) ∨
    (∃ i a r e, op = .tryGrow i a ∧ accounts.reservations[i]? = some r ∧
      pool.tryGrow accounts.state r a = .error e ∧ next = accounts) ∨
    (∃ i a r size state, op = .shrink i a ∧ accounts.reservations[i]? = some r ∧
      checkedSub r.size a = some size ∧ accounts.state.shrink r a = some state ∧
      next = ⟨state, accounts.reservations.set i { r with size }⟩) := by
  cases op with
  | register c => exact .inl ⟨c, rfl, by simpa [ReservedSpillPool.step] using h.symm⟩
  | unregister i =>
    simp only [ReservedSpillPool.step, Option.bind_eq_bind, Option.bind_eq_some_iff] at h
    obtain ⟨r, hr, h⟩ := h
    split at h
    · rename_i hz
      simp only [Option.bind_eq_some_iff, Option.some.injEq] at h
      obtain ⟨state, hs, rfl⟩ := h
      exact .inr (.inl ⟨i, r, state, rfl, hr, hz, hs, rfl⟩)
    · cases h
  | tryGrow i a =>
    simp only [ReservedSpillPool.step, Option.bind_eq_bind, Option.bind_eq_some_iff] at h
    obtain ⟨r, hr, h⟩ := h
    split at h
    · rename_i state hs
      exact .inr (.inr (.inl ⟨i, a, r, state, rfl, hr, hs, by simpa using h.symm⟩))
    · rename_i e he
      exact .inr (.inr (.inr (.inl ⟨i, a, r, e, rfl, hr, he, by simpa using h.symm⟩)))
  | shrink i a =>
    simp only [ReservedSpillPool.step, Option.bind_eq_bind, Option.bind_eq_some_iff,
      Option.some.injEq] at h
    obtain ⟨r, hr, size, hz, state, hs, rfl⟩ := h
    exact .inr (.inr (.inr (.inr ⟨i, a, r, size, state, rfl, hr, hz, hs, rfl⟩)))

-- ---------------------------------------------------------------------------
-- The counters track the usage
-- ---------------------------------------------------------------------------

structure Tracked (accounts : Accounts) : Prop where
  spillable : accounts.state.spillable.toNat = accounts.usage true
  nonSpillable : accounts.state.nonSpillable.toNat = accounts.usage false

def Bounded (pool : ReservedSpillPool) (accounts : Accounts) : Prop :=
  accounts.usage true ≤ pool.poolSize.toNat - pool.reserveForNonSpillable.toNat ∧
    accounts.usage true + accounts.usage false ≤ pool.poolSize.toNat

theorem toNat_spillCapacity (pool : ReservedSpillPool) (state : PoolState) :
    (pool.spillCapacity state).toNat =
      pool.poolSize.toNat - max state.nonSpillable.toNat pool.reserveForNonSpillable.toNat := by
  simp [ReservedSpillPool.spillCapacity]

/-- The spillable bound and the total bound together are the capacity the
pool computes. -/
theorem bounded_iff {pool : ReservedSpillPool} (ht : Tracked accounts)
    (hn : accounts.usage false ≤ pool.poolSize.toNat) :
    Bounded pool accounts ↔ accounts.usage true ≤ (pool.spillCapacity accounts.state).toNat := by
  have := pool.reserve_lt
  rw [toNat_spillCapacity, ht.nonSpillable, Bounded]
  omega

theorem Bounded.guaranteed {pool : ReservedSpillPool} (hb : Bounded pool accounts)
    (ht : Tracked accounts) : Guaranteed pool accounts := by
  refine ⟨hb.1, hb.2, ?_⟩
  intro r hr hc a ha
  have hsum : (accounts.state.nonSpillable + accounts.state.spillable).toNat =
      accounts.usage false + accounts.usage true := by
    have hlt := pool.poolSize.toNat_lt
    have h2 := hb.2
    rw [toNat_add_of_lt, ht.spillable, ht.nonSpillable]
    rw [ht.spillable, ht.nonSpillable]
    omega
  refine ⟨_, (tryGrow_nonSpill hc).mpr ⟨?_, rfl⟩⟩
  rw [UInt64.le_iff_toNat_le, toNat_saturatingSub, hsum]
  have h1 := hb.1
  have := pool.reserve_lt
  omega

theorem Guaranteed.bounded {pool : ReservedSpillPool} (h : Guaranteed pool accounts) :
    Bounded pool accounts := ⟨h.spillable, h.total⟩

-- ---------------------------------------------------------------------------
-- Steps that move no memory
-- ---------------------------------------------------------------------------

theorem register_counters (state : PoolState) (c : MemoryConsumer) :
    (state.register c).spillable = state.spillable ∧
      (state.register c).nonSpillable = state.nonSpillable := by
  unfold PoolState.register
  split <;> exact ⟨rfl, rfl⟩

theorem unregister_counters (h : PoolState.unregister state c = some state') :
    state'.spillable = state.spillable ∧ state'.nonSpillable = state.nonSpillable := by
  unfold PoolState.unregister at h
  split at h
  · simp only [Option.map_eq_some_iff] at h
    obtain ⟨n, -, rfl⟩ := h
    exact ⟨rfl, rfl⟩
  · cases h
    exact ⟨rfl, rfl⟩

theorem shrink_counters (h : PoolState.shrink state r a = some state') :
    (r.consumer.canSpill = true ∧ state'.spillable.toNat + a.toNat = state.spillable.toNat ∧
      state'.nonSpillable = state.nonSpillable) ∨
    (r.consumer.canSpill = false ∧ state'.spillable = state.spillable ∧
      state'.nonSpillable.toNat + a.toNat = state.nonSpillable.toNat) := by
  unfold PoolState.shrink at h
  split at h
  · rename_i hc
    simp only [Option.map_eq_some_iff, checkedSub_eq_some] at h
    obtain ⟨n, hn, rfl⟩ := h
    exact .inl ⟨hc, hn, rfl⟩
  · rename_i hc
    simp only [Option.map_eq_some_iff, checkedSub_eq_some] at h
    obtain ⟨n, hn, rfl⟩ := h
    exact .inr ⟨by simpa using hc, rfl, hn⟩

-- ---------------------------------------------------------------------------
-- One step keeps the bound exactly when it fits
-- ---------------------------------------------------------------------------

/-- A spillable growth the fair-share test admits: the next state tracks its
usage whenever the capacity covers it, and the capacity covers it exactly
when the growth fits. A sum that wraps shrinks the reservation. -/
theorem grow_spillable {pool : ReservedSpillPool} (ht : Tracked accounts)
    (hb : Bounded pool accounts) (hr : accounts.reservations[i]? = some r)
    (hc : r.consumer.canSpill = true) (ha : r.size + a ≤ pool.perConsumer accounts.state)
    (hnext : next = ⟨{ accounts.state with spillable := accounts.state.spillable + a },
      accounts.reservations.set i { r with size := r.size + a }⟩) :
    (Fits pool accounts (.tryGrow i a) → Tracked next ∧ Bounded pool next) ∧
      (Bounded pool next → Fits pool accounts (.tryGrow i a)) := by
  have hsplit := usage_split (b := true) hr
  have hsplit' := usage_split (b := false) hr
  have hset := usage_set true hr { r with size := r.size + a } rfl
  have hset' := usage_set false hr { r with size := r.size + a } rfl
  simp only [hc, ↓reduceIte, Bool.true_eq_false, Nat.add_zero] at hsplit hsplit' hset hset'
  have hcap := toNat_spillCapacity pool accounts.state
  have hcap' : pool.spillCapacity next.state = pool.spillCapacity accounts.state := by rw [hnext]; rfl
  have hsp := ht.spillable
  have hns := ht.nonSpillable
  have hlt := pool.poolSize.toNat_lt
  have hres := pool.reserve_lt
  simp only [Accounts.usage] at hsp hns
  have husage : next.usage true = usage (accounts.reservations.eraseIdx i) true + (r.size + a).toNat := by
    rw [hnext]; exact hset
  have husage' : next.usage false = accounts.usage false := by
    rw [hnext]; exact hset'.trans hsplit'.symm
  have hb' := hb
  simp only [Bounded, Accounts.usage] at hb'
  -- The counter follows the usage as long as the usage stays within the pool.
  have track (hle : next.usage true < 2 ^ 64) : Tracked next := by
    refine ⟨?_, by rw [husage', hnext]; exact ht.nonSpillable⟩
    rw [husage] at hle ⊢
    have hstate : next.state.spillable = accounts.state.spillable + a := by rw [hnext]
    rw [hstate]
    by_cases hw : r.size.toNat + a.toNat < 2 ^ 64
    · rw [toNat_add_of_lt hw] at hle ⊢
      rw [toNat_add_of_lt (by omega)]
      omega
    · rw [toNat_add_of_ge (by omega), toNat_add_of_ge (by omega)]
      omega
  have hn : next.usage false ≤ pool.poolSize.toNat := by
    rw [husage']; simp only [Accounts.usage]; omega
  constructor
  · intro hf
    have hfit : next.usage true ≤ (pool.spillCapacity accounts.state).toNat := by
      rw [husage]
      by_cases hw : r.size.toNat + a.toNat < 2 ^ 64
      · rw [toNat_add_of_lt hw]
        exact hf r hr hc ha hw
      · have hold : accounts.usage true ≤ (pool.spillCapacity accounts.state).toNat :=
          (bounded_iff ht (by simp only [Accounts.usage]; omega)).mp hb
        have := a.toNat_lt
        simp only [Accounts.usage] at hold
        rw [toNat_add_of_ge (by omega)]
        omega
    have htn := track (by omega)
    exact ⟨htn, (bounded_iff htn hn).mpr (by rw [hcap']; exact hfit)⟩
  · intro hbn r' hr' _ _ hw
    obtain rfl : r = r' := Option.some.inj (hr.symm.trans hr')
    have htn := track (by have := hbn.1; omega)
    have hfit := (bounded_iff htn hn).mp hbn
    rwa [hcap', husage, toNat_add_of_lt hw] at hfit

theorem grow_nonSpillable {pool : ReservedSpillPool} (ht : Tracked accounts)
    (hb : Bounded pool accounts) (hr : accounts.reservations[i]? = some r)
    (hc : r.consumer.canSpill = false)
    (ha : a ≤ saturatingSub pool.poolSize (accounts.state.nonSpillable + accounts.state.spillable))
    (hnext : next = ⟨{ accounts.state with nonSpillable := accounts.state.nonSpillable + a },
      accounts.reservations.set i { r with size := r.size + a }⟩) :
    Tracked next ∧ Bounded pool next := by
  have hsplit := usage_split (b := true) hr
  have hsplit' := usage_split (b := false) hr
  have hset := usage_set true hr { r with size := r.size + a } rfl
  have hset' := usage_set false hr { r with size := r.size + a } rfl
  simp only [hc, ↓reduceIte, Bool.false_eq_true, Nat.add_zero] at hsplit hsplit' hset hset'
  have hsp := ht.spillable
  have hns := ht.nonSpillable
  have hlt := pool.poolSize.toNat_lt
  simp only [Bounded, Accounts.usage] at hb hsp hns
  have hsum : (accounts.state.nonSpillable + accounts.state.spillable).toNat =
      accounts.state.nonSpillable.toNat + accounts.state.spillable.toNat :=
    toNat_add_of_lt (by omega)
  have hroom : a.toNat ≤ pool.poolSize.toNat -
      (accounts.state.nonSpillable.toNat + accounts.state.spillable.toNat) := by
    simpa [UInt64.le_iff_toNat_le, hsum] using ha
  rw [toNat_add_of_lt (by omega)] at hset'
  subst hnext
  refine ⟨⟨?_, ?_⟩, ?_⟩
  · exact hsp.trans (hsplit.trans hset.symm)
  · simp only [Accounts.usage]
    rw [toNat_add_of_lt (by omega)]
    omega
  · simp only [Bounded, Accounts.usage]
    omega

theorem shrink_keeps {pool : ReservedSpillPool} (ht : Tracked accounts)
    (hb : Bounded pool accounts) (hr : accounts.reservations[i]? = some r)
    (hz : checkedSub r.size a = some size) (hs : accounts.state.shrink r a = some state)
    (hnext : next = ⟨state, accounts.reservations.set i { r with size }⟩) :
    Tracked next ∧ Bounded pool next := by
  have hsize := checkedSub_eq_some.mp hz
  have hsplit := usage_split (b := true) hr
  have hsplit' := usage_split (b := false) hr
  have hset := usage_set true hr { r with size } rfl
  have hset' := usage_set false hr { r with size } rfl
  have hsp := ht.spillable
  have hns := ht.nonSpillable
  simp only [Bounded, Accounts.usage] at hb hsp hns
  subst hnext
  rcases shrink_counters hs with ⟨hc, h1, h2⟩ | ⟨hc, h1, h2⟩ <;>
    simp only [hc, ↓reduceIte, Bool.false_eq_true, Bool.true_eq_false, Nat.add_zero]
      at hsplit hsplit' hset hset'
  · refine ⟨⟨?_, ?_⟩, ?_⟩
    · simp only [Accounts.usage]; omega
    · simp only [Accounts.usage, h2]; omega
    · simp only [Bounded, Accounts.usage]; omega
  · refine ⟨⟨?_, ?_⟩, ?_⟩
    · simp only [Accounts.usage, h1]; omega
    · simp only [Accounts.usage]; omega
    · simp only [Bounded, Accounts.usage]; omega

theorem step_bounded_iff {pool : ReservedSpillPool} (ht : Tracked accounts)
    (hb : Bounded pool accounts) (h : pool.step accounts op = some next) :
    (Fits pool accounts op → Tracked next ∧ Bounded pool next) ∧
      (Bounded pool next → Fits pool accounts op) := by
  obtain ⟨c, rfl, rfl⟩ | ⟨i, r, state, rfl, hr, hz, hs, rfl⟩ | ⟨i, a, r, state, rfl, hr, hs, rfl⟩ |
    ⟨i, a, r, e, rfl, hr, he, rfl⟩ | ⟨i, a, r, size, state, rfl, hr, hz, hs, rfl⟩ := step_cases h
  · obtain ⟨h1, h2⟩ := register_counters accounts.state c
    refine ⟨fun _ => ⟨⟨?_, ?_⟩, ?_⟩, fun _ => trivial⟩
    · simpa [Accounts.usage, h1] using ht.spillable
    · simpa [Accounts.usage, h2] using ht.nonSpillable
    · simpa [Bounded, Accounts.usage] using hb
  · obtain ⟨h1, h2⟩ := unregister_counters hs
    -- A consumer that leaves holds nothing, so no usage leaves with it.
    have hsplit (b : Bool) : usage (accounts.reservations.eraseIdx i) b = accounts.usage b := by
      simp [Accounts.usage, usage_split (b := b) hr, hz]
    refine ⟨fun _ => ⟨⟨?_, ?_⟩, ?_⟩, fun _ => trivial⟩
    · rw [h1, ht.spillable]; exact (hsplit true).symm
    · rw [h2, ht.nonSpillable]; exact (hsplit false).symm
    · simp only [Bounded, Accounts.usage, hsplit]; exact hb
  · cases hc : r.consumer.canSpill with
    | true =>
      obtain ⟨ha, rfl⟩ := (tryGrow_spill hc).mp hs
      exact grow_spillable ht hb hr hc ha rfl
    | false =>
      obtain ⟨ha, rfl⟩ := (tryGrow_nonSpill hc).mp hs
      refine ⟨fun _ => grow_nonSpillable ht hb hr hc ha rfl, ?_⟩
      intro _ r' hr' hc'
      obtain rfl : r = r' := Option.some.inj (hr.symm.trans hr')
      exact absurd hc' (by simp [hc])
  · refine ⟨fun _ => ⟨ht, hb⟩, ?_⟩
    intro _ r' hr' hc' ha'
    obtain rfl : r = r' := Option.some.inj (hr.symm.trans hr')
    rw [(tryGrow_spill hc').mpr ⟨ha', rfl⟩] at he
    cases he
  · exact ⟨fun _ => shrink_keeps ht hb hr hz hs rfl, fun _ => trivial⟩

-- ---------------------------------------------------------------------------
-- Whole runs
-- ---------------------------------------------------------------------------

theorem exec_append {pool : ReservedSpillPool} (first second : List Op) :
    pool.exec accounts (first ++ second) = (pool.exec accounts first).bind (pool.exec · second) := by
  induction first generalizing accounts with
  | nil => rfl
  | cons op ops ih =>
    simp only [List.cons_append, ReservedSpillPool.exec]
    cases pool.step accounts op with
    | none => rfl
    | some next => exact ih

theorem exec_snoc {pool : ReservedSpillPool} (ops : List Op) (op : Op) :
    pool.exec accounts (ops ++ [op]) = (pool.exec accounts ops).bind (pool.step · op) := by
  rw [exec_append]
  congr 1
  funext mid
  simp [ReservedSpillPool.exec]

theorem empty_tracked : Tracked .empty := ⟨rfl, rfl⟩

theorem empty_bounded (pool : ReservedSpillPool) : Bounded pool .empty := by
  simp [Bounded, Accounts.usage, Accounts.empty]

theorem run_bounded {pool : ReservedSpillPool} (ops : List Op)
    (hfits : ∀ pre op, pre ++ [op] <+: ops → ∀ t, pool.exec .empty pre = some t → Fits pool t op)
    (h : pool.exec .empty ops = some accounts) : Tracked accounts ∧ Bounded pool accounts := by
  induction ops using List.reverseRecOn generalizing accounts with
  | nil =>
    obtain rfl := Option.some.inj h
    exact ⟨empty_tracked, empty_bounded pool⟩
  | append_singleton ops op ih =>
    rw [exec_snoc, Option.bind_eq_some_iff] at h
    obtain ⟨mid, hmid, hstep⟩ := h
    have hfits' := fun pre o hp => hfits pre o (List.IsPrefix.trans hp (List.prefix_append ops [op]))
    obtain ⟨ht, hb⟩ := ih hfits' hmid
    exact (step_bounded_iff ht hb hstep).1 (hfits ops op (List.prefix_refl _) mid hmid)

theorem step_of_admitted {pool : ReservedSpillPool} (hr : accounts.reservations[i]? = some r)
    (hc : r.consumer.canSpill = true) (ha : r.size + a ≤ pool.perConsumer accounts.state) :
    ∃ next, pool.step accounts (.tryGrow i a) = some next := by
  have hok : pool.tryGrow accounts.state r a = .ok _ := (tryGrow_spill hc).mpr ⟨ha, rfl⟩
  simp [ReservedSpillPool.step, hr, hok]

theorem run_fits {pool : ReservedSpillPool} (ops : List Op) (op : Op)
    (hbound : ∀ pre, pre <+: ops ++ [op] → ∀ t, pool.exec .empty pre = some t → Bounded pool t)
    (h : pool.exec .empty ops = some accounts) :
    Tracked accounts ∧ Fits pool accounts op := by
  have ht : Tracked accounts := by
    induction ops using List.reverseRecOn generalizing accounts op with
    | nil =>
      obtain rfl := Option.some.inj h
      exact empty_tracked
    | append_singleton ops last ih =>
      have hb := hbound _ (List.prefix_append _ [op]) _ h
      have hbound' := fun pre hp => hbound pre (List.IsPrefix.trans hp (List.prefix_append _ [op]))
      rw [exec_snoc, Option.bind_eq_some_iff] at h
      obtain ⟨mid, hmid, hstep⟩ := h
      have htm := ih last hbound' hmid
      have hbm := hbound' ops (List.prefix_append ops [last]) mid hmid
      have hlast := (step_bounded_iff htm hbm hstep).2 hb
      exact ((step_bounded_iff htm hbm hstep).1 hlast).1
  refine ⟨ht, ?_⟩
  have hb := hbound ops (List.prefix_append ops [op]) accounts h
  -- A step that cannot be taken is no admitted growth.
  cases hstep : pool.step accounts op with
  | some next =>
    have hnext : pool.exec .empty (ops ++ [op]) = some next := by
      rw [exec_snoc, h, Option.bind_some, hstep]
    exact (step_bounded_iff ht hb hstep).2 (hbound _ (List.prefix_refl _) next hnext)
  | none =>
    cases op with
    | tryGrow i a =>
      intro r hr hc ha _
      obtain ⟨next, hnext⟩ := step_of_admitted hr hc ha
      rw [hstep] at hnext
      cases hnext
    | _ => trivial

/-- The documented guarantee holds in every state of a run exactly when every
growth the fair-share test admits fits beside the other spillable consumers.

The run is any list of operations of any number of consumers, from the empty
pool; states after a prefix that panics do not exist. -/
theorem reserve_guarantee_iff (pool : ReservedSpillPool) (ops : List Op) :
    (∀ pre, pre <+: ops → ∀ t, pool.exec .empty pre = some t → Guaranteed pool t) ↔
      ∀ pre op, pre ++ [op] <+: ops → ∀ t, pool.exec .empty pre = some t → Fits pool t op := by
  constructor
  · intro hg pre op hp t ht
    exact (run_fits pre op (fun p hpre s hs => (hg p (hpre.trans hp) s hs).bounded) ht).2
  · intro hfits pre hp t ht
    obtain ⟨htr, hb⟩ := run_bounded pre (fun p op hpre => hfits p op (hpre.trans hp)) ht
    exact hb.guaranteed htr

/-- One spillable consumer takes the whole region alone, a second registers
and takes its half of it: 120 of 100 bytes are held, and a request for the
reserved 20 is refused. -/
theorem reserve_guarantee_broken : ∃ pool, ReservedSpillPool.new 100 20 = some pool ∧
    ∃ accounts, pool.exec .empty
        [.register ⟨"s1", true⟩, .tryGrow 0 80, .register ⟨"s2", true⟩, .tryGrow 1 40,
          .register ⟨"merger", false⟩] = some accounts ∧
      ¬accounts.usage true ≤ 100 - 20 ∧ ¬accounts.usage true + accounts.usage false ≤ 100 ∧
      pool.tryGrow accounts.state ⟨⟨"merger", false⟩, 0⟩ 20 =
        .error (.totalPool 20 "merger" 0 0) := by
  refine ⟨⟨100, 20, by decide⟩, rfl, _, rfl, ?_, ?_, rfl⟩ <;> decide

-- ---------------------------------------------------------------------------
-- Fair shares
-- ---------------------------------------------------------------------------

def spillers (reservations : List MemoryReservation) : Nat :=
  reservations.countP (·.consumer.canSpill)

theorem usage_le_shares (h : ∀ r ∈ l, r.consumer.canSpill = true → r.size.toNat ≤ share) :
    usage l true ≤ spillers l * share := by
  induction l with
  | nil => simp [spillers]
  | cons r l ih =>
    have hl := ih fun x hx => h x (List.mem_cons_of_mem _ hx)
    by_cases hc : r.consumer.canSpill = true
    · have hr := h r (by simp) hc
      simp only [usage_cons, hc, ↓reduceIte, spillers, List.countP_cons_of_pos, Nat.add_mul] at hl ⊢
      omega
    · simpa [hc, spillers] using hl

def Counted (accounts : Accounts) : Prop :=
  accounts.state.numSpill = UInt64.ofNat (spillers accounts.reservations)

theorem spillers_erase {l : List MemoryReservation} (h : l[i]? = some r) :
    spillers l = spillers (l.eraseIdx i) + (if r.consumer.canSpill then 1 else 0) := by
  obtain ⟨before, after, rfl, -, -, herase⟩ := Lists.split_at h
  rw [herase]
  simp only [spillers, List.countP_append, List.countP_cons]
  omega

theorem spillers_set {l : List MemoryReservation} (h : l[i]? = some r) (r' : MemoryReservation)
    (hc : r'.consumer = r.consumer) : spillers (l.set i r') = spillers l := by
  obtain ⟨before, after, rfl, -, hset, -⟩ := Lists.split_at h
  simp [hset, spillers, List.countP_append, List.countP_cons, hc]

theorem step_counted {pool : ReservedSpillPool} (hn : Counted accounts)
    (h : pool.step accounts op = some next) : Counted next := by
  unfold Counted at *
  obtain ⟨c, rfl, rfl⟩ | ⟨i, r, state, rfl, hr, hz, hs, rfl⟩ | ⟨i, a, r, state, rfl, hr, hs, rfl⟩ |
    ⟨i, a, r, e, rfl, hr, he, rfl⟩ | ⟨i, a, r, size, state, rfl, hr, hz, hs, rfl⟩ := step_cases h
  · cases hc : c.canSpill <;> simp [PoolState.register, hc, hn, spillers, List.countP_append]
  · have hcount := spillers_erase hr
    unfold PoolState.unregister at hs
    split at hs
    · rename_i hc
      simp only [Option.map_eq_some_iff] at hs
      obtain ⟨n, hn', rfl⟩ := hs
      unfold checkedSub at hn'
      split at hn'
      · simp only [Option.some.injEq] at hn'
        rw [hn, hcount, if_pos hc] at hn'
        simp [← hn']
      · cases hn'
    · rename_i hc
      cases hs
      rw [hn, hcount, if_neg hc, Nat.add_zero]
  · have hstate : state.numSpill = accounts.state.numSpill := by
      cases hc : r.consumer.canSpill with
      | true => rw [((tryGrow_spill hc).mp hs).2]
      | false => rw [((tryGrow_nonSpill hc).mp hs).2]
    have hset := spillers_set hr { r with size := r.size + a } rfl
    simp only [hstate, hn, hset]
  · exact hn
  · have hstate : state.numSpill = accounts.state.numSpill := by
      unfold PoolState.shrink at hs
      split at hs <;> simp only [Option.map_eq_some_iff] at hs <;> obtain ⟨n, -, rfl⟩ := hs <;> rfl
    have hset := spillers_set hr { r with size } rfl
    simp only [hstate, hn, hset]

theorem run_counted {pool : ReservedSpillPool} (ops : List Op)
    (h : pool.exec .empty ops = some accounts) : Counted accounts := by
  induction ops using List.reverseRecOn generalizing accounts with
  | nil =>
    obtain rfl := Option.some.inj h
    rfl
  | append_singleton ops op ih =>
    rw [exec_snoc, Option.bind_eq_some_iff] at h
    obtain ⟨mid, hmid, hstep⟩ := h
    exact step_counted (ih hmid) hstep

/-- No spillable consumer but the growing one is above the current share. -/
def Shared (pool : ReservedSpillPool) (accounts : Accounts) : Op → Prop
  | .tryGrow i _ => ∀ r ∈ accounts.reservations.eraseIdx i, r.consumer.canSpill = true →
      r.size.toNat ≤ (pool.perConsumer accounts.state).toNat
  | _ => True

theorem Shared.fits {pool : ReservedSpillPool} (hs : Shared pool accounts op)
    (hn : Counted accounts) (hlt : spillers accounts.reservations < 2 ^ 64) :
    Fits pool accounts op := by
  cases op with
  | tryGrow i a =>
    intro r hr hc ha hw
    have hother := usage_le_shares hs
    have hown : r.size.toNat + a.toNat ≤ (pool.perConsumer accounts.state).toNat := by
      rw [← toNat_add_of_lt hw]
      exact UInt64.le_iff_toNat_le.mp ha
    have hcount : spillers accounts.reservations =
        spillers (accounts.reservations.eraseIdx i) + 1 := by
      rw [spillers_erase hr, if_pos hc]
    have hnum : accounts.state.numSpill.toNat = spillers accounts.reservations := by
      rw [hn, UInt64.toNat_ofNat_of_lt' hlt]
    have hzero : accounts.state.numSpill ≠ 0 := by
      intro h0
      rw [h0] at hnum
      simp at hnum
      omega
    have hdiv : (pool.perConsumer accounts.state).toNat =
        (pool.spillCapacity accounts.state).toNat / accounts.state.numSpill.toNat := by
      simp [ReservedSpillPool.perConsumer, checkedDiv, hzero]
    have hmul := Nat.div_mul_le_self (pool.spillCapacity accounts.state).toNat
      accounts.state.numSpill.toNat
    rw [← hdiv, hnum, hcount, Nat.mul_comm, Nat.add_mul] at hmul
    omega
  | _ => trivial

/-- Only a consumer that grew under an earlier, larger share can break the
reserve: without one, the documented guarantee holds all along a run. -/
theorem guarantee_of_shares (pool : ReservedSpillPool) (ops : List Op)
    (hshared : ∀ pre op, pre ++ [op] <+: ops → ∀ t, pool.exec .empty pre = some t →
      Shared pool t op ∧ spillers t.reservations < 2 ^ 64) :
    ∀ pre, pre <+: ops → ∀ t, pool.exec .empty pre = some t → Guaranteed pool t := by
  intro pre hp t ht
  have hfits : ∀ p op, p ++ [op] <+: pre → ∀ s, pool.exec .empty p = some s → Fits pool s op := by
    intro p op hpre s hs
    obtain ⟨hshare, hlt⟩ := hshared p op (hpre.trans hp) s hs
    exact hshare.fits (run_counted p hs) hlt
  obtain ⟨htr, hb⟩ := run_bounded pre hfits ht
  exact hb.guaranteed htr

end SilkChiffon.MemoryPool
