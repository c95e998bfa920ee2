import Mathlib.Order.Iterate
import Mathlib.Tactic.Ring
import SilkChiffon.BigQuery.Backoff
import SilkChiffon.Lib.Lists

/-!
# Growth of the backoff cap

The cap grows by a multiply and a floored divide in nanoseconds. From four
nanoseconds on every growth adds to it, so that it doubles within eight; below
four the floor takes all of the growth away.
-/

namespace SilkChiffon.BigQuery.BackoffPolicy

def grown (maximum nanos : Nat) : Nat := min (nanos * 13 / 10) maximum

theorem le_grown (h : nanos ≤ maximum) : nanos ≤ grown maximum nanos := by
  unfold grown
  omega

theorem grown_le (maximum nanos : Nat) : grown maximum nanos ≤ maximum := min_le_right ..

theorem grown_small (h : nanos < 4) (hle : nanos ≤ maximum) : grown maximum nanos = nanos := by
  unfold grown
  omega

theorem grown_adds (maximum : Nat) (hfour : 4 ≤ start) (hstart : start ≤ nanos) :
    min (8 * nanos + start) (8 * maximum) ≤ 8 * grown maximum nanos := by
  unfold grown
  omega

-- ---------------------------------------------------------------------------
-- Many growths
-- ---------------------------------------------------------------------------

theorem iterate_grown_le (h : nanos ≤ maximum) (n : Nat) : (grown maximum)^[n] nanos ≤ maximum := by
  cases n with
  | zero => exact h
  | succ n =>
    rw [Function.iterate_succ_apply']
    exact grown_le ..

theorem iterate_grown_mono (h : nanos ≤ maximum) :
    Monotone fun n => (grown maximum)^[n] nanos := by
  refine monotone_nat_of_le_succ fun n => ?_
  rw [Function.iterate_succ_apply']
  exact le_grown (iterate_grown_le h n)

theorem iterate_grown_small (h : nanos < 4) (hle : nanos ≤ maximum) (n : Nat) :
    (grown maximum)^[n] nanos = nanos :=
  Function.iterate_fixed (grown_small h hle) n

theorem iterate_grown_adds (hfour : 4 ≤ nanos) (hle : nanos ≤ maximum) (n : Nat) :
    min ((8 + n) * nanos) (8 * maximum) ≤ 8 * (grown maximum)^[n] nanos := by
  induction n with
  | zero => exact min_le_left ..
  | succ n ih =>
    have hstart : nanos ≤ (grown maximum)^[n] nanos := iterate_grown_mono hle (Nat.zero_le n)
    have hadds := grown_adds maximum hfour hstart
    have hsplit : (8 + (n + 1)) * nanos = (8 + n) * nanos + nanos := by ring
    rw [Function.iterate_succ_apply', hsplit]
    omega

theorem iterate_grown_doubles (hfour : 4 ≤ nanos) (hle : nanos ≤ maximum) (n : Nat) :
    min (2 ^ n * nanos) maximum ≤ (grown maximum)^[8 * n] nanos := by
  induction n with
  | zero => simp
  | succ n ih =>
    have hfirst : 4 ≤ (grown maximum)^[8 * n] nanos :=
      hfour.trans (iterate_grown_mono hle (Nat.zero_le (8 * n)))
    have hadds := iterate_grown_adds hfirst (iterate_grown_le hle (8 * n)) 8
    have hsteps : 8 * (n + 1) = 8 + 8 * n := by ring
    have hdouble : 2 ^ (n + 1) * nanos = 2 * (2 ^ n * nanos) := by ring
    rw [hsteps, hdouble, Function.iterate_add_apply]
    omega

/-- More doublings than a duration has bits reach any maximum. -/
theorem iterate_grown_reaches (hfour : 4 ≤ nanos) (hle : nanos ≤ maximum)
    (hfits : maximum < Duration.limit) (hn : 752 ≤ n) : (grown maximum)^[n] nanos = maximum := by
  have hbits : maximum ≤ 2 ^ 94 * nanos := by
    rw [Duration.limit] at hfits
    omega
  have hdoubles := iterate_grown_doubles hfour hle 94
  rw [min_eq_right hbits] at hdoubles
  exact Nat.le_antisymm (iterate_grown_le hle n) (hdoubles.trans (iterate_grown_mono hle hn))

-- ---------------------------------------------------------------------------
-- The functions
-- ---------------------------------------------------------------------------

theorem checkedMul_ok (h : a * b < 340282366920938463463374607431768211456) :
    checkedMul a b = some (a * b) := if_pos h

theorem durationFromNanos_ok (h : nanos < Duration.limit) :
    durationFromNanos nanos = .ok ⟨nanos, h⟩ :=
  dif_pos ((Nat.div_lt_iff_lt_mul (by decide)).mpr h)

theorem readRows_ok (h : readRows initial maximum = .ok policy) :
    0 < initial.nanos ∧ initial ≤ maximum ∧ policy = {
      initialDelay := initial, multiplierNumerator := 13, multiplierDenominator := 10
      maximumDelay := maximum
      sustainedAcceptedProgress := BigQuery.sustainedAcceptedProgress } := by
  unfold readRows new at h
  split at h
  · cases h
  · rename_i hguard
    obtain rfl := Except.ok.inj h
    simp only [not_or, not_lt, Duration.isZero, decide_eq_true_eq] at hguard
    exact ⟨Nat.pos_of_ne_zero hguard.1, hguard.2.2.2, rfl⟩

section

variable {policy : BackoffPolicy} (hread : readRows initial maximum = .ok policy)

include hread

theorem growCap_ok (hle : nanos ≤ maximum.nanos) (n : Nat) :
    policy.growCap maximum.nanos n nanos = .ok ((grown maximum.nanos)^[n] nanos) := by
  obtain ⟨-, -, rfl⟩ := readRows_ok hread
  induction n generalizing nanos with
  | zero => rfl
  | succ n ih =>
    rw [growCap]
    split
    · have hfits := maximum.fits
      rw [Duration.limit] at hfits
      have hproduct : nanos * 13 < 340282366920938463463374607431768211456 := by omega
      rw [checkedMul_ok hproduct, Function.iterate_succ_apply]
      exact ih (grown_le ..)
    · have hmaximum : grown maximum.nanos nanos = nanos := by
        unfold grown
        omega
      rw [Function.iterate_fixed hmaximum]

theorem delayCap_ok (hstreak : 1 ≤ streak) :
    ∃ cap, policy.delayCap streak = .ok cap ∧
      cap.nanos = (grown maximum.nanos)^[streak.toNat - 1] initial.nanos := by
  have hcap := growCap_ok hread (readRows_ok hread).2.1 (streak.toNat - 1)
  have hle := iterate_grown_le (readRows_ok hread).2.1 (streak.toNat - 1)
  have hstreak : streak ≠ 0 := by
    rintro rfl
    exact absurd hstreak (by decide)
  obtain ⟨-, -, rfl⟩ := readRows_ok hread
  rw [delayCap, if_neg hstreak]
  simp only [hcap]
  exact ⟨_, durationFromNanos_ok (Nat.lt_of_le_of_lt hle maximum.fits), rfl⟩

end

theorem fullJitter_ok {policy : BackoffPolicy} (hcap : policy.delayCap streak = .ok cap)
    (hfits : cap.nanos * sample.toNat < 340282366920938463463374607431768211456) :
    ∃ delay, policy.fullJitter streak sample = .ok delay ∧
      delay.nanos = cap.nanos * sample.toNat / 18446744073709551615 := by
  have hsample := sample.toNat_lt
  have hle : cap.nanos * sample.toNat / 18446744073709551615 ≤ cap.nanos :=
    Nat.div_le_of_le_mul (by rw [Nat.mul_comm]; gcongr; omega)
  rw [fullJitter, hcap]
  refine ⟨⟨_, Nat.lt_of_le_of_lt hle cap.fits⟩, ?_, rfl⟩
  simp only [bind, Except.bind, checkedMul_ok hfits]
  exact durationFromNanos_ok _

theorem fullJitter_overflow {policy : BackoffPolicy} (hcap : policy.delayCap streak = .ok cap)
    (hfits : 340282366920938463463374607431768211456 ≤ cap.nanos * sample.toNat) :
    policy.fullJitter streak sample = .error .backoffError := by
  rw [fullJitter, hcap]
  simp only [bind, Except.bind]
  rw [checkedMul, if_neg (not_lt.mpr hfits)]

-- ---------------------------------------------------------------------------
-- Policies that grow
-- ---------------------------------------------------------------------------

/-- The caps of all streaks lie between the two delays, never fall and come to
the maximum; the jitter of every sample lies under its cap and never falls. -/
structure Grows (policy : BackoffPolicy) (initial maximum : Duration) : Prop where
  cap : ∀ streak, 1 ≤ streak → ∃ cap, policy.delayCap streak = .ok cap ∧ initial ≤ cap ∧ cap ≤ maximum
  cap_mono : ∀ streak streak' cap cap', streak ≤ streak' → policy.delayCap streak = .ok cap →
    policy.delayCap streak' = .ok cap' → cap ≤ cap'
  reaches : ∃ bound, ∀ streak, bound ≤ streak → policy.delayCap streak = .ok maximum
  jitter : ∀ streak sample cap, policy.delayCap streak = .ok cap →
    ∃ delay, policy.fullJitter streak sample = .ok delay ∧ Duration.zero ≤ delay ∧ delay ≤ cap
  jitter_mono : ∀ streak sample sample' delay delay', sample ≤ sample' →
    policy.fullJitter streak sample = .ok delay → policy.fullJitter streak sample' = .ok delay' →
      delay ≤ delay'

/-- A cap above this many nanoseconds times the largest sample is no 128 bit
number. -/
def largestJitteredCap : Nat := 18446744073709551617

/-- The growth survives its own rounding, and the jitter its product. -/
def Progresses (initial maximum : Duration) : Prop :=
  (4 ≤ initial.nanos ∨ initial = maximum) ∧ maximum.nanos ≤ largestJitteredCap

theorem durationFromNanos_nanos (h : durationFromNanos nanos = .ok delay) : delay.nanos = nanos := by
  unfold durationFromNanos at h
  split at h <;> cases h
  rfl

theorem fullJitter_nanos (h : fullJitter policy streak sample = .ok delay) :
    ∃ cap, policy.delayCap streak = .ok cap ∧
      delay.nanos = cap.nanos * sample.toNat / 18446744073709551615 := by
  obtain ⟨cap, hcap, h⟩ := Lists.bind_eq_ok.mp h
  refine ⟨cap, hcap, ?_⟩
  unfold checkedMul at h
  split at h
  · cases h
  · rename_i hproduct
    split at hproduct <;> cases hproduct
    exact durationFromNanos_nanos h

theorem fullJitter_mono (hsample : sample ≤ sample') (h : fullJitter policy streak sample = .ok delay)
    (h' : policy.fullJitter streak sample' = .ok delay') : delay ≤ delay' := by
  obtain ⟨cap, hcap, hnanos⟩ := fullJitter_nanos h
  obtain ⟨cap', hcap', hnanos'⟩ := fullJitter_nanos h'
  cases hcap.symm.trans hcap'
  rw [Duration.le_iff, hnanos, hnanos']
  rw [UInt64.le_iff_toNat_le] at hsample
  exact Nat.div_le_div_right (Nat.mul_le_mul_left _ hsample)

theorem delayCap_pos (h : delayCap policy streak = .ok cap) : 1 ≤ streak := by
  by_cases hzero : streak = 0
  · rw [delayCap, if_pos hzero] at h
    cases h
  · rw [UInt32.le_iff_toNat_le]
    have : streak.toNat ≠ 0 := fun h => hzero (UInt32.toNat_inj.mp h)
    exact Nat.one_le_iff_ne_zero.mpr this

section

variable {policy : BackoffPolicy} (hread : readRows initial maximum = .ok policy)

include hread

theorem delayCap_nanos (hcap : policy.delayCap streak = .ok cap) :
    cap.nanos = (grown maximum.nanos)^[streak.toNat - 1] initial.nanos := by
  obtain ⟨cap', hcap', hnanos⟩ := delayCap_ok hread (delayCap_pos hcap)
  cases hcap.symm.trans hcap'
  exact hnanos

theorem delayCap_between (hcap : policy.delayCap streak = .ok cap) :
    initial ≤ cap ∧ cap ≤ maximum := by
  have hle := (readRows_ok hread).2.1
  rw [Duration.le_iff, Duration.le_iff, delayCap_nanos hread hcap]
  exact ⟨iterate_grown_mono hle (Nat.zero_le _), iterate_grown_le hle _⟩

theorem delayCap_mono (hstreak : streak ≤ streak') (hcap : policy.delayCap streak = .ok cap)
    (hcap' : policy.delayCap streak' = .ok cap') : cap ≤ cap' := by
  rw [Duration.le_iff, delayCap_nanos hread hcap, delayCap_nanos hread hcap']
  rw [UInt32.le_iff_toNat_le] at hstreak
  exact iterate_grown_mono (readRows_ok hread).2.1 (Nat.sub_le_sub_right hstreak 1)

theorem delayCap_reaches (hfour : 4 ≤ initial.nanos ∨ initial = maximum) (hstreak : 753 ≤ streak) :
    policy.delayCap streak = .ok maximum := by
  rw [UInt32.le_iff_toNat_le] at hstreak
  have hsteps : 752 ≤ streak.toNat - 1 := Nat.sub_le_sub_right hstreak 1
  have hpos : 1 ≤ streak := UInt32.le_iff_toNat_le.mpr (Nat.le_trans (by decide) hstreak)
  obtain ⟨cap, hcap, hnanos⟩ := delayCap_ok hread hpos
  have hle := (readRows_ok hread).2.1
  have hmaximum : cap.nanos = maximum.nanos := by
    rw [hnanos]
    cases hfour with
    | inl hfour => exact iterate_grown_reaches hfour hle maximum.fits hsteps
    | inr hsame =>
      subst hsame
      exact Nat.le_antisymm (iterate_grown_le hle _) (iterate_grown_mono hle (Nat.zero_le _))
  rw [hcap, Duration.nanos_inj hmaximum]

theorem delayCap_small (hsmall : initial.nanos < 4) (hstreak : 1 ≤ streak) :
    policy.delayCap streak = .ok initial := by
  obtain ⟨cap, hcap, hnanos⟩ := delayCap_ok hread hstreak
  rw [iterate_grown_small hsmall (readRows_ok hread).2.1] at hnanos
  rw [hcap, Duration.nanos_inj hnanos]

theorem fullJitter_between (hmaximum : maximum.nanos ≤ largestJitteredCap)
    (hcap : policy.delayCap streak = .ok cap) (sample : UInt64) :
    ∃ delay, policy.fullJitter streak sample = .ok delay ∧
      delay.nanos = cap.nanos * sample.toNat / 18446744073709551615 ∧ delay ≤ cap := by
  have hle := Duration.le_iff.mp (delayCap_between hread hcap).2
  have hsample : sample.toNat ≤ 18446744073709551615 := Nat.le_of_lt_succ sample.toNat_lt
  have hfits : cap.nanos * sample.toNat ≤ 18446744073709551617 * 18446744073709551615 :=
    Nat.mul_le_mul (hle.trans hmaximum) hsample
  obtain ⟨delay, hdelay, hnanos⟩ := fullJitter_ok hcap (Nat.lt_of_le_of_lt hfits (by decide))
  refine ⟨delay, hdelay, hnanos, ?_⟩
  rw [Duration.le_iff, hnanos, Nat.mul_comm]
  exact Nat.div_le_of_le_mul (Nat.mul_le_mul_right _ hsample)

theorem grows_of_progresses (h : Progresses initial maximum) : policy.Grows initial maximum where
  cap streak hstreak := by
    obtain ⟨cap, hcap, -⟩ := delayCap_ok hread hstreak
    exact ⟨cap, hcap, delayCap_between hread hcap⟩
  cap_mono _ _ _ _ := delayCap_mono hread
  reaches := ⟨753, fun _ => delayCap_reaches hread h.1⟩
  jitter streak sample cap hcap := by
    obtain ⟨delay, hdelay, -, hle⟩ := fullJitter_between hread h.2 hcap sample
    exact ⟨delay, hdelay, Nat.zero_le _, hle⟩
  jitter_mono _ _ _ _ _ := fullJitter_mono

theorem Grows.moves (h : policy.Grows initial maximum) : 4 ≤ initial.nanos ∨ initial = maximum := by
  by_contra hstuck
  simp only [not_or, not_le] at hstuck
  obtain ⟨bound, hreaches⟩ := h.reaches
  have hlast : bound ≤ 4294967295 := UInt32.le_iff_toNat_le.mpr (Nat.le_of_lt_succ bound.toNat_lt)
  have hmaximum := hreaches 4294967295 hlast
  rw [delayCap_small hread hstuck.1 (by decide)] at hmaximum
  exact hstuck.2 (Except.ok.inj hmaximum)

omit hread in
theorem Grows.fits (h : policy.Grows initial maximum) : maximum.nanos ≤ largestJitteredCap := by
  by_contra hwide
  rw [largestJitteredCap] at hwide
  obtain ⟨bound, hreaches⟩ := h.reaches
  have hcap := hreaches bound (UInt32.le_refl bound)
  obtain ⟨delay, hdelay, -⟩ := h.jitter bound 18446744073709551615 maximum hcap
  have hproduct : (18446744073709551618 : Nat) * 18446744073709551615 ≤
      maximum.nanos * (18446744073709551615 : UInt64).toNat :=
    Nat.mul_le_mul (by omega) (by decide)
  rw [fullJitter_overflow hcap (le_trans (by decide) hproduct)] at hdelay
  cases hdelay

/-- A read policy's caps grow to the maximum, and its jitter follows them,
exactly from four nanoseconds on and up to the widest cap whose product with a
sample is a 128 bit number. -/
theorem grows_iff : policy.Grows initial maximum ↔ Progresses initial maximum :=
  ⟨fun h => ⟨h.moves hread, h.fits⟩, grows_of_progresses hread⟩

end

theorem grows_iff_default : ∃ policy, readRows (millis 100) (secs 60) = .ok policy ∧
    policy.Grows (millis 100) (secs 60) :=
  ⟨_, rfl, (grows_iff rfl).mpr ⟨.inl (by decide), by decide⟩⟩

/-- A cap of one nanosecond is never raised. -/
theorem nanosecond_cap_stuck : ∃ initial policy, initial.nanos = 1 ∧
    readRows initial (secs 60) = .ok policy ∧
    (∀ streak, 1 ≤ streak → policy.delayCap streak = .ok initial) ∧
    ¬ policy.Grows initial (secs 60) := by
  have hread : ∃ policy, readRows ⟨1, by decide⟩ (secs 60) = .ok policy := ⟨_, rfl⟩
  obtain ⟨policy, hread⟩ := hread
  refine ⟨⟨1, by decide⟩, policy, rfl, hread, fun _ => delayCap_small hread (by decide), fun h => ?_⟩
  exact absurd (h.moves hread) (by decide)

end SilkChiffon.BigQuery.BackoffPolicy
