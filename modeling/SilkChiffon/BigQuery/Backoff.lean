import SilkChiffon.Lib.Duration

/-!
# Backoff

The delay before a retry is a random part of a cap that grows with the failure
streak, by `multiplierNumerator / multiplierDenominator` at a time, up to the
maximum. Nanoseconds are 128 bit numbers here, so the product is checked.
-/

namespace SilkChiffon.BigQuery

def secs (n : UInt64) : Duration :=
  ⟨n.toNat * 1000000000, Nat.mul_lt_mul_of_pos_right n.toNat_lt (by decide)⟩

def millis (n : UInt64) : Duration :=
  ⟨n.toNat * 1000000, Nat.mul_lt_mul_of_lt_of_le n.toNat_lt (by decide) (by decide)⟩

def sustainedAcceptedProgress : Duration := secs 60

structure BackoffPolicy where
  initialDelay : Duration
  multiplierNumerator : Nat
  multiplierDenominator : Nat
  maximumDelay : Duration
  sustainedAcceptedProgress : Duration
  deriving DecidableEq

inductive BackoffError
  | backoffError
  deriving DecidableEq

def checkedMul (a b : Nat) : Option Nat :=
  if a * b < 340282366920938463463374607431768211456 then some (a * b) else none

def durationFromNanos (nanos : Nat) : Except BackoffError Duration :=
  if h : nanos / 1000000000 < 18446744073709551616 then
    .ok ⟨nanos, (Nat.div_lt_iff_lt_mul (by decide)).mp h⟩
  else .error .backoffError

namespace BackoffPolicy

def new (initialDelay : Duration) (multiplierNumerator multiplierDenominator : Nat)
    (maximumDelay : Duration) : Except BackoffError BackoffPolicy :=
  if initialDelay.isZero ∨ multiplierDenominator = 0 ∨
      multiplierNumerator < multiplierDenominator ∨ maximumDelay < initialDelay then
    .error .backoffError
  else
    .ok {
      initialDelay, multiplierNumerator, multiplierDenominator, maximumDelay
      sustainedAcceptedProgress := BigQuery.sustainedAcceptedProgress }

def createReadSession : BackoffPolicy where
  initialDelay := millis 100
  multiplierNumerator := 13
  multiplierDenominator := 10
  maximumDelay := secs 60
  sustainedAcceptedProgress := BigQuery.sustainedAcceptedProgress

def readRows (initialDelay maximumDelay : Duration) : Except BackoffError BackoffPolicy :=
  new initialDelay 13 10 maximumDelay

/-- The `while` of `delay_cap`: `remaining` growths are left. -/
def growCap (policy : BackoffPolicy) (maximum : Nat) : Nat → Nat → Except BackoffError Nat
  | 0, nanos => .ok nanos
  | remaining + 1, nanos =>
    if nanos < maximum then
      match checkedMul nanos policy.multiplierNumerator with
      | none => .error .backoffError
      | some product =>
        policy.growCap maximum remaining (min (product / policy.multiplierDenominator) maximum)
    else .ok nanos

def delayCap (policy : BackoffPolicy) (failureStreak : UInt32) : Except BackoffError Duration :=
  if failureStreak = 0 then .error .backoffError
  else do
    let nanos ← policy.growCap policy.maximumDelay.nanos (failureStreak.toNat - 1)
      policy.initialDelay.nanos
    durationFromNanos nanos

def fullJitter (policy : BackoffPolicy) (failureStreak : UInt32) (sample : UInt64) :
    Except BackoffError Duration := do
  let cap ← policy.delayCap failureStreak
  match checkedMul cap.nanos sample.toNat with
  | none => .error .backoffError
  | some product => durationFromNanos (product / 18446744073709551615)

def failureStreakAfterProgress (policy : BackoffPolicy) (failureStreak : UInt32)
    (acceptedRows : UInt64) (acceptedProgress : Duration) : UInt32 :=
  if 0 < acceptedRows ∧ policy.sustainedAcceptedProgress ≤ acceptedProgress then 0
  else failureStreak

end BackoffPolicy

end SilkChiffon.BigQuery
