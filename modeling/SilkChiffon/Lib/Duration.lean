import Mathlib.Algebra.GroupWithZero.Nat
import Mathlib.Order.Basic
import Mathlib.Order.Lattice
import Mathlib.Tactic.Common

/-!
# Durations

A span of time in nanoseconds, as wide as a 64 bit count of seconds allows.
The checked operations are partial at the ends of that range.
-/

namespace SilkChiffon

def Duration.limit : Nat := 18446744073709551616 * 1000000000

structure Duration where
  nanos : Nat
  fits : nanos < Duration.limit
  deriving DecidableEq

namespace Duration

theorem nanos_inj : Function.Injective nanos := by
  rintro ⟨a, ha⟩ ⟨b, hb⟩ rfl
  rfl

instance : LinearOrder Duration := LinearOrder.lift' nanos nanos_inj

theorem le_iff {a b : Duration} : a ≤ b ↔ a.nanos ≤ b.nanos := Iff.rfl

theorem lt_iff {a b : Duration} : a < b ↔ a.nanos < b.nanos := Iff.rfl

def zero : Duration := ⟨0, by decide⟩

def isZero (d : Duration) : Bool := d.nanos = 0

def checkedAdd (a b : Duration) : Option Duration :=
  if h : a.nanos + b.nanos < limit then some ⟨a.nanos + b.nanos, h⟩ else none

def checkedSub (a b : Duration) : Option Duration :=
  if b ≤ a then some ⟨a.nanos - b.nanos, Nat.lt_of_le_of_lt (Nat.sub_le ..) a.fits⟩ else none

/-- The longest duration where the sum does not fit. -/
def saturatingAdd (a b : Duration) : Duration :=
  if h : a.nanos + b.nanos < limit then ⟨a.nanos + b.nanos, h⟩ else ⟨limit - 1, by decide⟩

theorem nanos_saturatingAdd (a b : Duration) : (saturatingAdd a b).nanos = min (a.nanos + b.nanos) (limit - 1) := by
  unfold saturatingAdd
  split
  · rename_i h
    show a.nanos + b.nanos = _
    omega
  · rename_i h
    show limit - 1 = _
    omega

theorem checkedAdd_some (h : checkedAdd a b = some c) : c.nanos = a.nanos + b.nanos := by
  unfold checkedAdd at h
  split at h
  · obtain rfl := Option.some.inj h
    rfl
  · cases h

theorem checkedSub_some (h : checkedSub a b = some c) : a.nanos = b.nanos + c.nanos := by
  unfold checkedSub at h
  split at h
  · rename_i hle
    obtain rfl := Option.some.inj h
    exact (Nat.add_sub_cancel' (le_iff.mp hle)).symm
  · cases h

theorem checkedSub_none (h : checkedSub a b = none) : a < b := by
  unfold checkedSub at h
  split at h
  · cases h
  · exact not_le.mp ‹_›

end Duration

end SilkChiffon
