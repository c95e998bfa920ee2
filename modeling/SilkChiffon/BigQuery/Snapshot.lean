import SilkChiffon.Lib.Duration
import SilkChiffon.Lib.Lists
import SilkChiffon.Lib.Text

/-!
# Pinned snapshots

A read is pinned to a time that the server has certainly reached: the `Date` of
a response, less the uncertainty of such a header and the time the request
took. Seconds and nanoseconds are combined into one 128 bit number for that.
-/

namespace SilkChiffon.BigQuery

inductive TimestampError
  | timestampError
  deriving DecidableEq

/-- A normalized time in the range of a protobuf timestamp. -/
structure PinnedSnapshot where
  seconds : Int
  nanos : Int
  seconds_mem : -62135596800 ≤ seconds ∧ seconds ≤ 253402300799
  nanos_mem : 0 ≤ nanos ∧ nanos < 1000000000
  deriving DecidableEq

/-- `checked_mul`, `checked_add`, `checked_sub` and conversions on 128 bits. -/
def i128 (value : Int) : Option Int :=
  if -170141183460469231731687303715884105728 ≤ value ∧ value < 170141183460469231731687303715884105728 then
    some value
  else none

def i64TryFrom (value : Int) : Option Int :=
  if -9223372036854775808 ≤ value ∧ value < 9223372036854775808 then some value else none

def i32TryFrom (value : Int) : Option Int :=
  if -2147483648 ≤ value ∧ value < 2147483648 then some value else none

namespace PinnedSnapshot

def new (seconds nanos : Int) : Except TimestampError PinnedSnapshot :=
  if h : (-62135596800 ≤ seconds ∧ seconds ≤ 253402300799) ∧ 0 ≤ nanos ∧ nanos < 1000000000 then
    .ok ⟨seconds, nanos, h.1, h.2⟩
  else .error .timestampError

def total (snapshot : PinnedSnapshot) : Int := snapshot.seconds * 1000000000 + snapshot.nanos

def totalNanos (snapshot : PinnedSnapshot) (duration : Duration) : Option Int := do
  let value ← i128 (snapshot.seconds * 1000000000)
  let value ← i128 (value + snapshot.nanos)
  let duration ← i128 duration.nanos
  i128 (value - duration)

/-- `/` and `%` are the euclidean ones. -/
def checkedSub (snapshot : PinnedSnapshot) (duration : Duration) : Except TimestampError PinnedSnapshot :=
  match snapshot.totalNanos duration with
  | none => .error .timestampError
  | some totalNanos =>
    match i64TryFrom (totalNanos / 1000000000), i32TryFrom (totalNanos % 1000000000) with
    | some seconds, some nanos => new seconds nanos
    | _, _ => .error .timestampError

end PinnedSnapshot

inductive ServerClockErrorKind
  | untrustedEndpoint
  | transport
  | missingDate
  | invalidDate
  | nonMonotonicClock
  deriving DecidableEq

def httpDateUncertainty : Duration := ⟨1000000000, by decide⟩

/-- `HeaderValue::to_str`: visible characters, blanks and tabs. -/
def headerToStr (value : List UInt8) : Option String :=
  if value.all fun b => (32 ≤ b && b < 127) || b = 9 then some (String.ofList (value.map Text.asciiChar)) else none

/-- `parse` reads an HTTP date: the seconds since the epoch and what is behind
them, which is a second and more on a leap second. -/
def serverDate (parse : String → Option (Int × Nat)) (dates : List (List UInt8)) :
    Except ServerClockErrorKind PinnedSnapshot :=
  match dates with
  | [] => .error .missingDate
  | [date] =>
    match (headerToStr date).bind parse with
    | none => .error .invalidDate
    | some (timestamp, subsecNanos) =>
      match i32TryFrom subsecNanos with
      | none => .error .invalidDate
      | some nanos => (PinnedSnapshot.new timestamp nanos).mapError fun _ => .invalidDate
  | _ => .error .invalidDate

/-- `dates` are the values of the `Date` header. -/
def snapshotFromHeaders (parse : String → Option (Int × Nat)) (dates : List (List UInt8))
    (started received : Duration) : Except ServerClockErrorKind PinnedSnapshot :=
  match received.checkedSub started with
  | none => .error .nonMonotonicClock
  | some uncertainty => do
    let server ← serverDate parse dates
    (server.checkedSub (httpDateUncertainty.saturatingAdd uncertainty)).mapError fun _ => .invalidDate

-- ---------------------------------------------------------------------------
-- The arithmetic
-- ---------------------------------------------------------------------------

namespace PinnedSnapshot

theorem new_ok {seconds nanos : Int} :
    new seconds nanos = .ok snapshot ↔ snapshot.seconds = seconds ∧ snapshot.nanos = nanos := by
  obtain ⟨seconds', nanos', hseconds, hnanos⟩ := snapshot
  unfold new
  split
  · simp [eq_comm]
  · rename_i hout
    constructor
    · rintro ⟨⟩
    · rintro ⟨rfl, rfl⟩
      exact absurd ⟨hseconds, hnanos⟩ hout

theorem i128_eq (hlow : -100000000000000000000000000000 ≤ value) (hhigh : value ≤ 100000000000000000000000000000) :
    i128 value = some value :=
  if_pos ⟨by omega, by omega⟩

/-- No step of the subtraction leaves 128 bits. -/
theorem totalNanos_eq (snapshot : PinnedSnapshot) (duration : Duration) :
    snapshot.totalNanos duration = some (snapshot.total - duration.nanos) := by
  have hseconds := snapshot.seconds_mem
  have hnanos := snapshot.nanos_mem
  have hfits : duration.nanos < 18446744073709551616 * 1000000000 := duration.fits
  have hproduct : i128 (snapshot.seconds * 1000000000) = some (snapshot.seconds * 1000000000) :=
    i128_eq (by omega) (by omega)
  have hsum : i128 (snapshot.seconds * 1000000000 + snapshot.nanos) = some snapshot.total :=
    i128_eq (by omega) (by omega)
  have hduration : i128 duration.nanos = some (duration.nanos : Int) := i128_eq (by omega) (by omega)
  have hdifference : i128 (snapshot.total - duration.nanos) = some (snapshot.total - duration.nanos) := by
    unfold total
    exact i128_eq (by omega) (by omega)
  simp only [totalNanos, Option.bind_eq_bind, hproduct, Option.bind_some, hsum, hduration, hdifference]

theorem total_inj {snapshot snapshot' : PinnedSnapshot} (h : snapshot.total = snapshot'.total) :
    snapshot = snapshot' := by
  obtain ⟨seconds, nanos, _, hnanos⟩ := snapshot
  obtain ⟨seconds', nanos', _, hnanos'⟩ := snapshot'
  unfold total at h
  dsimp only at h hnanos hnanos'
  obtain rfl : seconds = seconds' := by omega
  obtain rfl : nanos = nanos' := by omega
  rfl

/-- Euclidean division normalizes: its parts are a timestamp exactly when there
is one with these nanoseconds. -/
theorem new_div_mod (difference : Int) :
    new (difference / 1000000000) (difference % 1000000000) = .ok pinned ↔ pinned.total = difference := by
  have hnanos := pinned.nanos_mem
  rw [new_ok]
  unfold total
  omega

theorem checkedSub_ok {snapshot : PinnedSnapshot} :
    snapshot.checkedSub duration = .ok pinned ↔ pinned.total = snapshot.total - duration.nanos := by
  rw [← new_div_mod]
  unfold checkedSub
  rw [totalNanos_eq]
  generalize snapshot.total - duration.nanos = difference
  have hnanos : i32TryFrom (difference % 1000000000) = some (difference % 1000000000) := if_pos (by omega)
  dsimp only
  rw [hnanos]
  by_cases hseconds : -9223372036854775808 ≤ difference / 1000000000 ∧
      difference / 1000000000 < 9223372036854775808
  · rw [i64TryFrom, if_pos hseconds]
  · rw [i64TryFrom, if_neg hseconds]
    constructor
    · rintro ⟨⟩
    · intro h
      have hmem := pinned.seconds_mem
      rw [(new_ok.mp h).1] at hmem
      omega

end PinnedSnapshot

-- ---------------------------------------------------------------------------
-- The pinned time
-- ---------------------------------------------------------------------------

/-- The server's time in nanoseconds at each reading of the monotonic clock,
which it does not outrun. -/
structure ServerClock where
  time : Nat → Int
  steady : a ≤ b → time b ≤ time a + (b - a)

theorem snapshotFromHeaders_ok :
    snapshotFromHeaders parse dates started received = .ok pinned ↔
      started ≤ received ∧ ∃ server, serverDate parse dates = .ok server ∧
        pinned.total = server.total - httpDateUncertainty.nanos - (received.nanos - started.nanos) := by
  unfold snapshotFromHeaders
  cases huncertainty : received.checkedSub started with
  | none =>
    have hlt := Duration.checkedSub_none huncertainty
    simp [not_le.mpr hlt]
  | some uncertainty =>
    have hspent := Duration.checkedSub_some huncertainty
    have hle : started ≤ received := Duration.le_iff.mpr (by omega)
    have hrange : ∀ server : PinnedSnapshot, server.total ≤ 253402300799 * 1000000000 + 999999999 := by
      intro server
      have hseconds := server.seconds_mem
      have hnanos := server.nanos_mem
      unfold PinnedSnapshot.total
      omega
    have hlow : -62135596800 * 1000000000 ≤ pinned.total := by
      have hseconds := pinned.seconds_mem
      have hnanos := pinned.nanos_mem
      unfold PinnedSnapshot.total
      omega
    simp only [Lists.bind_eq_ok, Lists.mapError_eq_ok, PinnedSnapshot.checkedSub_ok, Duration.nanos_saturatingAdd,
      hle, true_and]
    -- a saturated sum is longer than the range of a timestamp
    have hexact : ∀ server : PinnedSnapshot,
        pinned.total = server.total - (min (httpDateUncertainty.nanos + uncertainty.nanos) (Duration.limit - 1) : Nat) ↔
          pinned.total = server.total - httpDateUncertainty.nanos - (received.nanos - started.nanos) := by
      intro server
      have hserver := hrange server
      unfold httpDateUncertainty Duration.limit
      dsimp only
      omega
    simp only [hexact]

/-- A snapshot is pinned exactly the uncertainty and the duration of the request
before the server's `Date`, or not at all; and where that header is as certain
as it claims, the server had reached the snapshot when the request started. -/
theorem snapshotFromHeaders_exact (parse : String → Option (Int × Nat)) (dates : List (List UInt8))
    (started received : Duration) (pinned : PinnedSnapshot) :
    (snapshotFromHeaders parse dates started received = .ok pinned ↔
      started ≤ received ∧ ∃ server, serverDate parse dates = .ok server ∧
        pinned.total = server.total - httpDateUncertainty.nanos - (received.nanos - started.nanos)) ∧
    ∀ (clock : ServerClock) (server : PinnedSnapshot) (moment : Nat),
      snapshotFromHeaders parse dates started received = .ok pinned → serverDate parse dates = .ok server →
      started.nanos ≤ moment → moment ≤ received.nanos →
      (server.total - clock.time moment).natAbs ≤ httpDateUncertainty.nanos → pinned.total ≤ clock.time started.nanos := by
  refine ⟨snapshotFromHeaders_ok, fun clock server moment hpinned hserver hsent hreceived hcertain => ?_⟩
  obtain ⟨hle, server', hserver', htotal⟩ := snapshotFromHeaders_ok.mp hpinned
  obtain rfl := Except.ok.inj (hserver.symm.trans hserver')
  have hsteady := clock.steady hsent
  omega

def aheadClock : ServerClock where
  time reading := 95100000000 + reading
  steady _ := by omega

def readsDate (text : String) : Option (Int × Nat) :=
  if text = "Thu, 01 Jan 1970 00:01:40 GMT" then some (100, 0) else none

def date : List UInt8 := "Thu, 01 Jan 1970 00:01:40 GMT".toUTF8.data.toList

/-- A request from 5 s to 5.25 s, answered with the date of 100 s at 5.1 s. -/
theorem snapshotFromHeaders_exact_ahead :
    ∃ pinned, snapshotFromHeaders readsDate [date] ⟨5000000000, by decide⟩ ⟨5250000000, by decide⟩ = .ok pinned ∧
      pinned.total = 98750000000 ∧ pinned.total ≤ aheadClock.time 5000000000 := by
  have hdate : headerToStr date = some "Thu, 01 Jan 1970 00:01:40 GMT" := by decide
  have hserver : serverDate readsDate [date] = .ok ⟨100, 0, by decide, by decide⟩ := by
    simp only [serverDate, hdate]
    rfl
  obtain ⟨hexact, hreached⟩ := snapshotFromHeaders_exact readsDate [date] ⟨5000000000, by decide⟩
    ⟨5250000000, by decide⟩ ⟨98, 750000000, by decide, by decide⟩
  have hpinned := hexact.mpr ⟨by decide, _, hserver, by decide⟩
  have hle := hreached aheadClock _ 5100000000 hpinned hserver (by decide) (by decide) (by decide)
  exact ⟨_, hpinned, rfl, hle⟩

end SilkChiffon.BigQuery
