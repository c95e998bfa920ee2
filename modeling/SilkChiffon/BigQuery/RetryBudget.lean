import SilkChiffon.Lib.Duration
import SilkChiffon.Lib.Lists
import SilkChiffon.BigQuery.Backoff

/-!
# Retry budgets

A budget bounds the attempts at one operation: by their number, by the end of
its retry window, and by the session's expiration less a safety margin. A
retry is planned so that its whole attempt fits in front of the deadline.
-/

namespace SilkChiffon.BigQuery

inductive RetryScope
  | createReadSession | readRows
  deriving DecidableEq

def createReadSessionRetryWindow : Duration := secs 600

def sessionExpirySafetyMargin : Duration := secs 60

inductive RetryDelay
  | backoff (delay : Duration)
  | serverMinimum (delay : Duration)
  deriving DecidableEq

structure RetryPlan where
  scope : RetryScope
  attempt : UInt32
  delay : Duration
  attemptTimeout : Duration
  attemptDeadline : Duration
  deriving DecidableEq

structure RetryBudget where
  scope : RetryScope
  started : Duration
  retryDeadline : Duration
  maxAttempts : UInt32
  attemptTimeout : Duration
  sessionDeadline : Option Duration
  deriving DecidableEq

inductive RetryBudgetErrorKind
  | invalidDeadline
  | arithmeticOverflow
  | nonMonotonicClock
  | attemptCounterOverflow
  | attemptsExhausted
  | deadlineExhausted
  | serverDelayExceedsDeadline
  deriving DecidableEq

def checkedSucc (n : UInt32) : Option UInt32 := if n = 4294967295 then none else some (n + 1)

def orKind (kind : RetryBudgetErrorKind) : Option α → Except RetryBudgetErrorKind α
  | some a => .ok a
  | none => .error kind

namespace RetryBudget

def effectiveDeadline (budget : RetryBudget) : Duration :=
  match budget.sessionDeadline with
  | none => budget.retryDeadline
  | some session => min budget.retryDeadline session

def isSessionLimited (budget : RetryBudget) : Bool :=
  match budget.sessionDeadline with
  | none => false
  | some session => session ≤ budget.retryDeadline

def new (scope : RetryScope) (started retryWindow : Duration) (maxAttempts : UInt32)
    (attemptTimeout : Duration) (sessionExpiration : Option Duration)
    (sessionSafetyMargin : Duration) : Except RetryBudgetErrorKind RetryBudget := do
  if retryWindow.isZero ∨ maxAttempts = 0 ∨ attemptTimeout.isZero then
    throw .invalidDeadline
  let retryDeadline ← orKind .arithmeticOverflow (started.checkedAdd retryWindow)
  let sessionDeadline ← match sessionExpiration with
    | none => pure none
    | some deadline => do
      let session ← orKind .invalidDeadline (deadline.checkedSub sessionSafetyMargin)
      pure (some session)
  let budget : RetryBudget :=
    { scope, started, retryDeadline, maxAttempts, attemptTimeout, sessionDeadline }
  if budget.effectiveDeadline < started then
    throw .invalidDeadline
  pure budget

def createReadSession (started attemptTimeout : Duration) :
    Except RetryBudgetErrorKind RetryBudget :=
  new .createReadSession started createReadSessionRetryWindow 4294967295 attemptTimeout none .zero

def readRows (started retryWindow : Duration) (maxAttempts : UInt32) (attemptTimeout : Duration)
    (sessionExpiration : Option Duration) : Except RetryBudgetErrorKind RetryBudget :=
  new .readRows started retryWindow maxAttempts attemptTimeout sessionExpiration
    sessionExpirySafetyMargin

/-- The delay the plan waits, when `available` is left before the last start. -/
def fitDelay (available : Duration) : RetryDelay → Except RetryBudgetErrorKind Duration
  | .backoff delay => .ok (min delay available)
  | .serverMinimum delay =>
    if delay ≤ available then .ok delay else .error .serverDelayExceedsDeadline

def planRetry (budget : RetryBudget) (previousObservation now : Duration)
    (completedAttempts : UInt32) (proposedDelay : RetryDelay) :
    Except RetryBudgetErrorKind RetryPlan := do
  if previousObservation < budget.started ∨ now < previousObservation then
    throw .nonMonotonicClock
  let attempt ← orKind .attemptCounterOverflow (checkedSucc completedAttempts)
  if budget.maxAttempts < attempt then
    throw .attemptsExhausted
  let deadline := budget.effectiveDeadline
  let latestStart ← orKind .deadlineExhausted (deadline.checkedSub budget.attemptTimeout)
  let available ← orKind .deadlineExhausted (latestStart.checkedSub now)
  let delay ← fitDelay available proposedDelay
  let attemptStart ← orKind .arithmeticOverflow (now.checkedAdd delay)
  let attemptDeadline ← orKind .arithmeticOverflow (attemptStart.checkedAdd budget.attemptTimeout)
  if deadline < attemptDeadline then
    throw .deadlineExhausted
  pure { scope := budget.scope, attempt, delay, attemptTimeout := budget.attemptTimeout,
         attemptDeadline }

-- ---------------------------------------------------------------------------
-- What the constructor and the planner accept
-- ---------------------------------------------------------------------------

theorem orKind_ok {kind : RetryBudgetErrorKind} {found : Option α}
    (h : orKind kind found = .ok a) : found = some a := by
  cases found with
  | none => cases h
  | some b => exact congrArg some (Except.ok.inj h)

theorem checkedSucc_some (h : checkedSucc n = some m) : m.toNat = n.toNat + 1 := by
  unfold checkedSucc at h
  split at h
  · cases h
  · rename_i hne
    obtain rfl := Option.some.inj h
    have hlt : n.toNat ≠ 4294967295 := fun heq => hne (UInt32.toNat.inj heq)
    have hfits := n.toNat_lt
    rw [UInt32.toNat_add]
    exact Nat.mod_eq_of_lt (by simp; omega)

/-- When a budget runs out: at the end of its window, or `margin` before the
session expires. -/
def endsAt (started retryWindow margin : Duration) : Option Duration → Nat
  | none => started.nanos + retryWindow.nanos
  | some expiration => min (started.nanos + retryWindow.nanos) (expiration.nanos - margin.nanos)

theorem new_ok {scope : RetryScope} {started : Duration} {maxAttempts : UInt32}
    {attemptTimeout : Duration} {budget : RetryBudget}
    (h : new scope started retryWindow maxAttempts attemptTimeout sessionExpiration margin =
      .ok budget) :
    budget.retryDeadline.nanos = started.nanos + retryWindow.nanos ∧
      budget.sessionDeadline.map (·.nanos) = sessionExpiration.map (·.nanos - margin.nanos) := by
  unfold new at h
  obtain ⟨_, h⟩ := Lists.ite_throw_ok.mp h
  obtain ⟨retryDeadline, hretry, h⟩ := Lists.bind_eq_ok.mp h
  have hretry := Duration.checkedAdd_some (orKind_ok hretry)
  cases sessionExpiration with
  | none =>
    obtain ⟨_, hnone, h⟩ := Lists.bind_eq_ok.mp h
    obtain rfl := Except.ok.inj hnone
    obtain ⟨_, h⟩ := Lists.ite_throw_ok.mp h
    obtain rfl := Except.ok.inj h
    exact ⟨hretry, rfl⟩
  | some expiration =>
    obtain ⟨session, hsession, h⟩ := Lists.bind_eq_ok.mp h
    have hsession := Duration.checkedSub_some (orKind_ok hsession)
    obtain ⟨_, hsome, h⟩ := Lists.bind_eq_ok.mp h
    obtain rfl := Except.ok.inj hsome
    obtain ⟨_, h⟩ := Lists.ite_throw_ok.mp h
    obtain rfl := Except.ok.inj h
    refine ⟨hretry, ?_⟩
    show some session.nanos = some (expiration.nanos - margin.nanos)
    rw [hsession, Nat.add_sub_cancel_left]

theorem effectiveDeadline_nanos {scope : RetryScope} {started : Duration} {maxAttempts : UInt32}
    {attemptTimeout : Duration} {budget : RetryBudget}
    (h : new scope started retryWindow maxAttempts attemptTimeout sessionExpiration margin =
      .ok budget) :
    budget.effectiveDeadline.nanos = endsAt started retryWindow margin sessionExpiration := by
  obtain ⟨hretry, hsession⟩ := new_ok h
  unfold effectiveDeadline
  cases hs : budget.sessionDeadline with
  | none =>
    cases sessionExpiration with
    | none => exact hretry
    | some expiration => simp [hs] at hsession
  | some session =>
    cases sessionExpiration with
    | none => simp [hs] at hsession
    | some expiration =>
      simp only [hs, Option.map_some, Option.some.injEq] at hsession
      show (min budget.retryDeadline session).nanos = min _ _
      rw [← hretry, ← hsession]
      rcases le_total budget.retryDeadline session with hle | hle
      · rw [min_eq_left hle, min_eq_left (Duration.le_iff.mp hle)]
      · rw [min_eq_right hle, min_eq_right (Duration.le_iff.mp hle)]

theorem isSessionLimited_iff {scope : RetryScope} {started expiration : Duration}
    {maxAttempts : UInt32} {attemptTimeout : Duration} {budget : RetryBudget}
    (h : new scope started retryWindow maxAttempts attemptTimeout (some expiration) margin =
      .ok budget) :
    budget.isSessionLimited = true ↔
      expiration.nanos - margin.nanos ≤ started.nanos + retryWindow.nanos := by
  obtain ⟨hretry, hsession⟩ := new_ok h
  unfold isSessionLimited
  cases hs : budget.sessionDeadline with
  | none => simp [hs] at hsession
  | some session =>
    simp only [hs, Option.map_some, Option.some.injEq] at hsession
    rw [← hretry, ← hsession, decide_eq_true_eq]
    exact Duration.le_iff

/-- What a plan needs of its delay: a server's minimum is waited out, a plain
backoff at most cut to what is available. -/
theorem fitDelay_ok {proposed : RetryDelay} (h : fitDelay available proposed = .ok delay) :
    delay ≤ available ∧
      match proposed with
      | .backoff backoff => delay = min backoff available
      | .serverMinimum least => delay = least := by
  cases proposed with
  | backoff backoff =>
    obtain rfl := Except.ok.inj h
    exact ⟨min_le_right .., rfl⟩
  | serverMinimum least =>
    simp only [fitDelay] at h
    split at h
    · obtain rfl := Except.ok.inj h
      exact ⟨‹_›, rfl⟩
    · cases h

theorem planRetry_ok {budget : RetryBudget} {previousObservation : Duration}
    (h : budget.planRetry previousObservation now completedAttempts proposed = .ok plan) :
    ∃ available, fitDelay available proposed = .ok plan.delay ∧
      budget.effectiveDeadline.nanos =
        now.nanos + available.nanos + budget.attemptTimeout.nanos ∧
      budget.started ≤ previousObservation ∧ previousObservation ≤ now ∧
      plan.attempt.toNat = completedAttempts.toNat + 1 ∧ plan.attempt ≤ budget.maxAttempts ∧
      plan.attemptDeadline.nanos =
        now.nanos + plan.delay.nanos + budget.attemptTimeout.nanos := by
  unfold planRetry at h
  obtain ⟨hclock, h⟩ := Lists.ite_throw_ok.mp h
  obtain ⟨hstarted, hnow⟩ := not_or.mp hclock
  obtain ⟨attempt, hattempt, h⟩ := Lists.bind_eq_ok.mp h
  obtain ⟨hcounted, h⟩ := Lists.ite_throw_ok.mp h
  obtain ⟨latestStart, hlatest, h⟩ := Lists.bind_eq_ok.mp h
  obtain ⟨available, havailable, h⟩ := Lists.bind_eq_ok.mp h
  obtain ⟨delay, hdelay, h⟩ := Lists.bind_eq_ok.mp h
  obtain ⟨attemptStart, hstart, h⟩ := Lists.bind_eq_ok.mp h
  obtain ⟨attemptDeadline, hdeadline, h⟩ := Lists.bind_eq_ok.mp h
  obtain ⟨_, h⟩ := Lists.ite_throw_ok.mp h
  obtain rfl := Except.ok.inj h
  have hlatest := Duration.checkedSub_some (orKind_ok hlatest)
  have havailable := Duration.checkedSub_some (orKind_ok havailable)
  have hstart := Duration.checkedAdd_some (orKind_ok hstart)
  have hdeadline := Duration.checkedAdd_some (orKind_ok hdeadline)
  exact ⟨available, hdelay, by omega, not_lt.mp hstarted, not_lt.mp hnow,
    checkedSucc_some (orKind_ok hattempt), UInt32.not_lt.mp hcounted, by simp only; omega⟩

theorem planRetry_nonMonotonic {budget : RetryBudget} {previousObservation : Duration}
    (h : now < previousObservation) :
    budget.planRetry previousObservation now completedAttempts proposed =
      .error .nonMonotonicClock := by
  unfold planRetry
  exact if_pos (.inr h)

end RetryBudget

end SilkChiffon.BigQuery
