import SilkChiffon.BigQuery.Delivery

/-!
# Deadlines of a partition's stream

Every retry is planned so that the attempt fits in front of the budget's
deadline, and nothing is opened or awaited behind it. What ties a run to the
planner is `Spends`: the state counts the retries of the trace and remembers
when the last one was planned.
-/

namespace SilkChiffon.BigQuery

open Throughout (Since)

variable {α M : Type}

-- ---------------------------------------------------------------------------
-- Plans
-- ---------------------------------------------------------------------------

namespace RetryBudget

/-- A plan that keeps to its budget: the attempt starts `plan.delay` after `now`
and its whole timeout fits in front of the deadline. `serverDelay` is the least
delay the server asked for, when it did. -/
structure Keeps (budget : RetryBudget) (deadline : Nat) (previousObservation now : Duration)
    (completedAttempts : Nat) (serverDelay : Option Duration) (backoff : Duration)
    (plan : RetryPlan) : Prop where
  attempt : plan.attempt.toNat = completedAttempts + 1
  counted : plan.attempt ≤ budget.maxAttempts
  observed : budget.started ≤ previousObservation ∧ previousObservation ≤ now
  served : ∀ least, serverDelay = some least → least ≤ plan.delay
  whole : plan.attemptDeadline.nanos =
    now.nanos + plan.delay.nanos + budget.attemptTimeout.nanos
  fits : plan.attemptDeadline.nanos ≤ deadline
  shortened : serverDelay = none →
    plan.delay ≤ backoff ∧ (plan.delay < backoff → plan.attemptDeadline.nanos = deadline)

theorem planRetry_keeps {budget : RetryBudget} {previousObservation : Duration}
    {scope : RetryScope} {reason : RetryReason}
    (hdelay : (RetryDecision.retry scope reason serverDelay).delay backoff = some proposed)
    (h : budget.planRetry previousObservation now completedAttempts proposed = .ok plan) :
    Keeps budget budget.effectiveDeadline.nanos previousObservation now completedAttempts.toNat
      serverDelay backoff plan := by
  obtain ⟨available, hfit, hdeadline, hstarted, hnow, hattempt, hcounted, hwhole⟩ := planRetry_ok h
  obtain ⟨hle, hfit⟩ := fitDelay_ok hfit
  have hle := Duration.le_iff.mp hle
  refine ⟨hattempt, hcounted, ⟨hstarted, hnow⟩, ?_, hwhole, by omega, ?_⟩
  · rintro least rfl
    obtain rfl := Option.some.inj hdelay
    exact hfit ▸ le_max_left ..
  · rintro rfl
    obtain rfl := Option.some.inj hdelay
    refine ⟨hfit ▸ min_le_left .., fun hlt => ?_⟩
    have hcut : available ≤ backoff := by
      refine le_of_not_ge fun hle => ne_of_lt hlt ?_
      exact hfit.trans (min_eq_left hle)
    rw [hwhole, hfit, min_eq_right hcut, hdeadline]

end RetryBudget

-- ---------------------------------------------------------------------------
-- What a trace has spent
-- ---------------------------------------------------------------------------

def Event.isRetry : Event α → Bool
  | .retrying _ _ => true
  | _ => false

def retries (trace : List (Event α)) : Nat := trace.countP Event.isRetry

/-- The clock reading a retry is planned at is the next one's lower bound. -/
def Event.observe (observed : Duration) : Event α → Duration
  | .retrying now _ => now
  | _ => observed

def lastObserved (started : Duration) (trace : List (Event α)) : Duration :=
  trace.foldl Event.observe started

theorem retries_snoc (trace : List (Event α)) (e : Event α) :
    retries (trace ++ [e]) = retries trace + if e.isRetry then 1 else 0 := by
  cases he : e.isRetry <;> simp [retries, he]

theorem lastObserved_snoc (trace : List (Event α)) (e : Event α) :
    lastObserved started (trace ++ [e]) = e.observe (lastObserved started trace) := by
  simp [lastObserved]

def Turn.failure (turn : Turn) : Event α → Option AttemptFailure
  | .sent .. =>
    match turn.opened with
    | .ready (.error error) => some (.transport error)
    | .ready (.ok _) => none
    | .elapsed => some .idleTimeout
  | .awaited .. =>
    match turn.message with
    | .ready (some (.error status)) => some (.status status)
    | .ready _ => none
    | .elapsed => some .idleTimeout
  | _ => none

def ReadPartition.endsAt (partition : ReadPartition) (started : Duration) : Nat :=
  RetryBudget.endsAt started partition.args.readRetryWindow sessionExpirySafetyMargin
    (some partition.sessionDeadline)

def ReadPartition.retryBudget (partition : ReadPartition) (started : Duration) :
    Except RetryBudgetErrorKind RetryBudget :=
  RetryBudget.readRows started partition.args.readRetryWindow 4294967295
    partition.args.readIdleTimeout (some partition.sessionDeadline)

/-- An event of this turn keeps to the budget: nothing is opened or awaited
that could last beyond the deadline, and a retry has a plan that keeps to it. -/
def OnBudget (partition : ReadPartition) (started : Duration) (turn : Turn)
    (before : List (Event α)) : Event α → Prop
  | .sent _ attempt now timeout =>
    attempt.toNat = retries before + 1 ∧ now = turn.openClock ∧
      now.nanos + timeout.nanos ≤ partition.endsAt started
  | .awaited _ now timeout =>
    now = turn.waitClock ∧ now.nanos + timeout.nanos ≤ partition.endsAt started
  | .retrying now plan =>
    now = turn.retryClock ∧
      ∃ budget failure scope reason serverDelay policy streak backoff,
        partition.retryBudget started = .ok budget ∧
        before.getLast?.bind turn.failure = some failure ∧
        failure.decision = .retry scope reason serverDelay ∧
        BackoffPolicy.readRows partition.args.readRetryInitialBackoff
          partition.args.readRetryMaxBackoff = .ok policy ∧
        policy.fullJitter streak turn.sample = .ok backoff ∧
        budget.Keeps (partition.endsAt started) (lastObserved started before) now
          (retries before + 1) serverDelay backoff plan
  | .slept delay => ∃ now plan, before.getLast? = some (.retrying now plan) ∧ plan.delay = delay
  | _ => True

structure Spends (partition : ReadPartition) (started : Duration) (s : ReadRowsStreamState)
    (trace : List (Event α)) : Prop where
  budget : partition.retryBudget started = .ok s.retryBudget
  policy : BackoffPolicy.readRows partition.args.readRetryInitialBackoff
    partition.args.readRetryMaxBackoff = .ok s.backoff
  attempts : s.rpcAttempt.toNat = retries trace + 1
  observed : s.previousObservation = lastObserved started trace

variable {reader : Reader α M} {partition : ReadPartition} {started : Duration} {turn : Turn}

structure Unspent (s s' : ReadRowsStreamState) : Prop where
  budget : s'.retryBudget = s.retryBudget
  policy : s'.backoff = s.backoff
  attempts : s'.rpcAttempt = s.rpcAttempt
  observed : s'.previousObservation = s.previousObservation

theorem Unspent.refl (s : ReadRowsStreamState) : Unspent s s := ⟨rfl, rfl, rfl, rfl⟩

theorem Unspent.trans (h : Unspent s s') (h' : Unspent s' s'') : Unspent s s'' :=
  ⟨h'.budget.trans h.budget, h'.policy.trans h.policy, h'.attempts.trans h.attempts,
    h'.observed.trans h.observed⟩

theorem Spends.update (h : Spends partition started s trace) (hs : Unspent s s') :
    Spends partition started s' trace :=
  ⟨hs.budget ▸ h.budget, hs.policy ▸ h.policy, hs.attempts ▸ h.attempts, hs.observed ▸ h.observed⟩

theorem Spends.dropped (h : Spends partition started s trace) :
    Spends partition started { s with current := none } trace := h.update ⟨rfl, rfl, rfl, rfl⟩

theorem Spends.freed (h : Spends partition started s trace) :
    Spends partition started s.free trace := h.update ⟨rfl, rfl, rfl, rfl⟩

theorem Spends.snoc (h : Spends partition started s trace) (e : Event α)
    (he : e.isRetry = false) : Spends partition started s (trace ++ [e]) := by
  refine ⟨h.budget, h.policy, ?_, ?_⟩
  · rw [retries_snoc, he]
    exact h.attempts
  · rw [lastObserved_snoc, h.observed]
    cases e with
    | retrying _ _ => cases he
    | _ => rfl

theorem Spends.endsAt (h : Spends partition started s trace) :
    s.retryBudget.effectiveDeadline.nanos = partition.endsAt started := by
  have hbudget := h.budget
  unfold ReadPartition.retryBudget RetryBudget.readRows at hbudget
  exact RetryBudget.effectiveDeadline_nanos hbudget

theorem Spends.retried (h : Spends partition started s trace) (now : Duration) (hs : Unspent s s')
    (hattempt : plan.attempt.toNat = s.rpcAttempt.toNat + 1) :
    Spends partition started
      { s' with previousObservation := now, rpcAttempt := plan.attempt, current := none }
      (trace ++ [.retrying now plan]) := by
  refine ⟨hs.budget ▸ h.budget, hs.policy ▸ h.policy, ?_, ?_⟩
  · rw [retries_snoc]
    exact hattempt.trans (congrArg (· + 1) h.attempts)
  · rw [lastObserved_snoc]
    rfl

-- ---------------------------------------------------------------------------
-- Retries
-- ---------------------------------------------------------------------------

theorem orFail_ok (h : orFail e found = .ok b) : found = some b := by
  cases found with
  | none => cases h
  | some c => exact congrArg some (Except.ok.inj h)

theorem mapError_ok {x : Except ε β} {f : ε → ε'} (h : x.mapError f = .ok b) : x = .ok b := by
  cases x with
  | error e => cases h
  | ok c => exact congrArg Except.ok (Except.ok.inj h)

theorem countProgress_unspent {s : ReadRowsStreamState} (h : s.countProgress now = some s') :
    Unspent s s' := by
  unfold ReadRowsStreamState.countProgress at h
  split at h
  · obtain rfl := Option.some.inj h
    exact .refl s
  · simp only [Option.bind_eq_bind, Option.bind_eq_some_iff] at h
    obtain ⟨elapsed, _, h⟩ := h
    split at h
    · obtain rfl := Option.some.inj h
      exact ⟨rfl, rfl, rfl, rfl⟩
    · obtain rfl := Option.some.inj h
      exact ⟨rfl, rfl, rfl, rfl⟩

theorem planAttempt_ok {s : ReadRowsStreamState}
    (h : s.planAttempt partition scope reason serverDelay now sample = .ok (s', plan)) :
    Unspent s s' ∧ ∃ streak backoff proposed,
      s.backoff.fullJitter streak sample = .ok backoff ∧
      (RetryDecision.retry scope reason serverDelay).delay backoff = some proposed ∧
      s.retryBudget.planRetry s.previousObservation now s.rpcAttempt proposed = .ok plan := by
  obtain ⟨counted, hcounted, h⟩ := Lists.bind_eq_ok.mp h
  have hs := countProgress_unspent (orFail_ok hcounted)
  obtain ⟨streak, _, h⟩ := Lists.bind_eq_ok.mp h
  obtain ⟨backoff, hbackoff, h⟩ := Lists.bind_eq_ok.mp h
  obtain ⟨plan', hplan, h⟩ := Lists.bind_eq_ok.mp h
  obtain ⟨rfl, rfl⟩ := Prod.mk.inj (Except.ok.inj h)
  have hbackoff := mapError_ok hbackoff
  have hplan := mapError_ok hplan
  refine ⟨⟨hs.budget, hs.policy, hs.attempts, hs.observed⟩, streak, backoff, _, ?_,
    (Option.some_get (RetryDecision.retry_delay_isSome ..)).symm, ?_⟩
  · rw [← hs.policy]
    exact hbackoff
  · rw [← hs.budget, ← hs.observed, ← hs.attempts]
    exact hplan

theorem Spends.onBudget {failure : AttemptFailure} (h : Spends partition started s trace)
    (hplan : s.planAttempt partition scope reason serverDelay turn.retryClock turn.sample =
      .ok (s', plan))
    (hfailure : trace.getLast?.bind turn.failure = some failure)
    (hdecision : failure.decision = .retry scope reason serverDelay) :
    OnBudget partition started turn trace (.retrying turn.retryClock plan) := by
  obtain ⟨_, streak, backoff, proposed, hbackoff, hproposed, hplan⟩ := planAttempt_ok hplan
  have hkeeps := RetryBudget.planRetry_keeps hproposed hplan
  rw [h.endsAt, h.attempts, h.observed] at hkeeps
  exact ⟨rfl, s.retryBudget, failure, scope, reason, serverDelay, s.backoff, streak, backoff,
    h.budget, hfailure, hdecision, h.policy, hbackoff, hkeeps⟩

variable {A : List (Event α) → Event α → Prop} {E : List (Event α) → StreamReadError → Prop}
  {origin : List (Event α)}

theorem upholds_sleep_onBudget {s : ReadRowsStreamState} (h : Spends partition started s trace)
    (hG : Throughout (Since origin (OnBudget partition started turn)) trace)
    (hlast : trace.getLast? = some (.retrying now plan)) :
    (ReadRowsStreamState.sleep plan.delay : Reading α PUnit).Upholds A
      (Since origin (OnBudget partition started turn)) trace
      (fun after _ => Spends partition started s after) E := by
  unfold ReadRowsStreamState.sleep
  split
  · exact Emit.upholds_pure hG h
  · exact Emit.upholds_emit hG fun _ => ⟨fun _ => ⟨now, plan, hlast, rfl⟩, h.snoc _ rfl⟩

theorem upholds_retryOrFail_onBudget {failure : AttemptFailure}
    (h : Spends partition started s trace)
    (hG : Throughout (Since origin (OnBudget partition started turn)) trace)
    (hfailure : ∀ scope reason serverDelay, failure.decision = .retry scope reason serverDelay →
      trace.getLast?.bind turn.failure = some failure) :
    (s.retryOrFail partition failure turn.retryClock turn.sample : Reading α _).Upholds A
      (Since origin (OnBudget partition started turn)) trace
      (fun after s' => Spends partition started s' after) (fun _ _ => True) := by
  unfold ReadRowsStreamState.retryOrFail
  split
  · exact Emit.upholds_throw hG trivial
  split
  · exact Emit.upholds_throw hG trivial
  split
  · exact Emit.upholds_throw hG trivial
  · rename_i hdecision
    apply Fallible.upholds_lift_bind hG (Fallible.ensures_self.mono (fun _ h => h) fun _ _ => trivial)
    rintro ⟨s', plan⟩ hplan
    obtain ⟨hs, _, _, proposed, _, _, hattempt⟩ := planAttempt_ok hplan
    obtain ⟨_, _, _, _, _, hattempt, _⟩ := RetryBudget.planRetry_ok hattempt
    apply Emit.upholds_emit_bind hG fun _ _ =>
      h.onBudget hplan (hfailure _ _ _ hdecision) hdecision
    intro _ hG'
    have h' := h.retried turn.retryClock hs hattempt
    apply (upholds_sleep_onBudget h' hG' List.getLast?_concat).bind
    exact fun after _ hG'' h'' => Emit.upholds_pure hG'' (h''.update ⟨rfl, rfl, rfl, rfl⟩)

-- ---------------------------------------------------------------------------
-- Opening and waiting
-- ---------------------------------------------------------------------------

/-- A wait ends by the deadline at the latest. -/
theorem waitTimeout_ok {s : ReadRowsStreamState}
    (h : s.waitTimeout partition now = .ok (timeout, sessionLimited)) :
    now.nanos + timeout.nanos ≤ s.retryBudget.effectiveDeadline.nanos := by
  unfold ReadRowsStreamState.waitTimeout at h
  split at h
  · cases h
  · rename_i remaining hremaining
    obtain ⟨rfl, _⟩ := Prod.mk.inj (Except.ok.inj h)
    have hremaining := Duration.checkedSub_some hremaining
    have hmin := Duration.le_iff.mp (min_le_left remaining partition.args.readIdleTimeout)
    omega

theorem upholds_openStream_onBudget (h : Spends partition started s trace)
    (hG : Throughout (Since origin (OnBudget partition started turn)) trace) :
    (s.openStream partition turn : Reading α _).Upholds A
      (Since origin (OnBudget partition started turn)) trace
      (fun after r => Spends partition started s after ∧ ∀ failure, r = .error failure →
        ∀ scope reason serverDelay, failure.decision = .retry scope reason serverDelay →
          after.getLast?.bind turn.failure = some failure)
      E := by
  unfold ReadRowsStreamState.openStream
  split
  · refine Emit.upholds_pure hG ⟨h, ?_⟩
    rintro _ ⟨⟩ _ _ _ hdecision
    cases hdecision
  · rename_i timeout sessionLimited hwait
    have hsent : OnBudget partition started turn trace
        (.sent (s.request partition) s.rpcAttempt turn.openClock timeout) :=
      ⟨h.attempts, rfl, h.endsAt ▸ waitTimeout_ok hwait⟩
    apply Emit.upholds_emit_bind hG fun _ _ => hsent
    intro _ hG'
    have h' := h.snoc (.sent (s.request partition) s.rpcAttempt turn.openClock timeout) rfl
    split
    · refine Emit.upholds_emit_bind hG' ?_ ?_
      · exact fun _ _ => trivial
      intro _ hG''
      refine Emit.upholds_pure hG'' ⟨h'.snoc _ rfl, ?_⟩
      rintro _ ⟨⟩
    · rename_i error hopened
      refine Emit.upholds_pure hG' ⟨h', ?_⟩
      rintro _ ⟨⟩ _ _ _ _
      simp [Turn.failure, hopened]
    · rename_i hopened
      refine Emit.upholds_pure hG' ⟨h', ?_⟩
      rintro _ ⟨⟩ _ _ _ hdecision
      split at hdecision
      · cases hdecision
      · simp_all [Turn.failure]

theorem ensures_tryResize_unspent {s : ReadRowsStreamState} :
    Fallible.Ensures (s.tryResize partition answer bytes) (Unspent s) fun _ => True :=
  Fallible.ensures_trivial.bind fun _ _ => Fallible.ensures_pure ⟨rfl, rfl, rfl, rfl⟩

theorem ensures_accept_unspent {s : ReadRowsStreamState} {decoded : DecodedBatch α} :
    Fallible.Ensures (s.accept reader partition decoded now) (fun r => Unspent s r.2)
      fun _ => True := by
  apply Fallible.ensures_trivial.bind
  intro _ _
  apply Fallible.ensures_trivial.bind
  intro _ _
  apply Fallible.ensures_trivial.bind
  intro _ _
  split
  · exact Fallible.ensures_pure ⟨rfl, rfl, rfl, rfl⟩
  · exact Fallible.ensures_pure ⟨rfl, rfl, rfl, rfl⟩

theorem ensures_decode_unspent {s : ReadRowsStreamState} :
    Fallible.Ensures (s.decode reader partition response decoding) (fun r => Unspent s r.2)
      fun _ => True := by
  apply ensures_tryResize_unspent.bind
  intro s₁ h₁
  apply Fallible.ensures_trivial.bind
  intro _ _
  apply Fallible.ensures_trivial.bind
  intro _ _
  apply Fallible.ensures_trivial.bind
  rintro (_ | ⟨rows, upperBound⟩) _
  · exact Fallible.ensures_pure h₁
  · apply ensures_tryResize_unspent.bind
    intro s₂ h₂
    apply Fallible.ensures_trivial.bind
    intro _ _
    apply Fallible.ensures_trivial.bind
    intro decoded _
    apply ensures_accept_unspent.bind
    exact fun r hr => Fallible.ensures_pure (h₁.trans (h₂.trans hr))

def TurnSpends (partition : ReadPartition) (started : Duration) (trace : List (Event α)) :
    ReadRowsStreamState.Progress α → Prop
  | .again s => Spends partition started s trace
  | .batch _ s => Spends partition started s trace
  | .finished => True

theorem upholds_awaitResponse_onBudget (h : Spends partition started s trace)
    (hG : Throughout (Since origin (OnBudget partition started turn)) trace) :
    (s.awaitResponse reader partition stream turn).Upholds A
      (Since origin (OnBudget partition started turn)) trace (TurnSpends partition started)
      (fun _ _ => True) := by
  apply Fallible.upholds_lift_bind hG (Fallible.ensures_self.mono (fun _ h => h) fun _ _ => trivial)
  rintro ⟨timeout, sessionLimited⟩ hwait
  have hwait := waitTimeout_ok (mapError_ok hwait)
  rw [h.endsAt] at hwait
  have hawaited : OnBudget partition started turn trace (.awaited stream turn.waitClock timeout) :=
    ⟨rfl, hwait⟩
  apply Emit.upholds_emit_bind hG fun _ _ => hawaited
  intro _ hG'
  have h' := h.snoc (.awaited stream turn.waitClock timeout) rfl
  have hagain : ∀ failure,
      turn.failure (.awaited (α := α) stream turn.waitClock timeout) = some failure →
      (({ s with current := none } : ReadRowsStreamState).retryOrFail partition failure
        turn.retryClock turn.sample >>= fun s => pure (.again s)).Upholds A
        (Since origin (OnBudget partition started turn))
        (trace ++ [.awaited stream turn.waitClock timeout]) (TurnSpends partition started)
        (fun _ _ => True) := by
    intro failure hfailure
    apply (upholds_retryOrFail_onBudget h'.dropped hG' ?_).bind
    · exact fun after s' hG'' hs' => Emit.upholds_pure hG'' hs'
    · intro _ _ _ _
      simpa using hfailure
  split
  · refine Emit.upholds_emit_bind hG' ?_ ?_
    · exact fun _ _ => trivial
    intro _ hG''
    apply Fallible.upholds_lift_bind hG'' (ensures_decode_unspent.mono (fun _ h => h) fun _ _ => trivial)
    rintro ⟨_ | batch, s'⟩ hs
    · exact Emit.upholds_pure hG'' ((h'.update hs).freed.snoc (.received _) rfl)
    · exact Emit.upholds_pure hG'' ((h'.update hs).snoc (.received _) rfl)
  · rename_i hmessage
    exact hagain _ (by simp [Turn.failure, hmessage])
  · refine Emit.upholds_emit_bind hG' ?_ ?_
    · exact fun _ _ => trivial
    intro _ hG''
    exact Emit.upholds_pure hG'' trivial
  · rename_i hmessage
    split
    · exact Emit.upholds_throw hG' trivial
    · exact hagain _ (by simp [Turn.failure, hmessage])

theorem upholds_nextBatchTurn_onBudget (h : Spends partition started s trace)
    (hG : Throughout (Since origin (OnBudget partition started turn)) trace) :
    (s.nextBatchTurn reader partition turn).Upholds A
      (Since origin (OnBudget partition started turn)) trace (TurnSpends partition started)
      (fun _ _ => True) := by
  unfold ReadRowsStreamState.nextBatchTurn
  split
  · exact upholds_awaitResponse_onBudget h hG
  · apply (upholds_openStream_onBudget h hG).bind
    rintro after opened hG' ⟨h', hfailure⟩
    cases opened with
    | ok stream => exact upholds_awaitResponse_onBudget (h'.update ⟨rfl, rfl, rfl, rfl⟩) hG'
    | error failure =>
      apply (upholds_retryOrFail_onBudget h' hG' (hfailure _ rfl)).bind
      exact fun after' s' hG'' hs' => Emit.upholds_pure hG'' hs'

-- ---------------------------------------------------------------------------
-- Runs
-- ---------------------------------------------------------------------------

def StreamSpends (partition : ReadPartition) (started : Duration) (trace : List (Event α)) :
    ReadRowsStream → Prop
  | .ready s => Spends partition started s trace
  | .polling s => Spends partition started s trace
  | .done => True

theorem settle_onBudget {x : Reading α (ReadRowsStreamState.Progress α)}
    (h : x.Upholds (fun _ _ => True) (Since trace (OnBudget partition started turn)) trace
      (TurnSpends partition started) fun _ _ => True) :
    Throughout.From (OnBudget partition started turn) trace (ReadRowsStream.settle x).1 ∧
      StreamSpends partition started (trace ++ (ReadRowsStream.settle x).1)
        (ReadRowsStream.settle x).2 := by
  have hfrom : ∀ {w : List (Event α)},
      Throughout (Since trace (OnBudget partition started turn)) (trace ++ w) →
      Throughout.From (OnBudget partition started turn) trace w :=
    fun hG => Throughout.from_since hG (List.prefix_refl _)
  obtain ⟨events, result⟩ := x
  cases result with
  | error e =>
    obtain ⟨hG, _⟩ := h.error fun _ _ _ => trivial
    refine ⟨hfrom ?_, trivial⟩
    rw [ReadRowsStream.settle, ← List.append_assoc]
    exact hG.snoc fun _ => trivial
  | ok progress =>
    obtain ⟨hG, hs⟩ := h.ok fun _ _ _ => trivial
    cases progress with
    | again s => exact ⟨hfrom hG, hs⟩
    | batch batch s =>
      simp only [ReadRowsStream.settle, ← List.append_assoc]
      refine ⟨hfrom ?_, Spends.snoc hs (.emitted batch) rfl⟩
      rw [← List.append_assoc]
      exact hG.snoc fun _ => trivial
    | finished =>
      refine ⟨hfrom ?_, trivial⟩
      rw [ReadRowsStream.settle, ← List.append_assoc]
      exact hG.snoc fun _ => trivial

theorem step_onBudget {stream : ReadRowsStream} (h : StreamSpends partition started trace stream) :
    Throughout.From (OnBudget partition started turn) trace (stream.step reader partition turn).1 ∧
      StreamSpends partition started (trace ++ (stream.step reader partition turn).1)
        (stream.step reader partition turn).2 := by
  cases stream with
  | ready s => exact settle_onBudget (upholds_nextBatchTurn_onBudget h.freed Throughout.since_origin)
  | polling s => exact settle_onBudget (upholds_nextBatchTurn_onBudget h Throughout.since_origin)
  | done => exact ⟨trivial, trivial⟩

theorem runFrom_onBudget {stream : ReadRowsStream} {turns : List Turn}
    (h : StreamSpends partition started trace stream) :
    ∃ events, stream.runFrom reader partition trace (turns ++ [turn]) =
        stream.runFrom reader partition trace turns ++ events ∧
      Throughout.From (OnBudget partition started turn)
        (stream.runFrom reader partition trace turns) events := by
  induction turns generalizing stream trace with
  | nil => exact ⟨_, rfl, (step_onBudget h).1⟩
  | cons _ turns ih => exact ih (step_onBudget h).2

theorem new_spends {s : ReadRowsStreamState} (h : ReadRowsStream.new partition started = .ok s) :
    Spends partition started s ([] : List (Event α)) := by
  obtain ⟨policy, hpolicy, h⟩ := Lists.bind_eq_ok.mp h
  obtain ⟨budget, hbudget, h⟩ := Lists.bind_eq_ok.mp h
  obtain rfl := Except.ok.inj h
  exact ⟨mapError_ok hbudget, mapError_ok hpolicy, rfl, rfl⟩

theorem run_onBudget {turns : List Turn} :
    ∃ events, ReadRowsStream.run reader partition started (turns ++ [turn]) =
        ReadRowsStream.run reader partition started turns ++ events ∧
      Throughout.From (OnBudget partition started turn)
        (ReadRowsStream.run reader partition started turns) events := by
  unfold ReadRowsStream.run
  cases hnew : ReadRowsStream.new partition started with
  | error e => exact ⟨[], rfl, trivial⟩
  | ok s => exact runFrom_onBudget (new_spends hnew)

/-- The budgets the two constructors accept, with the window and the session
expiration they bound a retry by. -/
inductive Constructed (started : Duration) :
    RetryBudget → (window : Duration) → (expiration : Option Duration) → Prop
  | createReadSession (attemptTimeout : Duration) (budget : RetryBudget) :
    RetryBudget.createReadSession started attemptTimeout = .ok budget →
    Constructed started budget createReadSessionRetryWindow none
  | readRows (window : Duration) (maxAttempts : UInt32) (attemptTimeout : Duration)
      (expiration : Option Duration) (budget : RetryBudget) :
    RetryBudget.readRows started window maxAttempts attemptTimeout expiration = .ok budget →
    Constructed started budget window expiration

theorem Constructed.endsAt (h : Constructed started budget window expiration) :
    budget.effectiveDeadline.nanos =
      RetryBudget.endsAt started window sessionExpirySafetyMargin expiration := by
  cases h with
  | createReadSession attemptTimeout _ h => exact RetryBudget.effectiveDeadline_nanos h
  | readRows _ maxAttempts attemptTimeout _ _ h => exact RetryBudget.effectiveDeadline_nanos h

/-- For every budget a constructor accepts, every retry it plans keeps to it and
a clock that went back is refused; and in every run of a partition's stream, for
every order of opens, responses and failures, every turn keeps to the budget the
stream was created with. -/
theorem retries_keep_to_budget (reader : Reader α M) :
    (∀ started budget window expiration, Constructed started budget window expiration →
      ∀ previousObservation now completedAttempts scope reason serverDelay backoff proposed,
        (RetryDecision.retry scope reason serverDelay).delay backoff = some proposed →
        (∀ plan, budget.planRetry previousObservation now completedAttempts proposed = .ok plan →
          budget.Keeps (RetryBudget.endsAt started window sessionExpirySafetyMargin expiration)
            previousObservation now completedAttempts.toNat serverDelay backoff plan) ∧
        (now < previousObservation →
          budget.planRetry previousObservation now completedAttempts proposed =
            .error .nonMonotonicClock)) ∧
    ∀ partition started (turns : List Turn) turn,
      ∃ events, ReadRowsStream.run reader partition started (turns ++ [turn]) =
          ReadRowsStream.run reader partition started turns ++ events ∧
        Throughout.From (OnBudget partition started turn)
          (ReadRowsStream.run reader partition started turns) events := by
  refine ⟨?_, fun partition started turns turn => run_onBudget⟩
  intro started budget window expiration h previousObservation now completedAttempts scope reason
    serverDelay backoff proposed hdelay
  refine ⟨fun plan hplan => ?_, RetryBudget.planRetry_nonMonotonic⟩
  rw [← h.endsAt]
  exact RetryBudget.planRetry_keeps hdelay hplan

def idBudget : RetryBudget where
  scope := .readRows
  started := secs 0
  retryDeadline := secs 3600
  maxAttempts := 4294967295
  attemptTimeout := secs 60
  sessionDeadline := some (secs 7140)

theorem idBudget_constructed :
    Constructed (secs 0) idBudget (secs 3600) (some (secs 7200)) :=
  .readRows (secs 3600) 4294967295 (secs 60) (some (secs 7200)) idBudget rfl

/-- The server asks for five seconds, the backoff would have been shorter. -/
theorem retries_keep_to_budget_delayed :
    idBudget.Keeps 3600000000000 (secs 0) (secs 1) 1 (some (secs 5)) (millis 100)
      ⟨.readRows, 2, secs 5, secs 60, secs 66⟩ :=
  ((retries_keep_to_budget byteReader).1 (secs 0) idBudget (secs 3600) (some (secs 7200))
    idBudget_constructed (secs 0) (secs 1) 1 .readRows .grpcUnavailable (some (secs 5))
    (millis 100) (.serverMinimum (secs 5)) rfl).1 _ rfl

end SilkChiffon.BigQuery
