import SilkChiffon.BigQuery.Deadlines

/-!
# A read without failures

The budget is started with the stream, and its deadline bounds every wait. A
`HealthyRead` is a stream on which nothing fails: each open and each response
is answered within the idle timeout, whatever the consumer does in between.
Such a read survives exactly when every answer is there by the end of the
retry window.
-/

namespace SilkChiffon.BigQuery

open Arrow

variable {α M : Type}

-- ---------------------------------------------------------------------------
-- Answers that take their time
-- ---------------------------------------------------------------------------

/-- `tokio::time::timeout` of a value that is there after `latency`: the value
is polled before the timer. Nothing is awaited where there is no timeout. -/
def Awaited.timed (latency : Duration) (value : β) :
    Except RetryReason (Duration × Bool) → Awaited β
  | .ok (timeout, _) => if latency ≤ timeout then .ready value else .elapsed
  | .error _ => .elapsed

/-- One wait for a response: when it starts, how long the answer takes, and
what it is; `none` ends the stream. -/
structure Wait where
  clock : Duration
  latency : Duration
  response : Option ReadRowsResponse
  decoding : Decoding
  retryClock : Duration
  sample : UInt64

structure HealthyRead where
  started : Duration
  openClock : Duration
  openLatency : Duration
  waits : List Wait

def Wait.arrival (w : Wait) : Nat := w.clock.nanos + w.latency.nanos

def HealthyRead.openArrival (read : HealthyRead) : Nat :=
  read.openClock.nanos + read.openLatency.nanos

section

variable (partition : ReadPartition)

def ReadRowsStreamState.overBy (s : ReadRowsStreamState) (clock latency : Duration) : Nat :=
  match s.waitTimeout partition clock with
  | .ok (timeout, _) => clock.nanos + min latency.nanos timeout.nanos
  | .error _ => clock.nanos

def HealthyRead.turn (read : HealthyRead) (s : ReadRowsStreamState) (w : Wait) : Turn where
  openClock := read.openClock
  opened := .timed read.openLatency (.ok ()) (s.waitTimeout partition read.openClock)
  waitClock := w.clock
  message := .timed w.latency (w.response.map .ok) (s.waitTimeout partition w.clock)
  decoding := w.decoding
  retryClock := w.retryClock
  sample := w.sample

def HealthyRead.turns (read : HealthyRead) (s : ReadRowsStreamState) : List Turn :=
  read.waits.map (read.turn partition s)

def ReadPartition.windowEnd (started : Duration) : Nat :=
  started.nanos + partition.args.readRetryWindow.nanos

def ReadPartition.sessionEnd : Nat :=
  partition.sessionDeadline.nanos - sessionExpirySafetyMargin.nanos

/-- Failures of this process, not of the network: memory, decoding, the schema. -/
def RetryReason.Local (reason : RetryReason) : Prop :=
  reason ∈ [.localResource, .decode, .schema, .offsetOverflow]

/-- Nothing fails on this read, and the session lasts. `s` is the state it
starts in. -/
structure Healthy (reader : Reader α M) (rows : List (Row α)) (read : HealthyRead)
    (s : ReadRowsStreamState) : Prop where
  created : ReadRowsStream.new partition read.started = .ok s
  opened : read.openLatency < partition.args.readIdleTimeout ∧
    read.openArrival < partition.sessionEnd
  answered : ∀ w ∈ read.waits, w.latency < partition.args.readIdleTimeout ∧
    w.arrival < partition.sessionEnd
  clocked : ∀ w ∈ read.waits, s.overBy partition read.openClock read.openLatency ≤
    w.retryClock.nanos ∧ s.overBy partition w.clock w.latency ≤ w.retryClock.nanos
  closed : ∀ w ∈ read.waits.dropLast, w.response ≠ none
  served : Throughout (Serving reader partition rows)
    (ReadRowsStream.run reader partition read.started (read.turns partition s))
  decoded : ∀ e,
    .failed e ∈ ReadRowsStream.run reader partition read.started (read.turns partition s) →
    ¬ e.reason.Local

/-- The run never fails for its budget, and once the server ended the stream
every row was delivered. -/
def ReadsThrough (reader : Reader α M) (rows : List (Row α)) (read : HealthyRead)
    (s : ReadRowsStreamState) : Prop :=
  let trace := ReadRowsStream.run reader partition read.started (read.turns partition s)
  (∀ e : StreamReadError, .failed e ∈ trace → e.reason ≠ .retryBudgetExhausted) ∧
    ((∃ w, read.waits.getLast? = some w ∧ w.response = none) →
      (∃ before, trace = before ++ [.finished]) ∧ emittedRows trace = partition.outputRows rows)

def Punctual (read : HealthyRead) : Prop :=
  ∀ w ∈ read.waits, read.openArrival ≤ partition.windowEnd read.started ∧
    w.arrival ≤ partition.windowEnd read.started

end

-- ---------------------------------------------------------------------------
-- Timeouts
-- ---------------------------------------------------------------------------

variable {reader : Reader α M} {partition : ReadPartition} {started : Duration}

structure Budgeted (partition : ReadPartition) (started : Duration) (s : ReadRowsStreamState) :
    Prop where
  deadline : s.retryBudget.effectiveDeadline.nanos =
    min (partition.windowEnd started) partition.sessionEnd
  limited : s.retryBudget.isSessionLimited = true ↔
    partition.sessionEnd ≤ partition.windowEnd started

theorem budgeted_new {s : ReadRowsStreamState} (h : ReadRowsStream.new partition started = .ok s) :
    Budgeted partition started s := by
  have hbudget := (new_spends h : Spends partition started s ([] : List (Event Unit))).budget
  unfold ReadPartition.retryBudget RetryBudget.readRows at hbudget
  exact ⟨RetryBudget.effectiveDeadline_nanos hbudget, RetryBudget.isSessionLimited_iff hbudget⟩

theorem waitTimeout_inTime {s : ReadRowsStreamState} (h : Budgeted partition started s)
    (hidle : latency < partition.args.readIdleTimeout)
    (hsession : clock.nanos + latency.nanos < partition.sessionEnd)
    (hwindow : clock.nanos + latency.nanos ≤ partition.windowEnd started) :
    ∃ timeout limited, s.waitTimeout partition clock = .ok (timeout, limited) ∧
      latency ≤ timeout := by
  have hdeadline := h.deadline
  unfold ReadRowsStreamState.waitTimeout
  split
  · rename_i hnone
    have hlt := Duration.lt_iff.mp (Duration.checkedSub_none hnone)
    omega
  · rename_i remaining hremaining
    have hremaining := Duration.checkedSub_some hremaining
    refine ⟨_, _, rfl, le_min (Duration.le_iff.mpr ?_) (le_of_lt hidle)⟩
    omega

/-- An answer behind the window is not waited for, or not long enough; either
way the deadline has come when the wait is over. -/
theorem waitTimeout_late {s : ReadRowsStreamState} (h : Budgeted partition started s)
    (hidle : latency < partition.args.readIdleTimeout)
    (hsession : clock.nanos + latency.nanos < partition.sessionEnd)
    (hwindow : partition.windowEnd started < clock.nanos + latency.nanos) :
    s.deadlineReason = .retryBudgetExhausted ∧
      s.retryBudget.effectiveDeadline.nanos ≤ s.overBy partition clock latency ∧
      (s.waitTimeout partition clock = .error .retryBudgetExhausted ∨
        ∃ timeout, s.waitTimeout partition clock = .ok (timeout, false) ∧ timeout < latency) := by
  have hdeadline := h.deadline
  have hlimited : s.retryBudget.isSessionLimited = false := by
    refine Bool.eq_false_iff.mpr fun hlimited => ?_
    have hle := h.limited.mp hlimited
    omega
  have hreason : s.deadlineReason = .retryBudgetExhausted := by
    simp [ReadRowsStreamState.deadlineReason, hlimited]
  refine ⟨hreason, ?_⟩
  unfold ReadRowsStreamState.overBy ReadRowsStreamState.waitTimeout
  cases hsub : s.retryBudget.effectiveDeadline.checkedSub clock with
  | none =>
    have hlt := Duration.lt_iff.mp (Duration.checkedSub_none hsub)
    exact ⟨le_of_lt hlt, .inl (congrArg Except.error hreason)⟩
  | some remaining =>
    have hremaining := Duration.checkedSub_some hsub
    have hlt : remaining < latency := Duration.lt_iff.mpr (by omega)
    have hle := Duration.le_iff.mp (le_of_lt hlt)
    simp only [min_eq_left (le_of_lt (hlt.trans hidle)), hlimited, Bool.and_false]
    exact ⟨by rw [min_eq_right hle, hremaining], .inr ⟨remaining, rfl, hlt⟩⟩

-- ---------------------------------------------------------------------------
-- Decoding
-- ---------------------------------------------------------------------------

structure Underway (s s' : ReadRowsStreamState) : Prop where
  budget : s'.retryBudget = s.retryBudget
  current : ∃ stream, s'.current = some stream

theorem local_schema : RetryReason.schema.Local := by simp [RetryReason.Local]

theorem local_decode : (classifyReadRows .decode).reason.Local := by
  simp [RetryReason.Local, classifyReadRows, RetryDecision.reason]

theorem ensures_orFail_local {s : ReadRowsStreamState} {found : Option β}
    (hreason : reason.Local) :
    Fallible.Ensures (orFail (s.error partition reason) found) (fun _ => True)
      (fun e => e.reason.Local) :=
  ensures_orFail (fun _ _ => trivial) hreason

theorem ensures_tryResize_local {s : ReadRowsStreamState} (h : Underway s₀ s) :
    Fallible.Ensures (s.tryResize partition answer bytes) (Underway s₀) (fun e => e.reason.Local) := by
  apply (ensures_orFail_local (by simp [RetryReason.Local])).bind
  exact fun _ _ => Fallible.ensures_pure ⟨h.budget, h.current⟩

theorem ensures_accept_local {s : ReadRowsStreamState} {decoded : DecodedBatch α}
    (h : Underway s₀ s) :
    Fallible.Ensures (s.accept reader partition decoded now) (fun r => Underway s₀ r.2)
      (fun e => e.reason.Local) := by
  apply (ensures_orFail_local (by simp [RetryReason.Local])).bind
  intro _ _
  apply Fallible.Ensures.bind (Q := fun _ => True)
  · exact Fallible.ensures_mapError (fun _ _ => trivial) local_schema
  intro _ _
  apply (ensures_orFail_local (by simp [RetryReason.Local])).bind
  intro _ _
  split
  · exact Fallible.ensures_pure ⟨h.budget, h.current⟩
  · exact Fallible.ensures_pure ⟨h.budget, h.current⟩

theorem ensures_decode_local {s : ReadRowsStreamState} (h : Underway s₀ s) :
    Fallible.Ensures (s.decode reader partition response decoding) (fun r => Underway s₀ r.2)
      (fun e => e.reason.Local) := by
  apply (ensures_tryResize_local h).bind
  intro s₁ h₁
  apply (ensures_orFail_local (by simp [RetryReason.Local])).bind
  intro _ _
  apply (ensures_orFail_local (by simp [RetryReason.Local])).bind
  intro _ _
  apply Fallible.Ensures.bind (Q := fun _ => True)
  · exact Fallible.ensures_mapError (fun _ _ => trivial) local_decode
  rintro (_ | ⟨rows, upperBound⟩) _
  · exact Fallible.ensures_pure h₁
  · apply (ensures_tryResize_local h₁).bind
    intro s₂ h₂
    apply (ensures_orFail_local (by simp [RetryReason.Local])).bind
    intro _ _
    apply Fallible.Ensures.bind (Q := fun _ => True)
    · exact Fallible.ensures_mapError (fun _ _ => trivial) local_decode
    intro decoded _
    apply (ensures_accept_local h₂).bind
    exact fun r hr => Fallible.ensures_pure hr

-- ---------------------------------------------------------------------------
-- Waits
-- ---------------------------------------------------------------------------

def Answers (s : ReadRowsStreamState) (w : Wait) : ReadRowsStreamState.Progress α → Prop
  | .again s' => w.response ≠ none ∧ Underway s s'
  | .batch _ s' => w.response ≠ none ∧ Underway s s'
  | .finished => w.response = none

def Unfailed (events : List (Event α)) : Prop := ∀ e, .failed e ∉ events

theorem waitTimeout_congr {s s' : ReadRowsStreamState} (h : s'.retryBudget = s.retryBudget) :
    s'.waitTimeout partition now = s.waitTimeout partition now := by
  simp only [ReadRowsStreamState.waitTimeout, ReadRowsStreamState.deadlineReason, h]

theorem retryOrFail_exhausted {s s' : ReadRowsStreamState} {failure : AttemptFailure}
    (hs' : s'.retryBudget = s.retryBudget) (hreason : s.deadlineReason = .retryBudgetExhausted)
    (hnow : s.retryBudget.effectiveDeadline ≤ now) :
    (s'.retryOrFail partition failure now sample : Reading α _).Ensures (fun _ _ => False)
      fun _ e => e.reason = .retryBudgetExhausted := by
  unfold ReadRowsStreamState.retryOrFail
  rw [if_pos (hs' ▸ hnow)]
  refine Emit.ensures_throw ?_
  show s'.deadlineReason = _
  rw [← hreason, ReadRowsStreamState.deadlineReason, ReadRowsStreamState.deadlineReason, hs']

variable {read : HealthyRead} {s : ReadRowsStreamState} {w : Wait}

theorem ensures_awaitResponse_inTime {s' : ReadRowsStreamState} (h : Underway s s')
    (hwait : s.waitTimeout partition w.clock = .ok (timeout, limited))
    (hlatency : w.latency ≤ timeout) :
    (s'.awaitResponse reader partition stream (read.turn partition s w)).Ensures
      (fun events p => Unfailed events ∧ Answers s w p)
      fun events e => Unfailed events ∧ e.reason.Local := by
  have hmessage : (read.turn partition s w).message = .ready (w.response.map .ok) := by
    simp [HealthyRead.turn, hwait, Awaited.timed, hlatency]
  have hwait' : (s'.waitTimeout partition w.clock).mapError (s'.error partition) =
      .ok (timeout, limited) := by
    rw [waitTimeout_congr h.budget, hwait]
    rfl
  unfold ReadRowsStreamState.awaitResponse
  refine Emit.ensures_lift_bind (fun r hr => ?_) fun e he => absurd (hwait'.symm.trans he) nofun
  obtain rfl := Except.ok.inj (hwait'.symm.trans hr)
  refine Emit.ensures_emit_bind ?_
  rw [hmessage]
  cases hresponse : w.response with
  | none =>
    refine Emit.ensures_emit_bind (Emit.ensures_pure ⟨?_, hresponse⟩)
    simp [Unfailed]
  | some response =>
    have hsome : w.response ≠ none := by simp [hresponse]
    have hdecode : Fallible.Ensures (s'.decode reader partition response w.decoding)
        (fun r => Underway s r.2) (fun e => e.reason.Local) := ensures_decode_local h
    refine Emit.ensures_emit_bind (Fallible.ensures_lift_bind
      (hdecode.mono (fun _ hr => hr) fun e he => ⟨by simp [Unfailed], he⟩) ?_)
    rintro ⟨_ | batch, s''⟩ hs''
    · exact Emit.ensures_pure ⟨by simp [Unfailed], hsome, hs''.budget, hs''.current⟩
    · exact Emit.ensures_pure ⟨by simp [Unfailed], hsome, hs''⟩

theorem ensures_awaitResponse_late {s' : ReadRowsStreamState} (h : s'.retryBudget = s.retryBudget)
    (hs : Budgeted partition started s) (hidle : w.latency < partition.args.readIdleTimeout)
    (hsession : w.arrival < partition.sessionEnd) (hlate : partition.windowEnd started < w.arrival)
    (hclock : s.overBy partition w.clock w.latency ≤ w.retryClock.nanos) :
    (s'.awaitResponse reader partition stream (read.turn partition s w)).Ensures
      (fun _ _ => False) fun _ e => e.reason = .retryBudgetExhausted := by
  unfold ReadRowsStreamState.awaitResponse
  obtain ⟨hreason, hover, herror | ⟨timeout, hwait, hlatency⟩⟩ :=
    waitTimeout_late hs hidle hsession hlate
  · have herror' : (s'.waitTimeout partition w.clock).mapError (s'.error partition) =
        .error (s'.error partition .retryBudgetExhausted) := by
      rw [waitTimeout_congr h, herror]
      rfl
    refine Emit.ensures_lift_bind (fun r hr => absurd (herror'.symm.trans hr) nofun) fun e he => ?_
    obtain rfl := Except.error.inj (herror'.symm.trans he)
    rfl
  · have hmessage : (read.turn partition s w).message = .elapsed := by
      simp [HealthyRead.turn, hwait, Awaited.timed, not_le.mpr hlatency]
    have hwait' : (s'.waitTimeout partition w.clock).mapError (s'.error partition) =
        .ok (timeout, false) := by
      rw [waitTimeout_congr h, hwait]
      rfl
    refine Emit.ensures_lift_bind (fun r hr => ?_) fun e he => absurd (hwait'.symm.trans he) nofun
    obtain rfl := Except.ok.inj (hwait'.symm.trans hr)
    refine Emit.ensures_emit_bind ?_
    rw [hmessage]
    refine Emit.Ensures.bind (retryOrFail_exhausted h hreason ?_) fun _ _ h => h.elim
    exact Duration.le_iff.mpr (hover.trans hclock)

-- ---------------------------------------------------------------------------
-- The open
-- ---------------------------------------------------------------------------

theorem ensures_openStream_inTime (hwait : s.waitTimeout partition read.openClock =
    .ok (timeout, limited)) (hlatency : read.openLatency ≤ timeout) :
    (s.openStream partition (read.turn partition s w) : Reading α _).Ensures
      (fun events r => Unfailed events ∧ ∃ stream, r = .ok stream) (fun _ _ => False) := by
  have hopened : (read.turn partition s w).opened = .ready (.ok ()) := by
    simp [HealthyRead.turn, hwait, Awaited.timed, hlatency]
  have hwait' : s.waitTimeout partition (read.turn partition s w).openClock =
      .ok (timeout, limited) := hwait
  unfold ReadRowsStreamState.openStream
  rw [hwait', hopened]
  refine Emit.ensures_emit_bind (Emit.ensures_emit_bind (Emit.ensures_pure ⟨?_, _, rfl⟩))
  simp [Unfailed]

theorem ensures_openStream_late
    (hwait : s.waitTimeout partition read.openClock = .error reason ∨
      ∃ timeout, s.waitTimeout partition read.openClock = .ok (timeout, false) ∧
        timeout < read.openLatency) :
    (s.openStream partition (read.turn partition s w) : Reading α _).Ensures
      (fun _ r => ∃ failure, r = .error failure) (fun _ _ => False) := by
  unfold ReadRowsStreamState.openStream
  obtain herror | ⟨timeout, hwait, hlatency⟩ := hwait
  · have herror' : s.waitTimeout partition (read.turn partition s w).openClock = .error reason :=
      herror
    rw [herror']
    exact Emit.ensures_pure ⟨_, rfl⟩
  · have hopened : (read.turn partition s w).opened = .elapsed := by
      simp [HealthyRead.turn, hwait, Awaited.timed, not_le.mpr hlatency]
    have hwait' : s.waitTimeout partition (read.turn partition s w).openClock =
        .ok (timeout, false) := hwait
    rw [hwait', hopened]
    exact Emit.ensures_emit_bind (Emit.ensures_pure ⟨_, rfl⟩)

-- ---------------------------------------------------------------------------
-- Turns
-- ---------------------------------------------------------------------------

def TurnOutcome (P : Prop) (s : ReadRowsStreamState) (w : Wait)
    (x : Reading α (ReadRowsStreamState.Progress α)) : Prop :=
  x.Ensures (fun events p => P ∧ Unfailed events ∧ Answers s w p)
    fun _ e => P ∧ e.reason.Local ∨ ¬ P ∧ e.reason = .retryBudgetExhausted

theorem awaitResponse_outcome {s' : ReadRowsStreamState} (hs : Budgeted partition started s)
    (h : Underway s s') (hidle : w.latency < partition.args.readIdleTimeout)
    (hsession : w.arrival < partition.sessionEnd)
    (hclock : s.overBy partition w.clock w.latency ≤ w.retryClock.nanos) :
    TurnOutcome (w.arrival ≤ partition.windowEnd started) s w
      (s'.awaitResponse reader partition stream (read.turn partition s w)) := by
  by_cases hwindow : w.arrival ≤ partition.windowEnd started
  · obtain ⟨timeout, limited, hwait, hlatency⟩ := waitTimeout_inTime hs hidle hsession hwindow
    exact (ensures_awaitResponse_inTime h hwait hlatency).mono (fun _ _ hp => ⟨hwindow, hp⟩)
      fun _ _ he => .inl ⟨hwindow, he.2⟩
  · have hlate := not_le.mp hwindow
    exact (ensures_awaitResponse_late h.budget hs hidle hsession hlate hclock).mono
      (fun _ _ hp => hp.elim) fun _ _ he => .inr ⟨hwindow, he⟩

theorem turn_outcome_underway {s' : ReadRowsStreamState} (hs : Budgeted partition started s)
    (h : Underway s s') (hidle : w.latency < partition.args.readIdleTimeout)
    (hsession : w.arrival < partition.sessionEnd)
    (hclock : s.overBy partition w.clock w.latency ≤ w.retryClock.nanos) :
    TurnOutcome (w.arrival ≤ partition.windowEnd started) s w
      (s'.nextBatchTurn reader partition (read.turn partition s w)) := by
  obtain ⟨stream, hstream⟩ := h.current
  unfold ReadRowsStreamState.nextBatchTurn
  simp only [hstream]
  exact awaitResponse_outcome hs h hidle hsession hclock

theorem turn_outcome_first (hs : Budgeted partition started s) (hnone : s.current = none)
    (hopened : read.openLatency < partition.args.readIdleTimeout ∧
      read.openArrival < partition.sessionEnd)
    (hidle : w.latency < partition.args.readIdleTimeout) (hsession : w.arrival < partition.sessionEnd)
    (hclock : s.overBy partition read.openClock read.openLatency ≤ w.retryClock.nanos ∧
      s.overBy partition w.clock w.latency ≤ w.retryClock.nanos) :
    TurnOutcome (read.openArrival ≤ partition.windowEnd started ∧
      w.arrival ≤ partition.windowEnd started) s w
      (s.nextBatchTurn reader partition (read.turn partition s w)) := by
  unfold ReadRowsStreamState.nextBatchTurn
  simp only [hnone]
  by_cases hwindow : read.openArrival ≤ partition.windowEnd started
  · obtain ⟨timeout, limited, hwait, hlatency⟩ :=
      waitTimeout_inTime hs hopened.1 hopened.2 hwindow
    refine Emit.Ensures.bind ((ensures_openStream_inTime hwait hlatency).mono (fun _ _ h => h)
      fun _ _ h => h.elim) ?_
    rintro events _ ⟨hunfailed, stream, rfl⟩
    have hunderway : Underway s { s with current := some stream } := ⟨rfl, stream, rfl⟩
    have hawait : TurnOutcome (w.arrival ≤ partition.windowEnd started) s w
        (({ s with current := some stream } : ReadRowsStreamState).awaitResponse reader partition
          stream (read.turn partition s w)) :=
      awaitResponse_outcome hs hunderway hidle hsession hclock.2
    refine Emit.Ensures.mono hawait ?_ ?_
    · rintro events' p ⟨hw, hunfailed', hp⟩
      refine ⟨⟨hwindow, hw⟩, fun e he => ?_, hp⟩
      exact (List.mem_append.mp he).elim (hunfailed e) (hunfailed' e)
    · rintro _ e (⟨hw, he⟩ | ⟨hw, he⟩)
      · exact .inl ⟨⟨hwindow, hw⟩, he⟩
      · exact .inr ⟨fun h => hw h.2, he⟩
  · obtain ⟨hreason, hover, hwait⟩ := waitTimeout_late hs hopened.1 hopened.2 (not_le.mp hwindow)
    refine Emit.Ensures.bind ((ensures_openStream_late hwait).mono (fun _ _ h => h)
      fun _ _ h => h.elim) ?_
    rintro events _ ⟨failure, rfl⟩
    have hnow : s.retryBudget.effectiveDeadline ≤ w.retryClock :=
      Duration.le_iff.mpr (hover.trans hclock.1)
    have hretry : (s.retryOrFail partition failure w.retryClock w.sample : Reading α _).Ensures
        (fun _ _ => False) fun _ e => e.reason = .retryBudgetExhausted :=
      retryOrFail_exhausted rfl hreason hnow
    exact Emit.Ensures.bind (hretry.mono (fun _ _ h => h)
      fun _ _ he => .inr ⟨fun h => hwindow h.1, he⟩) fun _ _ h => h.elim

-- ---------------------------------------------------------------------------
-- Runs
-- ---------------------------------------------------------------------------

inductive StepOutcome (P : Prop) (s : ReadRowsStreamState) (w : Wait) :
    List (Event α) × ReadRowsStream → Prop
  | goesOn (events : List (Event α)) (next : ReadRowsStream) (s' : ReadRowsStreamState) :
    P → w.response ≠ none → Unfailed events → next.poll = some s' → Underway s s' →
    StepOutcome P s w (events, next)
  | finishes (events : List (Event α)) :
    P → w.response = none → Unfailed events →
    StepOutcome P s w (events ++ [.finished], .done)
  | fails (events : List (Event α)) (e : StreamReadError) :
    P ∧ e.reason.Local ∨ ¬ P ∧ e.reason = .retryBudgetExhausted →
    StepOutcome P s w (events ++ [.failed e], .done)

theorem settle_outcome {P : Prop} {x : Reading α (ReadRowsStreamState.Progress α)}
    (h : TurnOutcome P s w x) : StepOutcome P s w (ReadRowsStream.settle x) := by
  obtain ⟨events, result⟩ := x
  cases result with
  | error e => exact .fails events e h
  | ok progress =>
    obtain ⟨hP, hunfailed, hp⟩ := h
    cases progress with
    | again s' => exact .goesOn _ _ s' hP hp.1 hunfailed rfl hp.2
    | batch batch s' =>
      refine .goesOn _ _ s'.free hP hp.1 (fun e he => ?_) rfl ⟨hp.2.budget, hp.2.current⟩
      rcases List.mem_append.mp he with he | he
      · exact hunfailed e he
      · simp at he
    | finished => exact .finishes events hP hp hunfailed

theorem runFrom_done (before : List (Event α)) (turns : List Turn) :
    ReadRowsStream.done.runFrom reader partition before turns = before := by
  induction turns generalizing before with
  | nil => rfl
  | cons turn turns ih => simpa [ReadRowsStream.runFrom, ReadRowsStream.step,
      ReadRowsStream.poll] using ih before

def InWindow (partition : ReadPartition) (started : Duration) (waits : List Wait) : Prop :=
  ∀ w ∈ waits, w.arrival ≤ partition.windowEnd started

def RunOutcome (P : Prop) (waits : List Wait) (trace : List (Event α)) : Prop :=
  P ∧ Unfailed trace ∧ ((∃ w, waits.getLast? = some w ∧ w.response = none) →
    ∃ before, trace = before ++ [.finished]) ∨
  ¬ P ∧ ∃ e : StreamReadError, .failed e ∈ trace ∧ e.reason = .retryBudgetExhausted

theorem runFrom_cons {P : Prop} {stream : ReadRowsStream} {turn : Turn} {turns : List Turn}
    {before : List (Event α)} (hbefore : Unfailed before)
    (hstep : StepOutcome P s w (stream.step reader partition turn))
    (hclosed : ∀ v ∈ (w :: rest).dropLast, v.response ≠ none)
    (hdecoded : ∀ e, .failed e ∈ stream.runFrom reader partition before (turn :: turns) →
      ¬ e.reason.Local)
    (hrest : ∀ events next s', stream.step reader partition turn = (events, next) →
      next.poll = some s' → Underway s s' → Unfailed (before ++ events) →
      RunOutcome (InWindow partition started rest) rest
        (next.runFrom reader partition (before ++ events) turns)) :
    RunOutcome (P ∧ InWindow partition started rest) (w :: rest)
      (stream.runFrom reader partition before (turn :: turns)) := by
  rw [ReadRowsStream.runFrom] at hdecoded ⊢
  generalize hresult : stream.step reader partition turn = result at hstep hdecoded hrest ⊢
  cases hstep with
  | goesOn events next s' hP hsome hunfailed hpoll hunder =>
    have hunfailed' : Unfailed (before ++ events) := fun e he =>
      (List.mem_append.mp he).elim (hbefore e) (hunfailed e)
    rcases hrest events next s' rfl hpoll hunder hunfailed' with ⟨hQ, hrun, hfinish⟩ | ⟨hQ, hrun⟩
    · refine .inl ⟨⟨hP, hQ⟩, hrun, ?_⟩
      rintro ⟨v, hlast, hnone⟩
      cases rest with
      | nil =>
        obtain rfl := Option.some.inj hlast
        exact absurd hnone hsome
      | cons v' rest => exact hfinish ⟨v, by simpa using hlast, hnone⟩
    · exact .inr ⟨fun h => hQ h.2, hrun⟩
  | finishes events hP hnone hunfailed =>
    have hnil : rest = [] := by
      cases rest with
      | nil => rfl
      | cons v rest => exact absurd hnone (hclosed w (by simp))
    subst hnil
    simp only [runFrom_done] at hdecoded ⊢
    refine .inl ⟨⟨hP, by simp [InWindow]⟩, fun e he => ?_, fun _ => ⟨before ++ events, by simp⟩⟩
    simp only [List.mem_append, List.mem_singleton, reduceCtorEq, or_false] at he
    exact he.elim (hbefore e) (hunfailed e)
  | fails events e he =>
    simp only [runFrom_done] at hdecoded ⊢
    have hmem : Event.failed e ∈ before ++ (events ++ [.failed e]) := by simp
    rcases he with ⟨_, hlocal⟩ | ⟨hP, hexhausted⟩
    · exact absurd hlocal (hdecoded e hmem)
    · exact .inr ⟨fun h => hP h.1, e, hmem, hexhausted⟩

theorem runFrom_outcome {stream : ReadRowsStream} {s' : ReadRowsStreamState} {waits : List Wait}
    {before : List (Event α)} (hs : Budgeted partition started s) (hpoll : stream.poll = some s')
    (h : Underway s s') (hbefore : Unfailed before)
    (hanswered : ∀ w ∈ waits, w.latency < partition.args.readIdleTimeout ∧
      w.arrival < partition.sessionEnd)
    (hclocked : ∀ w ∈ waits, s.overBy partition w.clock w.latency ≤ w.retryClock.nanos)
    (hclosed : ∀ w ∈ waits.dropLast, w.response ≠ none)
    (hdecoded : ∀ e, .failed e ∈ stream.runFrom reader partition before
      (waits.map (read.turn partition s)) → ¬ e.reason.Local) :
    RunOutcome (InWindow partition started waits) waits
      (stream.runFrom reader partition before (waits.map (read.turn partition s))) := by
  induction waits generalizing stream s' before with
  | nil => exact .inl ⟨by simp [InWindow], hbefore, by simp⟩
  | cons w rest ih =>
    obtain ⟨hw, hrest⟩ := List.forall_mem_cons.mp hanswered
    obtain ⟨hwclock, hrestclock⟩ := List.forall_mem_cons.mp hclocked
    have hstep : StepOutcome (w.arrival ≤ partition.windowEnd started) s w
        (stream.step reader partition (read.turn partition s w)) := by
      unfold ReadRowsStream.step
      rw [hpoll]
      exact settle_outcome (turn_outcome_underway hs h hw.1 hw.2 hwclock)
    have hcons : InWindow partition started (w :: rest) ↔
        w.arrival ≤ partition.windowEnd started ∧ InWindow partition started rest :=
      List.forall_mem_cons
    rw [hcons]
    refine runFrom_cons hbefore hstep hclosed hdecoded ?_
    intro events next s'' hresult hpoll' hunder hunfailed
    refine ih hpoll' hunder hunfailed hrest hrestclock (fun v hv => ?_) fun e he => ?_
    · cases rest with
      | nil => simp at hv
      | cons v' rest => exact hclosed v (by simp_all)
    · refine hdecoded e ?_
      rw [List.map_cons, ReadRowsStream.runFrom, hresult]
      exact he

theorem new_free (h : ReadRowsStream.new partition started = .ok s) : s.free = s := by
  obtain ⟨_, _, h⟩ := Lists.bind_eq_ok.mp h
  obtain ⟨_, _, h⟩ := Lists.bind_eq_ok.mp h
  obtain rfl := Except.ok.inj h
  rfl

variable {rows : List (Row α)}

theorem run_outcome (h : Healthy partition reader rows read s) :
    RunOutcome (Punctual partition read) read.waits
      (ReadRowsStream.run reader partition read.started (read.turns partition s)) := by
  have hs := budgeted_new h.created
  obtain ⟨_, hnone⟩ := new_offset h.created
  have hanswered := h.answered
  have hclocked := h.clocked
  have hclosed := h.closed
  have hdecoded := h.decoded
  simp only [ReadRowsStream.run, h.created, HealthyRead.turns] at hdecoded ⊢
  unfold Punctual
  cases hwaits : read.waits with
  | nil => exact .inl ⟨by simp, by simp [Unfailed, ReadRowsStream.runFrom], by simp⟩
  | cons w rest =>
    rw [hwaits] at hanswered hclocked hclosed hdecoded
    obtain ⟨hw, hrest⟩ := List.forall_mem_cons.mp hanswered
    obtain ⟨hwclock, hrestclock⟩ := List.forall_mem_cons.mp hclocked
    have hstep : StepOutcome (read.openArrival ≤ partition.windowEnd read.started ∧
        w.arrival ≤ partition.windowEnd read.started) s w
        ((ReadRowsStream.ready s).step reader partition (read.turn partition s w)) := by
      show StepOutcome _ s w (ReadRowsStream.settle (s.free.nextBatchTurn reader partition _))
      rw [new_free h.created]
      exact settle_outcome (turn_outcome_first hs hnone h.opened hw.1 hw.2 hwclock)
    have hpunctual : (∀ v ∈ w :: rest, read.openArrival ≤ partition.windowEnd read.started ∧
          v.arrival ≤ partition.windowEnd read.started) ↔
        (read.openArrival ≤ partition.windowEnd read.started ∧
          w.arrival ≤ partition.windowEnd read.started) ∧
        InWindow partition read.started rest := by
      rw [List.forall_mem_cons]
      exact ⟨fun h => ⟨h.1, fun v hv => (h.2 v hv).2⟩, fun h => ⟨h.1, fun v hv => ⟨h.1.1, h.2 v hv⟩⟩⟩
    rw [hpunctual]
    refine runFrom_cons (by simp [Unfailed]) hstep hclosed hdecoded ?_
    intro events next s' hresult hpoll hunder hunfailed
    refine runFrom_outcome hs hpoll hunder hunfailed hrest (fun v hv => (hrestclock v hv).2)
      (fun v hv => ?_) fun e he => ?_
    · cases rest with
      | nil => simp at hv
      | cons v' rest => exact hclosed v (by simp_all)
    · refine hdecoded e ?_
      rw [List.map_cons, ReadRowsStream.runFrom, hresult]
      exact he

/-- A read without failures, on a session that lasts, delivers all its rows and
does not fail for its budget exactly when every answer is there by the end of
the retry window. -/
theorem reads_through_iff_punctual (h : Healthy partition reader rows read s) :
    ReadsThrough partition reader rows read s ↔ Punctual partition read := by
  rcases run_outcome h with ⟨hpunctual, hunfailed, hfinish⟩ | ⟨hlate, e, he, hexhausted⟩
  · refine iff_of_true ⟨fun e he => absurd he (hunfailed e), fun hclosed => ?_⟩ hpunctual
    obtain ⟨before, htrace⟩ := hfinish hclosed
    refine ⟨⟨before, htrace⟩, ?_⟩
    have hfaithful := run_faithful h.served
    rw [htrace] at hfaithful ⊢
    have hall : emittedRows before = partition.outputRows rows := hfaithful.last.2
    rw [emittedRows_snoc, hall]
    exact List.append_nil _
  · exact iff_of_false (fun hreads => hreads.1 e he hexhausted) hlate

-- ---------------------------------------------------------------------------
-- A consumer that takes its time
-- ---------------------------------------------------------------------------

def idState : ReadRowsStreamState where
  current := none
  acceptedOffset := .default
  rpcAttempt := 1
  failureStreak := 0
  acceptedProgressStarted := none
  acceptedProgressRows := 0
  previousObservation := secs 0
  backoff := ⟨millis 100, 13, 10, secs 60, sustainedAcceptedProgress⟩
  retryBudget := idBudget
  reservation := 0

def promptWait (clock : Duration) (response : Option ReadRowsResponse) : Wait where
  clock
  latency := secs 1
  response
  decoding := ⟨true, true, true, true, true, clock⟩
  retryClock := secs 5000
  sample := 0

/-- Two rows arrive, and the consumer asks for the next ones at `clock`. -/
def pausedRead (clock : Duration) : HealthyRead where
  started := secs 0
  openClock := secs 1
  openLatency := secs 1
  waits := [promptWait (secs 3) (some (idResponse [7, 8])),
    promptWait clock (some (idResponse [9])), promptWait clock none]

theorem first_width : ∀ row ∈ ([[some 7], [some 8]] : List (Row Nat)),
    row.length = idPartition.outputSchema.length := by decide

theorem rest_width : ∀ row ∈ ([[some 9]] : List (Row Nat)),
    row.length = idPartition.outputSchema.length := by decide

def pausedTrace : List (Event Nat) :=
  let request : ReadRowsRequest := ⟨"stream", 0⟩
  [.sent request 1 (secs 1) (secs 60), .connected request,
    .awaited ⟨request⟩ (secs 3) (secs 60), .received (idResponse [7, 8]),
    .emitted ⟨idPartition.outputSchema, [[some 7], [some 8]], first_width⟩]

def quickTrace : List (Event Nat) :=
  let request : ReadRowsRequest := ⟨"stream", 0⟩
  pausedTrace ++ [.awaited ⟨request⟩ (secs 3000) (secs 60), .received (idResponse [9]),
    .emitted ⟨idPartition.outputSchema, [[some 9]], rest_width⟩,
    .awaited ⟨request⟩ (secs 3000) (secs 60), .closed, .finished]

def exhausted : StreamReadError :=
  ⟨readRowsOperation, 0, 1, ⟨2, by decide, by decide⟩, .retryBudgetExhausted⟩

theorem run_quick : ReadRowsStream.run byteReader idPartition (secs 0)
    ((pausedRead (secs 3000)).turns idPartition idState) = quickTrace := rfl

theorem run_slow : ReadRowsStream.run byteReader idPartition (secs 0)
    ((pausedRead (secs 3700)).turns idPartition idState) = pausedTrace ++ [.failed exhausted] := rfl

theorem pausedTrace_served : Throughout (Serving byteReader idPartition idRows) pausedTrace := by
  refine Throughout.of_from Throughout.nil ?_
  have hfirst : Carries byteReader idPartition (idResponse [7, 8]) [[some 7], [some 8]] :=
    carries_of_decode rfl rfl rfl
  simp only [Throughout.From, Serving, and_true, true_and]
  exact ⟨_, by decide, hfirst⟩

theorem forall_waits {P : Wait → Prop} (h₁ : P (promptWait (secs 3) (some (idResponse [7, 8]))))
    (h₂ : P (promptWait clock (some (idResponse [9])))) (h₃ : P (promptWait clock none)) :
    ∀ w ∈ (pausedRead clock).waits, P w := by
  simp [pausedRead, h₁, h₂, h₃]

theorem only_last_closes (clock : Duration) :
    ∀ w ∈ (pausedRead clock).waits.dropLast, w.response ≠ none := by
  simp [pausedRead, promptWait]

theorem slow_healthy :
    Healthy idPartition byteReader idRows (pausedRead (secs 3700)) idState where
  created := rfl
  opened := by decide
  answered := forall_waits (by decide) (by decide) (by decide)
  clocked := forall_waits (by decide) (by decide) (by decide)
  closed := only_last_closes _
  served := by
    show Throughout _ (ReadRowsStream.run _ _ (secs 0) _)
    rw [run_slow]
    exact pausedTrace_served.snoc trivial
  decoded := by
    show ∀ e, .failed e ∈ ReadRowsStream.run _ _ (secs 0) _ → _
    rw [run_slow]
    simp [pausedTrace, exhausted, RetryReason.Local]

/-- Every answer takes a second, but the consumer is away when the window ends:
the read fails for a budget nothing was charged to, a row short. -/
theorem paused_read_exhausted :
    Healthy idPartition byteReader idRows (pausedRead (secs 3700)) idState ∧
      ¬ ReadsThrough idPartition byteReader idRows (pausedRead (secs 3700)) idState := by
  refine ⟨slow_healthy, fun h => h.1 exhausted ?_ rfl⟩
  show _ ∈ ReadRowsStream.run _ _ (secs 0) _
  rw [run_slow]
  simp

theorem quick_healthy :
    Healthy idPartition byteReader idRows (pausedRead (secs 3000)) idState where
  created := rfl
  opened := by decide
  answered := forall_waits (by decide) (by decide) (by decide)
  clocked := forall_waits (by decide) (by decide) (by decide)
  closed := only_last_closes _
  served := by
    show Throughout _ (ReadRowsStream.run _ _ (secs 0) _)
    rw [run_quick]
    refine Throughout.of_from pausedTrace_served ?_
    have hrest : Carries byteReader idPartition (idResponse [9]) [[some 9]] :=
      carries_of_decode rfl rfl rfl
    simp only [Throughout.From, Serving, and_true, true_and]
    exact ⟨⟨_, by decide, hrest⟩, by decide⟩
  decoded := by
    show ∀ e, .failed e ∈ ReadRowsStream.run _ _ (secs 0) _ → _
    rw [run_quick]
    simp [quickTrace, pausedTrace]

theorem reads_through_iff_punctual_quick :
    ReadsThrough idPartition byteReader idRows (pausedRead (secs 3000)) idState :=
  (reads_through_iff_punctual quick_healthy).mpr
    (forall_waits (by decide) (by decide) (by decide))

end SilkChiffon.BigQuery
