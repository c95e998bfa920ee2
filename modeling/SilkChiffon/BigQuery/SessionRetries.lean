import SilkChiffon.BigQuery.BackoffGrowth
import SilkChiffon.BigQuery.Deadlines
import SilkChiffon.BigQuery.Sessions

/-!
# Opening a session

A session is asked for until it is answered, an error is permanent, or no retry
fits in front of the budget's deadline. The clock is read when an attempt
starts, when its answer is there and when a retry is planned.
-/

namespace SilkChiffon.BigQuery

structure ReadSessionError where
  kind : ReadSessionErrorKind
  transport : Option StorageTransportError
  deriving DecidableEq

namespace ReadSessionError

def new (kind : ReadSessionErrorKind) : ReadSessionError := ⟨kind, none⟩

def ofTransport (error : StorageTransportError) : ReadSessionError := ⟨.transport, some error⟩

def retryDecision (error : ReadSessionError) : RetryDecision :=
  match error.transport with
  | some (.status status) => classifyCreateReadSession (.status status)
  | some (.credentials true) => classifyCreateReadSession .transientCredentials
  | some (.credentials false) => classifyCreateReadSession .credentials
  | some .config => classifyCreateReadSession .localResource
  | some .connect => classifyCreateReadSession .localResource
  | some .invalidMetadata => classifyCreateReadSession .localResource
  | none => classifyCreateReadSession .localResource

end ReadSessionError

/-- What one attempt meets: the clock when it starts, the answer, the clock when
that is there and when a retry is planned, and a random sample. -/
structure SessionTurn where
  started : Duration
  answer : Except StorageTransportError ReadSession
  received : Duration
  now : Duration
  sample : UInt64

inductive SessionEvent (S D : Type)
  | requested (attempt : UInt32) (request : CreateReadSessionRequest)
  | retrying (now : Duration) (plan : RetryPlan)
  | slept (delay : Duration)
  | opened (lease : SessionLease S D)
  | failed (error : ReadSessionError)

structure RetryState where
  previousObservation : Duration
  attempt : UInt32

namespace ReadSessionClient

variable {N S D : Type} (reader : SchemaReader N S) (decodeLimit : DecodeLimit) (spec : ReadSessionSpec D)

def create (turn : SessionTurn) : Except ReadSessionError (SessionLease S D) := do
  let session ← turn.answer.mapError .ofTransport
  if turn.received < turn.started then
    throw (.new .nonMonotonicClock)
  (validateResponse reader spec session turn.started decodeLimit).mapError .new

/-- What follows a failed attempt: the next one, or the error that is returned. -/
def planNext (budget : RetryBudget) (backoff : BackoffPolicy) (s : RetryState) (error : ReadSessionError)
    (turn : SessionTurn) : Except ReadSessionError RetryPlan :=
  match error.retryDecision with
  | .permanent .. => .error error
  | .retry scope reason serverDelay =>
    match backoff.fullJitter s.attempt turn.sample with
    | .error _ => .error (.new .invalidRetryPolicy)
    | .ok delay =>
      match (RetryDecision.retry scope reason serverDelay).delay delay with
      | none => .error error -- a retry decision always produces a delay
      | some retryDelay =>
        (budget.planRetry s.previousObservation turn.now s.attempt retryDelay).mapError fun _ => error

/-- Without a turn the last request is still under way. -/
def createWithRetry (budget : RetryBudget) (backoff : BackoffPolicy) (s : RetryState) :
    List SessionTurn → List (SessionEvent S D)
  | [] => [.requested s.attempt spec.createRequest]
  | turn :: turns =>
    .requested s.attempt spec.createRequest ::
      match create reader decodeLimit spec turn with
      | .ok lease => [.opened lease]
      | .error error =>
        match planNext budget backoff s error turn with
        | .error error => [.failed error]
        | .ok plan =>
          .retrying turn.now plan :: ((if plan.delay.isZero then [] else [.slept plan.delay]) ++
            createWithRetry budget backoff ⟨turn.now, plan.attempt⟩ turns)

/-- `RetriedSessionOpener::open`: the clock is read for the budget and once more
before the first attempt. -/
def openSession (opened unaryTimeout observed : Duration) (turns : List SessionTurn) : List (SessionEvent S D) :=
  match RetryBudget.createReadSession opened unaryTimeout with
  | .error _ => [.failed (.new .invalidRetryPolicy)]
  | .ok budget => createWithRetry reader decodeLimit spec budget .createReadSession ⟨observed, 1⟩ turns

end ReadSessionClient

-- ---------------------------------------------------------------------------
-- What an opening keeps to
-- ---------------------------------------------------------------------------

variable {N S D : Type}

namespace SessionEvent

def isRetry : SessionEvent S D → Bool
  | retrying .. => true
  | _ => false

def observe (observed : Duration) : SessionEvent S D → Duration
  | retrying now _ => now
  | _ => observed

def Terminal : SessionEvent S D → Prop
  | opened _ => True
  | failed _ => True
  | _ => False

end SessionEvent

def sessionRetries (trace : List (SessionEvent S D)) : Nat := trace.countP SessionEvent.isRetry

def sessionObserved (observed : Duration) (trace : List (SessionEvent S D)) : Duration :=
  trace.foldl SessionEvent.observe observed

def sessionBudgetEnd (opened : Duration) : Nat := opened.nanos + createReadSessionRetryWindow.nanos

structure Retried (reader : SchemaReader N S) (decodeLimit : DecodeLimit) (spec : ReadSessionSpec D)
    (opened unaryTimeout previousObservation : Duration) (attempt : Nat) (turn : SessionTurn) (now : Duration)
    (plan : RetryPlan) : Prop where
  clock : now = turn.now
  planned : ∃ budget error scope reason serverDelay backoff,
    RetryBudget.createReadSession opened unaryTimeout = .ok budget ∧
    ReadSessionClient.create reader decodeLimit spec turn = .error error ∧
    error.retryDecision = .retry scope reason serverDelay ∧
    BackoffPolicy.createReadSession.fullJitter (UInt32.ofNat attempt) turn.sample = .ok backoff ∧
    budget.Keeps (sessionBudgetEnd opened) previousObservation now attempt serverDelay backoff plan

def GivenUp (opened unaryTimeout previousObservation : Duration) (attempt : Nat) (turn : SessionTurn)
    (error : ReadSessionError) : Prop :=
  ∀ budget backoff proposed plan, RetryBudget.createReadSession opened unaryTimeout = .ok budget →
    BackoffPolicy.createReadSession.fullJitter (UInt32.ofNat attempt) turn.sample = .ok backoff →
    error.retryDecision.delay backoff = some proposed →
    budget.planRetry previousObservation turn.now (UInt32.ofNat attempt) proposed ≠ .ok plan

/-- An event of the opening, after those before it: requests are the spec's and
numbered, a retry answers a failure of the last attempt that may be retried and
keeps to the budget, a lease is the last answer's session, made for the spec,
and an error is the last attempt's, of which no retry is left, or there was no
budget. -/
def OpensSession (reader : SchemaReader N S) (decodeLimit : DecodeLimit) (spec : ReadSessionSpec D)
    (opened unaryTimeout observed : Duration) (turns : List SessionTurn) (before : List (SessionEvent S D))
    (e : SessionEvent S D) : Prop :=
  (∀ d ∈ before, ¬ d.Terminal) ∧
    match e with
    | .requested attempt request => attempt.toNat = sessionRetries before + 1 ∧ request = spec.createRequest
    | .retrying now plan => ∃ turn, turns[sessionRetries before]? = some turn ∧
      Retried reader decodeLimit spec opened unaryTimeout (sessionObserved observed before)
        (sessionRetries before + 1) turn now plan
    | .slept delay => ∃ now plan, before.getLast? = some (.retrying now plan) ∧ plan.delay = delay
    | .opened lease => ∃ turn session location schema deadline,
      turns[sessionRetries before]? = some turn ∧ turn.answer = .ok session ∧
      MadeFor reader decodeLimit spec session location schema ∧
      deadline.nanos = turn.started.nanos + guaranteedSessionLifetime.nanos ∧
      lease = session.lease spec location schema deadline
    | .failed error =>
      (before = [] ∧ error = .new .invalidRetryPolicy ∧
        ∀ budget, RetryBudget.createReadSession opened unaryTimeout ≠ .ok budget) ∨
      ∃ turn, turns[sessionRetries before]? = some turn ∧
        ReadSessionClient.create reader decodeLimit spec turn = .error error ∧
        GivenUp opened unaryTimeout (sessionObserved observed before) (sessionRetries before + 1) turn error

-- ---------------------------------------------------------------------------
-- One attempt
-- ---------------------------------------------------------------------------

variable {reader : SchemaReader N S} {decodeLimit : DecodeLimit} {spec : ReadSessionSpec D}
  {opened unaryTimeout observed : Duration} {budget : RetryBudget} {turn : SessionTurn}

theorem createReadSession_fullJitter (hattempt : 1 ≤ attempt) (sample : UInt64) :
    ∃ delay, BackoffPolicy.createReadSession.fullJitter attempt sample = .ok delay := by
  have hread : BackoffPolicy.readRows (millis 100) (secs 60) = .ok .createReadSession := rfl
  obtain ⟨cap, hcap, hnanos⟩ := BackoffPolicy.delayCap_ok hread hattempt
  have hle : cap.nanos ≤ 60000000000 := by
    rw [hnanos]
    exact BackoffPolicy.iterate_grown_le (BackoffPolicy.readRows_ok hread).2.1 _
  have hsample := sample.toNat_lt
  have hfits : cap.nanos * sample.toNat ≤ 60000000000 * 18446744073709551616 :=
    Nat.mul_le_mul hle hsample.le
  obtain ⟨delay, hdelay, -⟩ := BackoffPolicy.fullJitter_ok hcap (hfits.trans_lt (by decide))
  exact ⟨delay, hdelay⟩

theorem create_ok {lease : SessionLease S D} (h : ReadSessionClient.create reader decodeLimit spec turn = .ok lease) :
    ∃ session location schema deadline, turn.answer = .ok session ∧
      MadeFor reader decodeLimit spec session location schema ∧
      deadline.nanos = turn.started.nanos + guaranteedSessionLifetime.nanos ∧
      lease = session.lease spec location schema deadline := by
  obtain ⟨session, hsession, h⟩ := Lists.bind_eq_ok.mp h
  obtain ⟨-, h⟩ := Lists.ite_throw_ok.mp h
  obtain ⟨location, schema, deadline, hanswers, hdeadline, hlease⟩ := validateResponse_ok.mp (Lists.mapError_eq_ok.mp h)
  exact ⟨session, location, schema, deadline, Lists.mapError_eq_ok.mp hsession, hanswers,
    Duration.checkedAdd_some hdeadline, hlease⟩

/-- A plan answers an error that may be retried, and keeps to the budget. -/
theorem planNext_ok {s : RetryState} {error : ReadSessionError} {plan : RetryPlan}
    (h : ReadSessionClient.planNext budget .createReadSession s error turn = .ok plan) :
    ∃ scope reason serverDelay backoff, error.retryDecision = .retry scope reason serverDelay ∧
      BackoffPolicy.createReadSession.fullJitter s.attempt turn.sample = .ok backoff ∧
      budget.Keeps budget.effectiveDeadline.nanos s.previousObservation turn.now s.attempt.toNat serverDelay backoff
        plan := by
  unfold ReadSessionClient.planNext at h
  split at h
  · cases h
  · rename_i scope reason serverDelay hdecision
    split at h
    · cases h
    · rename_i backoff hbackoff
      split at h
      · cases h
      · rename_i retryDelay hdelay
        exact ⟨scope, reason, serverDelay, backoff, hdecision, hbackoff,
          RetryBudget.planRetry_keeps hdelay (Lists.mapError_eq_ok.mp h)⟩

/-- What is returned is the attempt's own error, when no retry of it is left. -/
theorem planNext_error {s : RetryState} {error other : ReadSessionError} (hattempt : 1 ≤ s.attempt)
    (h : ReadSessionClient.planNext budget .createReadSession s error turn = .error other) :
    other = error ∧ ∀ backoff proposed plan,
      BackoffPolicy.createReadSession.fullJitter s.attempt turn.sample = .ok backoff →
      error.retryDecision.delay backoff = some proposed →
      budget.planRetry s.previousObservation turn.now s.attempt proposed ≠ .ok plan := by
  obtain ⟨backoff, hbackoff⟩ := createReadSession_fullJitter hattempt turn.sample
  unfold ReadSessionClient.planNext at h
  rw [hbackoff] at h
  split at h
  · rename_i hdecision
    refine ⟨(Except.error.inj h).symm, fun _ proposed _ _ hdelay => ?_⟩
    rw [hdecision] at hdelay
    cases hdelay
  · rename_i scope reason serverDelay hdecision
    dsimp only at h
    split at h
    · rename_i hnone
      have hsome := RetryDecision.retry_delay_isSome scope reason serverDelay backoff
      rw [hnone] at hsome
      cases hsome
    · rename_i retryDelay hretryDelay
      cases hplan : budget.planRetry s.previousObservation turn.now s.attempt retryDelay with
      | ok plan =>
        rw [hplan] at h
        cases h
      | error kind =>
        rw [hplan] at h
        refine ⟨(Except.error.inj h).symm, fun other proposed plan hother hproposed heq => ?_⟩
        obtain rfl := Except.ok.inj (hbackoff.symm.trans hother)
        rw [hdecision, hretryDelay] at hproposed
        obtain rfl := Option.some.inj hproposed
        exact nomatch hplan.symm.trans heq

-- ---------------------------------------------------------------------------
-- All attempts
-- ---------------------------------------------------------------------------

structure Attempting (observed : Duration) (turns rest : List SessionTurn) (s : RetryState)
    (before : List (SessionEvent S D)) : Prop where
  attempt : s.attempt.toNat = sessionRetries before + 1
  observation : s.previousObservation = sessionObserved observed before
  remaining : turns.drop (sessionRetries before) = rest
  running : ∀ d ∈ before, ¬ d.Terminal

theorem Attempting.turn_eq {before : List (SessionEvent S D)} {turns rest : List SessionTurn} {s : RetryState}
    (h : Attempting observed turns (turn :: rest) s before) : turns[sessionRetries before]? = some turn := by
  have hhead := congrArg List.head? h.remaining
  rwa [List.head?_drop, List.head?_cons] at hhead

theorem Attempting.quiet {before : List (SessionEvent S D)} {turns rest : List SessionTurn} {s : RetryState}
    (h : Attempting observed turns rest s before) {e : SessionEvent S D} (hretry : e.isRetry = false)
    (hobserve : ∀ last, e.observe last = last) (hrunning : ¬ e.Terminal) :
    Attempting observed turns rest s (before ++ [e]) := by
  have hretries : sessionRetries (before ++ [e]) = sessionRetries before := by
    simp [sessionRetries, hretry]
  refine ⟨hretries ▸ h.attempt, ?_, hretries ▸ h.remaining, ?_⟩
  · rw [sessionObserved, List.foldl_append, List.foldl_cons, List.foldl_nil, hobserve]
    exact h.observation
  · exact List.forall_mem_append.mpr ⟨h.running, List.forall_mem_singleton.mpr hrunning⟩

theorem Attempting.retried {before : List (SessionEvent S D)} {turns rest : List SessionTurn} {s : RetryState}
    {plan : RetryPlan} (h : Attempting observed turns (turn :: rest) s before)
    (hplan : plan.attempt.toNat = s.attempt.toNat + 1) :
    Attempting observed turns rest ⟨turn.now, plan.attempt⟩ (before ++ [.retrying turn.now plan]) := by
  have hretries : sessionRetries (before ++ [SessionEvent.retrying turn.now plan]) = sessionRetries before + 1 := by
    simp [sessionRetries, SessionEvent.isRetry]
  refine ⟨?_, ?_, ?_, ?_⟩
  · rw [hretries, hplan, h.attempt]
  · simp [sessionObserved, SessionEvent.observe]
  · rw [hretries, ← List.drop_drop, h.remaining, List.drop_one, List.tail_cons]
  · exact List.forall_mem_append.mpr ⟨h.running, List.forall_mem_singleton.mpr id⟩

theorem createReadSession_end (h : RetryBudget.createReadSession opened unaryTimeout = .ok budget) :
    budget.effectiveDeadline.nanos = sessionBudgetEnd opened :=
  RetryBudget.effectiveDeadline_nanos h

theorem createWithRetry_opens (hbudget : RetryBudget.createReadSession opened unaryTimeout = .ok budget)
    {turns rest : List SessionTurn} {s : RetryState} {before : List (SessionEvent S D)}
    (h : Attempting observed turns rest s before) :
    Throughout.From (OpensSession reader decodeLimit spec opened unaryTimeout observed turns) before
      (ReadSessionClient.createWithRetry reader decodeLimit spec budget .createReadSession s rest) := by
  induction rest generalizing s before with
  | nil => exact ⟨⟨h.running, h.attempt, rfl⟩, trivial⟩
  | cons turn rest ih =>
    have hasked := h.quiet (e := .requested s.attempt spec.createRequest) rfl (fun _ => rfl) id
    have hturn := hasked.turn_eq
    refine ⟨⟨h.running, h.attempt, rfl⟩, ?_⟩
    cases hcreate : ReadSessionClient.create reader decodeLimit spec turn with
    | ok lease =>
      obtain ⟨session, location, schema, deadline, hsession, hanswers, hdeadline, hlease⟩ := create_ok hcreate
      exact ⟨⟨hasked.running, turn, session, location, schema, deadline, hturn, hsession, hanswers, hdeadline, hlease⟩,
        trivial⟩
    | error error =>
      have hpos : 1 ≤ s.attempt := by
        rw [UInt32.le_iff_toNat_le, h.attempt]
        exact Nat.le_add_left ..
      dsimp only
      cases hplan : ReadSessionClient.planNext budget .createReadSession s error turn with
      | error other =>
        obtain ⟨rfl, hnone⟩ := planNext_error hpos hplan
        refine ⟨⟨hasked.running, .inr ⟨turn, hturn, hcreate, fun budget' backoff proposed plan hbudget' => ?_⟩⟩, trivial⟩
        obtain rfl := Except.ok.inj (hbudget.symm.trans hbudget')
        rw [← hasked.attempt, ← hasked.observation, UInt32.ofNat_toNat]
        exact hnone backoff proposed plan
      | ok plan =>
        obtain ⟨scope, reason, serverDelay, backoff, hdecision, hbackoff, hkeeps⟩ := planNext_ok hplan
        have hnext := hasked.retried hkeeps.attempt
        refine ⟨⟨hasked.running, turn, hturn, rfl, budget, error, scope, reason, serverDelay, backoff, hbudget, hcreate,
          hdecision, ?_, ?_⟩, ?_⟩
        · rw [← hasked.attempt, UInt32.ofNat_toNat]
          exact hbackoff
        · rw [createReadSession_end hbudget, hasked.attempt, hasked.observation] at hkeeps
          exact hkeeps
        · split
          · exact ih hnext
          · exact ⟨⟨hnext.running, turn.now, plan, by simp, rfl⟩, ih (hnext.quiet rfl (fun _ => rfl) id)⟩

theorem createWithRetry_ends (reader : SchemaReader N S) (decodeLimit : DecodeLimit) (spec : ReadSessionSpec D)
    (budget : RetryBudget) (s : RetryState) (rest : List SessionTurn) :
    ∃ trace, ReadSessionClient.createWithRetry reader decodeLimit spec budget .createReadSession s rest = trace ∧
      ((sessionRetries trace = rest.length ∧ ∀ e ∈ trace, ¬ e.Terminal) ∨
        ∃ turn e, rest[sessionRetries trace]? = some turn ∧ trace.getLast? = some e ∧ e.Terminal ∧
          ∀ lease, ReadSessionClient.create reader decodeLimit spec turn = .ok lease → e = .opened lease) := by
  refine ⟨_, rfl, ?_⟩
  induction rest generalizing s with
  | nil => exact .inl ⟨rfl, List.forall_mem_singleton.mpr id⟩
  | cons turn rest ih =>
    rw [ReadSessionClient.createWithRetry]
    cases hcreate : ReadSessionClient.create reader decodeLimit spec turn with
    | ok lease =>
      refine .inr ⟨turn, .opened lease, rfl, rfl, trivial, fun other hother => ?_⟩
      rw [Except.ok.inj (hcreate.symm.trans hother)]
    | error error =>
      dsimp only
      cases ReadSessionClient.planNext budget .createReadSession s error turn with
      | error other =>
        refine .inr ⟨turn, .failed other, rfl, rfl, trivial, fun lease hlease => ?_⟩
        exact nomatch hcreate.symm.trans hlease
      | ok plan =>
        have hnext := ih ⟨turn.now, plan.attempt⟩
        dsimp only
        generalize ReadSessionClient.createWithRetry reader decodeLimit spec budget .createReadSession
          ⟨turn.now, plan.attempt⟩ rest = tail at hnext ⊢
        generalize hpause : (if plan.delay.isZero then [] else [SessionEvent.slept plan.delay]) = pause
        have hquiet : ∀ e ∈ pause, e.isRetry = false ∧ ¬ e.Terminal := by
          rw [← hpause]
          split
          · exact List.forall_mem_nil _
          · exact List.forall_mem_singleton.mpr ⟨rfl, id⟩
        have hretries : sessionRetries (.requested s.attempt spec.createRequest :: .retrying turn.now plan ::
            (pause ++ tail)) = sessionRetries tail + 1 := by
          have hpauses : pause.countP SessionEvent.isRetry = 0 :=
            List.countP_eq_zero.mpr fun e he => by simp [(hquiet e he).1]
          unfold sessionRetries
          rw [List.countP_cons_of_neg Bool.false_ne_true, List.countP_cons_of_pos rfl, List.countP_append, hpauses,
            Nat.zero_add]
        rw [hretries]
        rcases hnext with ⟨hall, hrunning⟩ | ⟨turn', e, hturn, hlast, hterminal, hopened⟩
        · refine .inl ⟨by rw [hall, List.length_cons], ?_⟩
          simp only [List.forall_mem_cons, List.forall_mem_append]
          exact ⟨id, id, fun e he => (hquiet e he).2, hrunning⟩
        · refine .inr ⟨turn', e, hturn, ?_, hterminal, hopened⟩
          have hne : tail ≠ [] := by
            rintro rfl
            cases hlast
          simp [List.getLast?_cons, List.getLast?_append, hlast]

theorem sessionRetries_lt {turns : List SessionTurn} {trace : List (SessionEvent S D)}
    (h : Throughout (OpensSession reader decodeLimit spec opened unaryTimeout observed turns) trace) :
    sessionRetries trace + 1 < 4294967296 := by
  induction trace using List.reverseRecOn with
  | nil => simp [sessionRetries]
  | append_singleton trace e ih =>
    have hbefore := ih (h.of_prefix (List.prefix_append ..))
    cases e with
    | retrying now plan =>
      obtain ⟨-, turn, -, -, budget, error, scope, reason, serverDelay, backoff, -, -, -, -, hkeeps⟩ := h.last
      have hattempt := hkeeps.attempt
      have hfits := plan.attempt.toNat_lt
      have hretries : sessionRetries (trace ++ [SessionEvent.retrying now plan]) = sessionRetries trace + 1 := by
        simp [sessionRetries, SessionEvent.isRetry]
      omega
    | _ => simpa [sessionRetries, SessionEvent.isRetry] using hbefore

/-- What happens in an opening, and how it ends. -/
theorem openSession_trace (reader : SchemaReader N S) (decodeLimit : DecodeLimit) (spec : ReadSessionSpec D)
    (opened unaryTimeout observed : Duration) (turns : List SessionTurn) :
    ∃ trace, ReadSessionClient.openSession reader decodeLimit spec opened unaryTimeout observed turns = trace ∧
      Throughout (OpensSession reader decodeLimit spec opened unaryTimeout observed turns) trace ∧
      (trace = [.failed (.new .invalidRetryPolicy)] ∧
          (∀ budget, RetryBudget.createReadSession opened unaryTimeout ≠ .ok budget) ∨
        (sessionRetries trace = turns.length ∧ ∀ e ∈ trace, ¬ e.Terminal) ∨
        ∃ turn e, turns[sessionRetries trace]? = some turn ∧ trace.getLast? = some e ∧ e.Terminal ∧
          ∀ lease, ReadSessionClient.create reader decodeLimit spec turn = .ok lease → e = .opened lease) := by
  unfold ReadSessionClient.openSession
  cases hbudget : RetryBudget.createReadSession opened unaryTimeout with
  | error kind =>
    refine ⟨_, rfl, Throughout.nil.snoc ⟨List.forall_mem_nil _, .inl ⟨rfl, rfl, fun budget heq => ?_⟩⟩,
      .inl ⟨rfl, fun budget heq => ?_⟩⟩
    · exact nomatch hbudget.symm.trans heq
    · exact nomatch heq
  | ok budget =>
    obtain ⟨trace, htrace, hends⟩ := createWithRetry_ends reader decodeLimit spec budget ⟨observed, 1⟩ turns
    have hfirst : Attempting observed turns turns ⟨observed, 1⟩ ([] : List (SessionEvent S D)) :=
      ⟨rfl, rfl, rfl, List.forall_mem_nil _⟩
    exact ⟨trace, htrace, htrace ▸ Throughout.nil.of_from (createWithRetry_opens hbudget hfirst), .inr hends⟩

/-- However the service answers and the clock runs: every request is the spec's,
numbered from one, and nothing happens behind the end. A retry answers a failure
that may be retried, waits no less than the server asked for, and fits in front
of the window's end. A lease is the session of the last answer, made for the
spec, and an error is the last attempt's, returned when no retry of it is left.
While nothing is returned every answer so far was retried, and an answer made
for the spec ends it with its lease. -/
theorem openSession_settles (reader : SchemaReader N S) (decodeLimit : DecodeLimit) (spec : ReadSessionSpec D)
    (opened unaryTimeout observed : Duration) (turns : List SessionTurn) :
    ∃ trace, ReadSessionClient.openSession reader decodeLimit spec opened unaryTimeout observed turns = trace ∧
      Throughout (OpensSession reader decodeLimit spec opened unaryTimeout observed turns) trace ∧
      sessionRetries trace + 1 < 4294967296 ∧
      ((∀ e ∈ trace, ¬ e.Terminal) → sessionRetries trace = turns.length) ∧
      ∀ turn session location schema deadline, turns[sessionRetries trace]? = some turn →
        turn.answer = .ok session → turn.started ≤ turn.received →
        MadeFor reader decodeLimit spec session location schema →
        turn.started.checkedAdd guaranteedSessionLifetime = some deadline →
        (∃ budget, RetryBudget.createReadSession opened unaryTimeout = .ok budget) →
        trace.getLast? = some (.opened (session.lease spec location schema deadline)) := by
  obtain ⟨trace, htrace, hthroughout, hends⟩ :=
    openSession_trace reader decodeLimit spec opened unaryTimeout observed turns
  refine ⟨trace, htrace, hthroughout, sessionRetries_lt hthroughout, fun hrunning => ?_, ?_⟩
  · rcases hends with ⟨rfl, -⟩ | ⟨hall, -⟩ | ⟨_, e, -, hlast, hterminal, -⟩
    · exact (hrunning _ List.mem_cons_self trivial).elim
    · exact hall
    · exact absurd hterminal (hrunning e (List.mem_of_getLast? hlast))
  · rintro turn session location schema deadline hturn hsession hclock hanswers hdeadline ⟨budget, hbudget⟩
    have hcreate : ReadSessionClient.create reader decodeLimit spec turn =
        .ok (session.lease spec location schema deadline) := by
      unfold ReadSessionClient.create
      rw [hsession]
      have hvalid := validateResponse_ok.mpr ⟨location, schema, deadline, hanswers, hdeadline, rfl⟩
      exact Lists.bind_eq_ok.mpr ⟨session, rfl, Lists.ite_throw_ok.mpr ⟨not_lt.mpr hclock,
        Lists.mapError_eq_ok.mpr hvalid⟩⟩
    rcases hends with ⟨-, hnone⟩ | ⟨hall, -⟩ | ⟨turn', e, hturn', hlast, -, hopened⟩
    · exact absurd hbudget (hnone budget)
    · rw [hall, List.getElem?_eq_none le_rfl] at hturn
      cases hturn
    · obtain rfl := Option.some.inj (hturn.symm.trans hturn')
      rw [hlast, hopened _ hcreate]

end SilkChiffon.BigQuery
