import SilkChiffon.BigQuery.Deadlines

/-!
# Sustained progress

A failure starts the backoff over when batches have been accepted for long
enough. The state remembers when progress started and compares it with the time
of the failure, so that time in which nothing was accepted counts as well.
-/

namespace SilkChiffon.BigQuery

open Arrow

variable {α M : Type}

-- ---------------------------------------------------------------------------
-- What is observed
-- ---------------------------------------------------------------------------

/-- A batch with rows was accepted, or a failure was retried and changed the
streak. A failure that ends the stream leaves no streak. -/
inductive Observation
  | accepted (now : Duration)
  | failed (now : Duration) (streak next : UInt32)
  deriving DecidableEq

/-- What a turn adds: it ends with a batch, or goes on after a retry. -/
def ReadRowsStreamState.observed (s : ReadRowsStreamState) (turn : Turn)
    (x : Reading α (ReadRowsStreamState.Progress α)) : List Observation :=
  match x.result with
  | .ok (.batch batch _) =>
    if 0 < batch.rows.length then [.accepted turn.decoding.acceptClock] else []
  | .ok (.again s') =>
    if x.emitted.any Event.isRetry then
      [.failed turn.retryClock s.failureStreak s'.failureStreak]
    else []
  | _ => []

namespace ReadRowsStream

variable (reader : Reader α M) (partition : ReadPartition)

def observed (stream : ReadRowsStream) (turn : Turn) : List Observation :=
  match stream.poll with
  | none => []
  | some s => s.observed turn (s.nextBatchTurn reader partition turn)

def historyFrom (before : List Observation) (stream : ReadRowsStream) :
    List Turn → List Observation
  | [] => before
  | turn :: turns =>
    (stream.step reader partition turn).2.historyFrom
      (before ++ stream.observed reader partition turn) turns

def history (started : Duration) (turns : List Turn) : List Observation :=
  match new partition started with
  | .error _ => []
  | .ok s => (ready s).historyFrom reader partition [] turns

end ReadRowsStream

-- ---------------------------------------------------------------------------
-- Acceptance over a span of time
-- ---------------------------------------------------------------------------

def Observation.sinceReset (times : List Duration) : Observation → List Duration
  | .accepted now => times ++ [now]
  | .failed _ streak next => if 0 < streak ∧ next = 1 then [] else times

def Observation.sinceZero (times : List Duration) : Observation → List Duration
  | .accepted now => times ++ [now]
  | .failed _ _ next => if next = 1 then [] else times

def acceptedSinceReset (history : List Observation) : List Duration :=
  history.foldl Observation.sinceReset []

def acceptedSinceZero (history : List Observation) : List Duration :=
  history.foldl Observation.sinceZero []

def Spans (least : Duration) (times : List Duration) : Prop :=
  ∃ first last, times.head? = some first ∧ times.getLast? = some last ∧
    first.nanos + least.nanos ≤ last.nanos

/-- A failure makes the streak longer, unless batches have been accepted over
long enough a span since the last reset. -/
def ResetSustained (before : List Observation) : Observation → Prop
  | .accepted _ => True
  | .failed _ streak next =>
    next.toNat = streak.toNat + 1 ∨
      next = 1 ∧ Spans sustainedAcceptedProgress (acceptedSinceReset before)

/-- A failure comes as late after the first batch accepted since the streak was
zero as acceptance has to go on for. -/
def Overdue (before : List Observation) (now : Duration) : Prop :=
  ∃ first, (acceptedSinceZero before).head? = some first ∧
    first.nanos + sustainedAcceptedProgress.nanos ≤ now.nanos

/-- No streak sees an overdue failure before batches were accepted for long
enough. -/
def Timely (before : List Observation) : Observation → Prop
  | .accepted _ => True
  | .failed now streak _ =>
    0 < streak → Overdue before now →
      Spans sustainedAcceptedProgress (acceptedSinceReset before)

def Counted (before : List Observation) : Observation → Prop
  | .accepted _ => True
  | .failed now streak next =>
    (Overdue before now → next = 1) ∧ (¬ Overdue before now → next.toNat = streak.toNat + 1)

theorem acceptedSinceZero_snoc (history : List Observation) (o : Observation) :
    acceptedSinceZero (history ++ [o]) = o.sinceZero (acceptedSinceZero history) := by
  simp [acceptedSinceZero]

theorem Counted.resetSustained_iff (h : Counted before o) :
    ResetSustained before o ↔ Timely before o := by
  cases o with
  | accepted now => exact Iff.rfl
  | failed now streak next =>
    obtain ⟨hover, hgrown⟩ := h
    constructor
    · intro h hpos hoverdue
      obtain rfl := hover hoverdue
      rcases h with hgrows | ⟨_, hspans⟩
      · have hpos : 0 < streak.toNat := UInt32.lt_iff_toNat_lt.mp hpos
        have hone : (1 : UInt32).toNat = 1 := rfl
        omega
      · exact hspans
    · intro htimely
      by_cases hoverdue : Overdue before now
      · obtain rfl := hover hoverdue
        by_cases hzero : streak = 0
        · subst hzero
          exact .inl rfl
        · exact .inr ⟨rfl, htimely (UInt32.pos_iff_ne_zero.mpr hzero) hoverdue⟩
      · exact .inl (hgrown hoverdue)

theorem ResetSustained.grows (h : ResetSustained before (.failed now streak next))
    (hfew : (acceptedSinceReset before).length ≤ 1) : next.toNat = streak.toNat + 1 := by
  rcases h with hgrows | ⟨_, first, last, hfirst, hlast, hspans⟩
  · exact hgrows
  · match htimes : acceptedSinceReset before with
    | [] => rw [htimes] at hfirst; cases hfirst
    | [time] =>
      rw [htimes] at hfirst hlast
      obtain rfl := Option.some.inj hfirst
      obtain rfl := Option.some.inj (List.getLast?_singleton.symm.trans hlast)
      have hpos : 0 < sustainedAcceptedProgress.nanos := by decide
      omega
    | _ :: _ :: _ => rw [htimes] at hfew; simp at hfew

-- ---------------------------------------------------------------------------
-- What the state knows
-- ---------------------------------------------------------------------------

/-- The state remembers the first batch accepted since the streak was zero. -/
structure Remembers (s : ReadRowsStreamState) (history : List Observation) : Prop where
  started : s.acceptedProgressStarted = (acceptedSinceZero history).head?
  rows : acceptedSinceZero history ≠ [] → 0 < s.acceptedProgressRows
  sustained : s.backoff.sustainedAcceptedProgress = sustainedAcceptedProgress

variable {reader : Reader α M} {partition : ReadPartition} {turn : Turn}
  {history : List Observation} {s s' : ReadRowsStreamState}

theorem Remembers.overdue_iff (h : Remembers s history)
    (hstarted : s.acceptedProgressStarted = some first) (helapsed : now.checkedSub first = some d) :
    (0 < s.acceptedProgressRows ∧ s.backoff.sustainedAcceptedProgress ≤ d) ↔
      Overdue history now := by
  have hhead := h.started.symm.trans hstarted
  have hnow := Duration.checkedSub_some helapsed
  rw [h.sustained, Duration.le_iff]
  constructor
  · rintro ⟨_, hle⟩
    exact ⟨first, hhead, by omega⟩
  · rintro ⟨first', hfirst', hle⟩
    obtain rfl := Option.some.inj (hhead.symm.trans hfirst')
    refine ⟨h.rows ?_, by omega⟩
    intro hnil
    rw [hnil] at hhead
    cases hhead

/-- An overdue failure makes the streak zero, and progress starts over with a
streak of zero. -/
theorem Remembers.countProgress (h : Remembers s history) (hcount : s.countProgress now = some s') :
    (Overdue history now → s'.failureStreak = 0) ∧
      (¬ Overdue history now → s'.failureStreak = s.failureStreak) ∧
      (s'.failureStreak = 0 → s'.acceptedProgressStarted = none) ∧
      (s'.failureStreak ≠ 0 → Remembers s' history) ∧ s'.backoff = s.backoff := by
  unfold ReadRowsStreamState.countProgress at hcount
  split at hcount
  · rename_i hstarted
    obtain rfl := Option.some.inj hcount
    refine ⟨?_, fun _ => rfl, fun _ => hstarted, fun _ => h, rfl⟩
    rintro ⟨first, hfirst, _⟩
    rw [← h.started, hstarted] at hfirst
    cases hfirst
  · rename_i first hstarted
    simp only [Option.bind_eq_bind, Option.bind_eq_some_iff] at hcount
    obtain ⟨d, helapsed, hcount⟩ := hcount
    have hoverdue := h.overdue_iff hstarted helapsed
    unfold BackoffPolicy.failureStreakAfterProgress at hcount
    by_cases hover : Overdue history now
    · rw [if_pos (hoverdue.mpr hover), if_pos rfl] at hcount
      obtain rfl := Option.some.inj hcount
      exact ⟨fun _ => rfl, fun hnot => absurd hover hnot, fun _ => rfl,
        fun hne => absurd rfl hne, rfl⟩
    · rw [if_neg (mt hoverdue.mp hover)] at hcount
      split at hcount
      · rename_i hzero
        obtain rfl := Option.some.inj hcount
        exact ⟨fun hyes => absurd hyes hover, fun _ => rfl, fun _ => rfl,
          fun hne => absurd hzero hne, rfl⟩
      · obtain rfl := Option.some.inj hcount
        exact ⟨fun hyes => absurd hyes hover, fun _ => rfl, fun hzero => absurd hzero ‹_›,
          fun _ => ⟨h.started, h.rows, h.sustained⟩, rfl⟩

theorem Remembers.planAttempt (h : Remembers s history)
    (hplan : s.planAttempt partition scope reason serverDelay now sample = .ok (s', plan)) :
    Counted history (.failed now s.failureStreak s'.failureStreak) ∧
      Remembers s' (history ++ [.failed now s.failureStreak s'.failureStreak]) := by
  obtain ⟨counted, hcounted, hplan⟩ := Lists.bind_eq_ok.mp hplan
  obtain ⟨next, hnext, hplan⟩ := Lists.bind_eq_ok.mp hplan
  obtain ⟨_, _, hplan⟩ := Lists.bind_eq_ok.mp hplan
  obtain ⟨_, _, hplan⟩ := Lists.bind_eq_ok.mp hplan
  obtain ⟨rfl, _⟩ := Prod.mk.inj (Except.ok.inj hplan)
  obtain ⟨hover, hkept, hzero, hremembers, hpolicy⟩ := h.countProgress (orFail_ok hcounted)
  have hnext := RetryBudget.checkedSucc_some (orFail_ok hnext)
  have hone : next = 1 ↔ counted.failureStreak = 0 := by
    rw [← UInt32.toNat_inj, ← UInt32.toNat_inj, hnext]
    simp
  refine ⟨⟨fun hyes => hone.mpr (hover hyes), fun hnot => ?_⟩, ?_⟩
  · rw [hnext, hkept hnot]
  · by_cases hreset : counted.failureStreak = 0
    · have htimes : acceptedSinceZero (history ++ [.failed now s.failureStreak next]) = [] := by
        rw [acceptedSinceZero_snoc]
        exact if_pos (hone.mpr hreset)
      refine ⟨?_, fun hne => absurd htimes hne, (congrArg _ hpolicy).trans h.sustained⟩
      rw [htimes]
      exact hzero hreset
    · have htimes : acceptedSinceZero (history ++ [.failed now s.failureStreak next]) =
          acceptedSinceZero history := by
        rw [acceptedSinceZero_snoc]
        exact if_neg (mt hone.mp hreset)
      obtain ⟨hstarted, hrows, hsustained⟩ := hremembers hreset
      refine ⟨?_, ?_, hsustained⟩
      · rw [htimes]
        exact hstarted
      · rw [htimes]
        exact hrows

-- ---------------------------------------------------------------------------
-- Turns
-- ---------------------------------------------------------------------------

def TurnRemembers (history : List Observation) (turn : Turn) (streak : UInt32)
    (events : List (Event α)) : ReadRowsStreamState.Progress α → Prop
  | .batch batch s' =>
    Remembers s' (history ++
      if 0 < batch.rows.length then [.accepted turn.decoding.acceptClock] else [])
  | .again s' =>
    if events.any Event.isRetry then
      Counted history (.failed turn.retryClock streak s'.failureStreak) ∧
        Remembers s' (history ++ [.failed turn.retryClock streak s'.failureStreak])
    else Remembers s' history
  | .finished => True

theorem TurnRemembers.prepend {progress : ReadRowsStreamState.Progress α}
    (h : TurnRemembers history turn streak events progress)
    (hquiet : before.any Event.isRetry = false) :
    TurnRemembers history turn streak (before ++ events) progress := by
  cases progress with
  | batch batch s' => exact h
  | again s' => simpa [TurnRemembers, hquiet] using h
  | finished => trivial

theorem ensures_sleep :
    (ReadRowsStreamState.sleep delay : Reading α PUnit).Ensures (fun _ _ => True)
      fun _ _ => True :=
  Emit.ensures_of_forall (fun _ _ => trivial) fun _ _ => trivial

theorem ensures_retryOrFail_again {failure : AttemptFailure} (h : Remembers s history) :
    (s.retryOrFail partition failure turn.retryClock turn.sample >>= fun s' =>
      pure (.again s') : Reading α (ReadRowsStreamState.Progress α)).Ensures
      (TurnRemembers history turn s.failureStreak) fun _ _ => True := by
  apply Emit.Ensures.bind (Q := fun events s' => events.any Event.isRetry = true ∧
    Counted history (.failed turn.retryClock s.failureStreak s'.failureStreak) ∧
    Remembers s' (history ++ [.failed turn.retryClock s.failureStreak s'.failureStreak]))
  · unfold ReadRowsStreamState.retryOrFail
    split
    · exact Emit.ensures_throw trivial
    split
    · exact Emit.ensures_throw trivial
    split
    · exact Emit.ensures_throw trivial
    · apply Emit.ensures_lift_bind _ fun _ _ => trivial
      rintro ⟨s', plan⟩ hplan
      obtain ⟨hcounted, hremembers⟩ := h.planAttempt hplan
      apply Emit.ensures_emit_bind
      apply ensures_sleep.bind
      intro events _ _
      refine Emit.ensures_pure ⟨?_, hcounted, hremembers.started, hremembers.rows,
        hremembers.sustained⟩
      rfl
  · rintro events s' ⟨hretry, hcounted, hremembers⟩
    refine Emit.ensures_pure ?_
    rw [List.append_nil, TurnRemembers, if_pos hretry]
    exact ⟨hcounted, hremembers⟩

theorem ensures_tryResize_remembers (h : Remembers s history) :
    Fallible.Ensures (s.tryResize partition answer bytes) (fun s' => Remembers s' history)
      fun _ => True :=
  Fallible.ensures_trivial.bind fun _ _ =>
    Fallible.ensures_pure ⟨h.started, h.rows, h.sustained⟩

theorem saturated_pos {rows : UInt64} (h : 0 < n) :
    0 < UInt64.ofNat (min (rows.toNat + n) 18446744073709551615) := by
  rw [UInt64.lt_iff_toNat_lt, UInt64.toNat_ofNat_of_lt' (by simp [UInt64.size])]
  simp
  omega

theorem ensures_accept_remembers {decoded : DecodedBatch α} (h : Remembers s history) :
    Fallible.Ensures (s.accept reader partition decoded now)
      (fun r => Remembers r.2 (history ++ if 0 < r.1.rows.length then [.accepted now] else []))
      fun _ => True := by
  apply Fallible.ensures_trivial.bind
  intro _ _
  apply Fallible.Ensures.bind (Q := fun projected => projected.rows.length = decoded.rowCount)
  · refine Fallible.ensures_mapError (fun projected hprojected => ?_) trivial
    rw [RecordBatch.project_ok hprojected, List.length_map, decoded.counted]
  intro projected hprojected
  apply Fallible.Ensures.bind (Q := fun output => output.rows.length = decoded.rowCount)
  · refine ensures_orFail (fun output houtput => ?_) trivial
    rw [withOutputSchema_some houtput, hprojected]
  intro output houtput
  split
  · rename_i hpos
    refine Fallible.ensures_pure ?_
    rw [houtput, if_pos hpos]
    refine ⟨?_, fun _ => saturated_pos hpos, h.sustained⟩
    rw [acceptedSinceZero_snoc, Observation.sinceZero, h.started]
    cases acceptedSinceZero history <;> rfl
  · rename_i hzero
    refine Fallible.ensures_pure ?_
    rw [houtput, if_neg hzero, List.append_nil]
    exact ⟨h.started, h.rows, h.sustained⟩

theorem ensures_decode_remembers (h : Remembers s history) :
    Fallible.Ensures (s.decode reader partition response turn.decoding)
      (fun r => match r.1 with
        | none => Remembers r.2 history
        | some batch => Remembers r.2 (history ++
            if 0 < batch.rows.length then [.accepted turn.decoding.acceptClock] else []))
      fun _ => True := by
  apply (ensures_tryResize_remembers h).bind
  intro s₁ h₁
  apply Fallible.ensures_trivial.bind
  intro _ _
  apply Fallible.ensures_trivial.bind
  intro _ _
  apply Fallible.ensures_trivial.bind
  rintro (_ | ⟨rows, upperBound⟩) _
  · exact Fallible.ensures_pure h₁
  · apply (ensures_tryResize_remembers h₁).bind
    intro s₂ h₂
    apply Fallible.ensures_trivial.bind
    intro _ _
    apply Fallible.ensures_trivial.bind
    intro decoded _
    apply (ensures_accept_remembers h₂).bind
    exact fun r hr => Fallible.ensures_pure hr

theorem ensures_awaitResponse_remembers (h : Remembers s history) :
    (s.awaitResponse reader partition stream turn).Ensures
      (TurnRemembers history turn s.failureStreak) fun _ _ => True := by
  have hagain : ∀ timeout failure, (({ s with current := none } : ReadRowsStreamState).retryOrFail
      partition failure turn.retryClock turn.sample >>= fun s' =>
        pure (.again s') : Reading α (ReadRowsStreamState.Progress α)).Ensures
      (fun events => TurnRemembers history turn s.failureStreak
        ([.awaited stream turn.waitClock timeout] ++ events)) fun _ _ => True := by
    intro timeout failure
    have hdropped : Remembers { s with current := none } history :=
      ⟨h.started, h.rows, h.sustained⟩
    exact (ensures_retryOrFail_again hdropped).mono (fun _ _ hr => hr.prepend rfl)
      fun _ _ _ => trivial
  apply Emit.ensures_lift_bind _ fun _ _ => trivial
  rintro ⟨timeout, sessionLimited⟩ _
  apply Emit.ensures_emit_bind
  split
  · apply Emit.ensures_emit_bind
    apply Fallible.ensures_lift_bind (ensures_decode_remembers h)
    rintro ⟨_ | batch, s'⟩ hs'
    · exact Emit.ensures_pure ⟨hs'.started, hs'.rows, hs'.sustained⟩
    · exact Emit.ensures_pure hs'
  · exact hagain _ _
  · exact Emit.ensures_emit_bind (Emit.ensures_pure trivial)
  · split
    · exact Emit.ensures_throw trivial
    · exact hagain _ _

theorem ensures_openStream_quiet :
    (s.openStream partition turn : Reading α _).Ensures
      (fun events _ => events.any Event.isRetry = false) fun _ _ => True := by
  unfold ReadRowsStreamState.openStream
  split
  · exact Emit.ensures_pure rfl
  · apply Emit.ensures_emit_bind
    split
    · exact Emit.ensures_emit_bind (Emit.ensures_pure rfl)
    · exact Emit.ensures_pure rfl
    · exact Emit.ensures_pure rfl

theorem ensures_nextBatchTurn_remembers (h : Remembers s history) :
    (s.nextBatchTurn reader partition turn).Ensures
      (TurnRemembers history turn s.failureStreak) fun _ _ => True := by
  unfold ReadRowsStreamState.nextBatchTurn
  split
  · exact ensures_awaitResponse_remembers h
  · apply ensures_openStream_quiet.bind
    rintro events (failure | stream) hquiet
    · exact (ensures_retryOrFail_again h).mono (fun _ _ hr => hr.prepend hquiet)
        fun _ _ _ => trivial
    · have hopened : Remembers { s with current := some stream } history :=
        ⟨h.started, h.rows, h.sustained⟩
      exact (ensures_awaitResponse_remembers hopened).mono (fun _ _ hr => hr.prepend hquiet)
        fun _ _ _ => trivial

-- ---------------------------------------------------------------------------
-- Runs
-- ---------------------------------------------------------------------------

def StreamRemembers (history : List Observation) : ReadRowsStream → Prop
  | .ready s => Remembers s history
  | .polling s => Remembers s history
  | .done => True

theorem settle_remembers {x : Reading α (ReadRowsStreamState.Progress α)}
    (h : x.Ensures (TurnRemembers history turn s.failureStreak) fun _ _ => True) :
    Throughout.From Counted history (s.observed turn x) ∧
      StreamRemembers (history ++ s.observed turn x) (ReadRowsStream.settle x).2 := by
  obtain ⟨events, result⟩ := x
  cases result with
  | error e => exact ⟨trivial, trivial⟩
  | ok progress =>
    have hturn : TurnRemembers history turn s.failureStreak events progress := h
    cases progress with
    | batch batch s' =>
      refine ⟨?_, hturn⟩
      simp only [ReadRowsStreamState.observed]
      split
      · exact ⟨trivial, trivial⟩
      · trivial
    | again s' =>
      simp only [TurnRemembers] at hturn
      simp only [ReadRowsStreamState.observed]
      split
      · rename_i hretry
        rw [if_pos hretry] at hturn
        exact ⟨⟨hturn.1, trivial⟩, hturn.2⟩
      · rename_i hquiet
        rw [if_neg hquiet] at hturn
        rw [List.append_nil]
        exact ⟨trivial, hturn⟩
    | finished => exact ⟨trivial, trivial⟩

theorem step_remembers {stream : ReadRowsStream} (h : StreamRemembers history stream) :
    Throughout.From Counted history (stream.observed reader partition turn) ∧
      StreamRemembers (history ++ stream.observed reader partition turn)
        (stream.step reader partition turn).2 := by
  cases stream with
  | ready s =>
    have hfreed : Remembers s.free history := ⟨h.started, h.rows, h.sustained⟩
    exact settle_remembers (ensures_nextBatchTurn_remembers hfreed)
  | polling s => exact settle_remembers (ensures_nextBatchTurn_remembers h)
  | done => exact ⟨trivial, trivial⟩

/-- Every failure of every run is counted as the code does. -/
theorem historyFrom_counted {stream : ReadRowsStream} {turns : List Turn}
    (h : StreamRemembers history stream) (hcounted : Throughout Counted history) :
    Throughout Counted (stream.historyFrom reader partition history turns) := by
  induction turns generalizing stream history with
  | nil => exact hcounted
  | cons turn turns ih =>
    obtain ⟨hfrom, hnext⟩ := @step_remembers _ _ reader partition turn _ stream h
    exact ih hnext (hcounted.of_from hfrom)

theorem new_remembers (h : ReadRowsStream.new partition started = .ok s) : Remembers s [] := by
  obtain ⟨policy, hpolicy, h⟩ := Lists.bind_eq_ok.mp h
  obtain ⟨_, _, h⟩ := Lists.bind_eq_ok.mp h
  obtain rfl := Except.ok.inj h
  have hpolicy := mapError_ok hpolicy
  unfold BackoffPolicy.readRows BackoffPolicy.new at hpolicy
  split at hpolicy
  · cases hpolicy
  · obtain rfl := Except.ok.inj hpolicy
    exact ⟨rfl, fun hne => absurd rfl hne, rfl⟩

theorem history_counted {turns : List Turn} :
    Throughout Counted (ReadRowsStream.history reader partition started turns) := by
  unfold ReadRowsStream.history
  cases hnew : ReadRowsStream.new partition started with
  | error e => exact Throughout.nil
  | ok s => exact historyFrom_counted (new_remembers hnew) Throughout.nil

/-- In every run the streak is only reset after sustained acceptance exactly
when no streak sees an overdue failure before. -/
theorem backoff_resets_iff (reader : Reader α M) (partition : ReadPartition) (started : Duration)
    (turns : List Turn) :
    Throughout ResetSustained (ReadRowsStream.history reader partition started turns) ↔
      Throughout Timely (ReadRowsStream.history reader partition started turns) :=
  ⟨fun h before o hp => ((history_counted before o hp).resetSustained_iff).mp (h before o hp),
    fun h before o hp => ((history_counted before o hp).resetSustained_iff).mpr (h before o hp)⟩

def turnAt (clock : Duration) (message : Awaited (Option (Except Status ReadRowsResponse))) :
    Turn where
  openClock := clock
  opened := .ready (.ok ())
  waitClock := clock
  message
  decoding := ⟨true, true, true, true, true, clock⟩
  retryClock := clock
  sample := 0

def unavailable : Status := ⟨.unavailable, some ⟨none, none⟩, none⟩

def outageTurns : List Turn :=
  [turnAt (secs 1) (.ready (some (.error unavailable))),
    turnAt (secs 2) (.ready (some (.ok (idResponse [7, 8])))),
    turnAt (secs 3) (.ready (some (.error unavailable))),
    turnAt (secs 62) (.ready (some (.error unavailable)))]

theorem history_outageTurns :
    ReadRowsStream.history byteReader idPartition (secs 0) outageTurns =
      [.failed (secs 1) 0 1, .accepted (secs 2), .failed (secs 3) 1 2, .failed (secs 62) 2 1] := by
  rfl

/-- A minute after its only batch the streak starts over. -/
theorem backoff_resets_in_outage : ¬ Throughout ResetSustained
    (ReadRowsStream.history byteReader idPartition (secs 0) outageTurns) := by
  rw [history_outageTurns]
  intro h
  have hreset := h [.failed (secs 1) 0 1, .accepted (secs 2), .failed (secs 3) 1 2]
    (.failed (secs 62) 2 1) (List.prefix_refl _)
  have hgrows := hreset.grows (by decide)
  exact absurd hgrows (by decide)

end SilkChiffon.BigQuery
