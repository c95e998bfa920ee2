import SilkChiffon.Lib.Emit
import SilkChiffon.BigQuery.Classification
import SilkChiffon.BigQuery.Payload

/-!
# ReadRows streams

One partition of a read session: response streams are opened at the accepted
offset, their responses are decoded into batches, and an attempt that fails is
retried within the budget. A `Turn` holds everything the environment decides
during one turn of the loop: clock readings, what the server answers and when
it is too late, memory admission, and whether a blocking task joined.
-/

namespace SilkChiffon.BigQuery

open Arrow

-- ---------------------------------------------------------------------------
-- Offsets and errors
-- ---------------------------------------------------------------------------

/-- A row offset as the service counts them, in a non-negative `i64`. -/
structure AcceptedOffset where
  value : Int
  nonneg : 0 ≤ value
  fits : value < 9223372036854775808
  deriving DecidableEq

namespace AcceptedOffset

def get (offset : AcceptedOffset) : Int := offset.value

def checkedAdvance (offset : AcceptedOffset) (rows : Nat) : Option AcceptedOffset :=
  if h : rows < 9223372036854775808 ∧ offset.value + rows < 9223372036854775808 then
    some ⟨offset.value + rows, Int.add_nonneg offset.nonneg (Int.natCast_nonneg rows), h.2⟩
  else none

def default : AcceptedOffset := ⟨0, by decide, by decide⟩

theorem checkedAdvance_value (h : checkedAdvance offset rows = some next) :
    next.value = offset.value + rows := by
  unfold checkedAdvance at h
  split at h
  · obtain rfl := Option.some.inj h
    rfl
  · cases h

end AcceptedOffset

def readRowsOperation : String := "storage.read-rows"

structure StreamReadError where
  operation : String
  partition : Nat
  attempt : UInt32
  acceptedOffset : AcceptedOffset
  reason : RetryReason
  deriving DecidableEq

def streamError (partition : Nat) (attempt : UInt32) (acceptedOffset : AcceptedOffset)
    (reason : RetryReason) : StreamReadError :=
  { operation := readRowsOperation, partition, attempt, acceptedOffset, reason }

-- ---------------------------------------------------------------------------
-- The partition
-- ---------------------------------------------------------------------------

inductive ResponseCompression
  | none | lz4
  deriving DecidableEq

def RowPayloadCodec.ofCompression : ResponseCompression → RowPayloadCodec
  | .none => .none
  | .lz4 => .rawLz4

structure BigQueryInputArgs where
  responseCompression : ResponseCompression
  readIdleTimeout : Duration
  readRetryWindow : Duration
  readRetryInitialBackoff : Duration
  readRetryMaxBackoff : Duration

structure ReadPartition where
  ordinal : Nat
  streamName : String
  sessionSchema : Schema
  sessionDeadline : Duration
  outputSchema : Schema
  batchProjection : List Nat
  decodeLimit : DecodeLimit
  args : BigQueryInputArgs

def ReadPartition.codec (partition : ReadPartition) : RowPayloadCodec :=
  .ofCompression partition.args.responseCompression

structure ReadRowsRequest where
  readStream : String
  offset : Int
  deriving DecidableEq

structure ResponseStream where
  request : ReadRowsRequest
  deriving DecidableEq

/-- The mutable fields; the others are the partition's. -/
structure ReadRowsStreamState where
  current : Option ResponseStream
  acceptedOffset : AcceptedOffset
  rpcAttempt : UInt32
  failureStreak : UInt32
  acceptedProgressStarted : Option Duration
  acceptedProgressRows : UInt64
  previousObservation : Duration
  backoff : BackoffPolicy
  retryBudget : RetryBudget
  reservation : Nat
  deriving DecidableEq

-- ---------------------------------------------------------------------------
-- The environment
-- ---------------------------------------------------------------------------

/-- What `timeout` returns: the awaited value, or that it came too late. -/
inductive Awaited (β : Type)
  | ready (value : β)
  | elapsed
  deriving DecidableEq

structure Decoding where
  serializedAdmitted : Bool
  permitAcquired : Bool
  prepareJoined : Bool
  decodedAdmitted : Bool
  decodeJoined : Bool
  acceptClock : Duration

structure Turn where
  openClock : Duration
  opened : Awaited (Except StorageTransportError Unit)
  waitClock : Duration
  message : Awaited (Option (Except Status ReadRowsResponse))
  decoding : Decoding
  retryClock : Duration
  sample : UInt64

inductive Event (α : Type)
  | sent (request : ReadRowsRequest) (attempt : UInt32) (now timeout : Duration)
  | connected (request : ReadRowsRequest)
  | awaited (stream : ResponseStream) (now timeout : Duration)
  | received (response : ReadRowsResponse)
  | closed
  | retrying (now : Duration) (plan : RetryPlan)
  | slept (delay : Duration)
  | emitted (batch : RecordBatch α)
  | finished
  | failed (error : StreamReadError)

abbrev Reading (α β : Type) := Emit (Event α) StreamReadError β

def orFail (error : StreamReadError) : Option β → Except StreamReadError β
  | some b => .ok b
  | none => .error error

def granted (answer : Bool) : Option Unit := if answer then some () else none

-- ---------------------------------------------------------------------------
-- The stream's operations
-- ---------------------------------------------------------------------------

namespace ReadRowsStreamState

open Emit (emit lift)

variable {α M : Type}

section

variable (partition : ReadPartition)

def error (s : ReadRowsStreamState) (reason : RetryReason) : StreamReadError :=
  streamError partition.ordinal s.rpcAttempt s.acceptedOffset reason

def deadlineReason (s : ReadRowsStreamState) : RetryReason :=
  if s.retryBudget.isSessionLimited then .sessionExpired else .retryBudgetExhausted

def waitTimeout (s : ReadRowsStreamState) (now : Duration) :
    Except RetryReason (Duration × Bool) :=
  match s.retryBudget.effectiveDeadline.checkedSub now with
  | none => .error s.deadlineReason
  | some remaining =>
    .ok (min remaining partition.args.readIdleTimeout,
      remaining ≤ partition.args.readIdleTimeout && s.retryBudget.isSessionLimited)

/-- Sustained progress since the last reset resets the streak again. -/
def countProgress (s : ReadRowsStreamState) (now : Duration) : Option ReadRowsStreamState :=
  match s.acceptedProgressStarted with
  | none => some s
  | some started => do
    let elapsed ← now.checkedSub started
    let failureStreak :=
      s.backoff.failureStreakAfterProgress s.failureStreak s.acceptedProgressRows elapsed
    if failureStreak = 0 then
      some { s with failureStreak, acceptedProgressStarted := none, acceptedProgressRows := 0 }
    else some { s with failureStreak }

def planAttempt (s : ReadRowsStreamState) (scope : RetryScope) (reason : RetryReason)
    (serverDelay : Option Duration) (now : Duration) (sample : UInt64) :
    Except StreamReadError (ReadRowsStreamState × RetryPlan) := do
  let exhausted := s.error partition .retryBudgetExhausted
  let s ← orFail exhausted (s.countProgress now)
  let failureStreak ← orFail exhausted (checkedSucc s.failureStreak)
  let s := { s with failureStreak }
  let backoff ← (s.backoff.fullJitter failureStreak sample).mapError fun _ => exhausted
  let retryDelay := ((RetryDecision.retry scope reason serverDelay).delay backoff).get
    (RetryDecision.retry_delay_isSome ..)
  let plan ← (s.retryBudget.planRetry s.previousObservation now s.rpcAttempt
    retryDelay).mapError fun _ => exhausted
  pure (s, plan)

def sleep (delay : Duration) : Reading α PUnit :=
  if delay.isZero then pure ⟨⟩ else emit (.slept delay)

def retryOrFail (s : ReadRowsStreamState) (failure : AttemptFailure) (now : Duration)
    (sample : UInt64) : Reading α ReadRowsStreamState :=
  if s.retryBudget.effectiveDeadline ≤ now then Emit.throw (s.error partition s.deadlineReason)
  else match failure with
  | .terminal reason => Emit.throw (s.error partition reason)
  | failure =>
    match failure.decision with
    | .permanent _ reason => Emit.throw (s.error partition reason)
    | .retry scope reason serverDelay => do
      let (s, plan) ← lift (s.planAttempt partition scope reason serverDelay now sample)
      emit (.retrying now plan)
      sleep plan.delay
      pure { s with previousObservation := now, rpcAttempt := plan.attempt, current := none }

def request (s : ReadRowsStreamState) : ReadRowsRequest :=
  { readStream := partition.streamName, offset := s.acceptedOffset.get }

def openStream (s : ReadRowsStreamState) (turn : Turn) :
    Reading α (Except AttemptFailure ResponseStream) :=
  match s.waitTimeout partition turn.openClock with
  | .error reason => pure (.error (.terminal reason))
  | .ok (timeout, sessionLimited) => do
    let request := s.request partition
    emit (.sent request s.rpcAttempt turn.openClock timeout)
    match turn.opened with
    | .ready (.ok _) =>
      emit (.connected request)
      pure (.ok ⟨request⟩)
    | .ready (.error error) => pure (.error (.transport error))
    | .elapsed => pure (.error (if sessionLimited then .sessionExpired else .idleTimeout))

/-- `try_resize`, when the pool grants it. -/
def tryResize (s : ReadRowsStreamState) (answer : Bool) (bytes : Nat) :
    Except StreamReadError ReadRowsStreamState := do
  orFail (s.error partition .localResource) (granted answer)
  pure { s with reservation := bytes }

def free (s : ReadRowsStreamState) : ReadRowsStreamState := { s with reservation := 0 }

end

section

variable (reader : Reader α M) (partition : ReadPartition)

/-- `RecordBatch::try_new_with_options` over projected columns, whose row count
is the decoded one. -/
def withOutputSchema (schema : Schema) (projected : RecordBatch α) : Option (RecordBatch α) :=
  if h : projected.schema.length = schema.length then
    if reader.accepts schema projected then
      some ⟨schema, projected.rows, fun row hrow => (projected.width row hrow).trans h⟩
    else none
  else none

def accept (s : ReadRowsStreamState) (decoded : DecodedBatch α) (now : Duration) :
    Except StreamReadError (RecordBatch α × ReadRowsStreamState) := do
  let nextOffset ← orFail (s.error partition .offsetOverflow)
    (s.acceptedOffset.checkedAdvance decoded.rowCount)
  let projected ← (decoded.batch.project partition.batchProjection).mapError
    fun _ => s.error partition .schema
  let output ← orFail (s.error partition .schema)
    (withOutputSchema reader partition.outputSchema projected)
  let s := { s with acceptedOffset := nextOffset }
  if 0 < decoded.rowCount then
    pure (output, { s with
      acceptedProgressStarted := some (s.acceptedProgressStarted.getD now)
      acceptedProgressRows :=
        .ofNat (min (s.acceptedProgressRows.toNat + decoded.rowCount) 18446744073709551615) })
  else pure (output, s)

def prepare (response : ReadRowsResponse) :
    Except DecodeErrorKind (Option (SerializedRows × Nat)) := do
  match ← fromResponse reader response partition.sessionSchema partition.codec
    partition.decodeLimit with
  | none => pure none
  | some rows => do
    let upperBound ← rows.memoryUpperBound reader partition.decodeLimit
    pure (some (rows, upperBound))

def decode (s : ReadRowsStreamState) (response : ReadRowsResponse) (decoding : Decoding) :
    Except StreamReadError (Option (RecordBatch α) × ReadRowsStreamState) := do
  let s ← s.tryResize partition decoding.serializedAdmitted (serializedPayloadLen response)
  orFail (s.error partition .localResource) (granted decoding.permitAcquired)
  orFail (s.error partition .decode) (granted decoding.prepareJoined)
  let prepared ← (prepare reader partition response).mapError
    fun _ => s.error partition (classifyReadRows .decode).reason
  match prepared with
  | none => pure (none, s)
  | some (rows, upperBound) =>
    let s ← s.tryResize partition decoding.decodedAdmitted upperBound
    orFail (s.error partition .decode) (granted decoding.decodeJoined)
    let decoded ← (rows.decode reader partition.sessionSchema partition.decodeLimit).mapError
      fun _ => s.error partition (classifyReadRows .decode).reason
    let (output, s) ← s.accept reader partition decoded decoding.acceptClock
    pure (some output, s)

end

-- ---------------------------------------------------------------------------
-- The loop
-- ---------------------------------------------------------------------------

/-- How one turn of the loop in `next_batch` ends, when it does not fail. -/
inductive Progress (α : Type)
  | again (s : ReadRowsStreamState)
  | batch (batch : RecordBatch α) (s : ReadRowsStreamState)
  | finished

variable (reader : Reader α M) (partition : ReadPartition)

def awaitResponse (s : ReadRowsStreamState) (stream : ResponseStream) (turn : Turn) :
    Reading α (Progress α) := do
  let (timeout, sessionLimited) ←
    lift ((s.waitTimeout partition turn.waitClock).mapError (s.error partition))
  emit (.awaited stream turn.waitClock timeout)
  match turn.message with
  | .ready (some (.ok response)) =>
    emit (.received response)
    match ← lift (s.decode reader partition response turn.decoding) with
    | (some batch, s) => pure (.batch batch s)
    | (none, s) => pure (.again s.free)
  | .ready (some (.error status)) =>
    let s := { s with current := none }
    let s ← s.retryOrFail partition (.status status) turn.retryClock turn.sample
    pure (.again s)
  | .ready none =>
    emit .closed
    pure .finished
  | .elapsed =>
    if sessionLimited then
      Emit.throw (s.error partition .sessionExpired)
    else
      let s := { s with current := none }
      let s ← s.retryOrFail partition .idleTimeout turn.retryClock turn.sample
      pure (.again s)

def nextBatchTurn (s : ReadRowsStreamState) (turn : Turn) : Reading α (Progress α) :=
  match s.current with
  | some stream => s.awaitResponse reader partition stream turn
  | none => do
    match ← s.openStream partition turn with
    | .ok stream =>
      let s := { s with current := some stream }
      s.awaitResponse reader partition stream turn
    | .error failure =>
      let s ← s.retryOrFail partition failure turn.retryClock turn.sample
      pure (.again s)

end ReadRowsStreamState

-- ---------------------------------------------------------------------------
-- The stream
-- ---------------------------------------------------------------------------

/-- `try_unfold`: between polls it holds the state, in a poll `next_batch` does,
and once it returned nothing or an error it is over. -/
inductive ReadRowsStream
  | ready (s : ReadRowsStreamState)
  | polling (s : ReadRowsStreamState)
  | done

namespace ReadRowsStream

variable {α M : Type} (reader : Reader α M) (partition : ReadPartition)

def new (started : Duration) : Except StreamReadError ReadRowsStreamState := do
  let fail := streamError partition.ordinal 1 .default .localResource
  let backoff ← (BackoffPolicy.readRows partition.args.readRetryInitialBackoff
    partition.args.readRetryMaxBackoff).mapError fun _ => fail
  let retryBudget ← (RetryBudget.readRows started partition.args.readRetryWindow 4294967295
    partition.args.readIdleTimeout (some partition.sessionDeadline)).mapError fun _ => fail
  pure {
    current := none
    acceptedOffset := .default
    rpcAttempt := 1
    failureStreak := 0
    acceptedProgressStarted := none
    acceptedProgressRows := 0
    previousObservation := started
    backoff, retryBudget
    reservation := 0 }

/-- A poll frees the last batch's memory first. -/
def poll : ReadRowsStream → Option ReadRowsStreamState
  | ready s => some s.free
  | polling s => some s
  | done => none

/-- What the stream yields and becomes after a turn. -/
def settle : Reading α (ReadRowsStreamState.Progress α) → List (Event α) × ReadRowsStream
  | ⟨events, .ok (.again s)⟩ => (events, polling s)
  | ⟨events, .ok (.batch batch s)⟩ => (events ++ [.emitted batch], ready s)
  | ⟨events, .ok .finished⟩ => (events ++ [.finished], done)
  | ⟨events, .error e⟩ => (events ++ [.failed e], done)

def step (stream : ReadRowsStream) (turn : Turn) : List (Event α) × ReadRowsStream :=
  match stream.poll with
  | none => ([], done)
  | some s => settle (s.nextBatchTurn reader partition turn)

def runFrom (before : List (Event α)) (stream : ReadRowsStream) : List Turn → List (Event α)
  | [] => before
  | turn :: turns =>
    let (events, stream) := stream.step reader partition turn
    stream.runFrom (before ++ events) turns

def run (started : Duration) (turns : List Turn) : List (Event α) :=
  match new partition started with
  | .error e => [.failed e]
  | .ok s => (ready s).runFrom reader partition [] turns

end ReadRowsStream

end SilkChiffon.BigQuery
