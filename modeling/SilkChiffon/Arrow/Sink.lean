import SilkChiffon.Arrow.FileRanges
import SilkChiffon.Parquet.Ingestion
import SilkChiffon.Storage.UploadTask

/-!
# The Arrow sink

`writer_task` receives record batches, cuts them to size with Arrow's
coalescer and hands the pieces to an IPC writer, which writes to the upload.
It looks at the cancellation token between any two of these. The IPC writer
is a parameter: an operation makes some writes and then goes on or reports an
error, and the first write that fails ends it.
-/

namespace SilkChiffon.Arrow.Output

open Chunking Storage
open Ingestion (Batch BatchCoalescer Buffers rowCoalescer rowCoalescer_lawful)
open Ipc (messageRoot schemaTable)

-- ---------------------------------------------------------------------------
-- The IPC writer
-- ---------------------------------------------------------------------------

/-- The writes of one operation and, unless it fails, what it returns. -/
abbrev Writes (β : Type) := List Storage.Bytes × Option β

structure IpcWriter (α : Type) where
  State : Type
  /-- The write options and the file's or stream's header. -/
  tryNew : Writes State
  write : State → Batch α → Writes State
  finish : State → Writes Unit

namespace IpcWriter

variable {W : IpcWriter α}

def writeAll (W : IpcWriter α) (ipc : W.State) : List (Batch α) → Option (Storage.Bytes × W.State)
  | [] => some ([], ipc)
  | batch :: batches => do
    let next ← (W.write ipc batch).2
    let (bytes, last) ← W.writeAll next batches
    return ((W.write ipc batch).1.flatten ++ bytes, last)

/-- The bytes of a file that holds these batches and is not finished. -/
def started (W : IpcWriter α) (batches : List (Batch α)) : Option (Storage.Bytes × W.State) := do
  let ipc ← W.tryNew.2
  let (bytes, last) ← W.writeAll ipc batches
  return (W.tryNew.1.flatten ++ bytes, last)

def encode (W : IpcWriter α) (batches : List (Batch α)) : Option Storage.Bytes := do
  let (bytes, last) ← W.started batches
  let () ← (W.finish last).2
  return bytes ++ (W.finish last).1.flatten

theorem writeAll_snoc {ipc last : W.State} (h : W.writeAll ipc batches = some (bytes, last))
    (hw : W.write last batch = (writes, some next)) :
    W.writeAll ipc (batches ++ [batch]) = some (bytes ++ writes.flatten, next) := by
  induction batches generalizing ipc bytes with
  | nil =>
    obtain ⟨rfl, rfl⟩ : [] = bytes ∧ ipc = last := by simpa [writeAll] using h
    simp [writeAll, hw]
  | cons head batches ih =>
    simp only [writeAll, Option.bind_eq_bind, Option.bind_eq_some_iff, Option.pure_def, Option.some.injEq,
      Prod.exists, Prod.mk.injEq] at h
    obtain ⟨second, hhead, rest, last, htail, rfl, rfl⟩ := h
    simp [writeAll, hhead, ih htail]

theorem started_nil {ipc : W.State} (h : W.tryNew = (writes, some ipc)) :
    W.started [] = some (writes.flatten, ipc) := by
  simp [started, writeAll, h]

theorem started_snoc {last : W.State} (h : W.started batches = some (bytes, last))
    (hw : W.write last batch = (writes, some next)) :
    W.started (batches ++ [batch]) = some (bytes ++ writes.flatten, next) := by
  simp only [started, Option.bind_eq_bind, Option.bind_eq_some_iff, Option.pure_def, Option.some.injEq,
    Prod.exists, Prod.mk.injEq] at h ⊢
  obtain ⟨ipc, hnew, bytes, last, hall, rfl, rfl⟩ := h
  exact ⟨ipc, hnew, _, _, writeAll_snoc hall hw, by simp, rfl⟩

theorem encode_of_started {last : W.State} (h : W.started batches = some (bytes, last))
    (hf : W.finish last = (writes, some ())) : W.encode batches = some (bytes ++ writes.flatten) := by
  simp [encode, h, hf]

end IpcWriter

-- ---------------------------------------------------------------------------
-- The writer task
-- ---------------------------------------------------------------------------

inductive WriteOutcome
  | completed (rowsWritten : Nat)
  | cancelled
  deriving DecidableEq

structure Config (α ε : Type) where
  coalescer : BatchCoalescer α ε
  ipc : IpcWriter α
  recordBatchSize : Nat

variable {cfg : Config α ε}

structure Writing (cfg : Config α ε) where
  coalescer : cfg.coalescer.State
  writer : cfg.ipc.State
  rowsWritten : Nat

/-- What `writer_task` does next. -/
inductive Point (cfg : Config α ε)
  | start
  | receive (w : Writing cfg)
  | push (w : Writing cfg) (batch : Batch α)
  | next (w : Writing cfg)
  | write (w : Writing cfg) (completed : Batch α)
  | finishBuffered (w : Writing cfg)
  | writeFinal (w : Writing cfg) (final : Batch α)
  | finish (w : Writing cfg)
  | done (result : Except TaskError WriteOutcome)

/-- The writes that an operation still has to make, and what it leads to. -/
structure WriterTask (cfg : Config α ε) where
  pending : List Storage.Bytes
  point : Point cfg

def WriterTask.fail : WriterTask cfg := ⟨[], .done (.error .failed)⟩

def WriterTask.cancelled : WriterTask cfg := ⟨[], .done (.ok .cancelled)⟩

/-- An operation with the IPC writer: its error is the task's. -/
def Writes.andThen (op : Writes β) (k : β → Point cfg) : WriterTask cfg where
  pending := op.1
  point := match op.2 with
    | some value => k value
    | none => .done (.error .failed)

def Point.looks : Point cfg → Bool
  | .start | .push _ _ | .write _ _ | .finishBuffered _ | .writeFinal _ _ | .finish _ => true
  | .receive _ | .next _ | .done _ => false

def Point.proceed : Point cfg → Action (Batch α) → Option (WriterTask cfg)
  | .start, .look false =>
    some (Writes.andThen cfg.ipc.tryNew fun writer =>
      .receive ⟨cfg.coalescer.new cfg.recordBatchSize, writer, 0⟩)
  | .receive w, .receive batch => some ⟨[], .push w batch⟩
  | .receive w, .ended => some ⟨[], .finishBuffered w⟩
  | .push w batch, .look false =>
    match cfg.coalescer.pushBatch w.coalescer batch with
    | .ok coalescer => some ⟨[], .next { w with coalescer }⟩
    | .error _ => some .fail
  | .next w, .work =>
    match cfg.coalescer.nextCompletedBatch w.coalescer with
    | (some completed, coalescer) => some ⟨[], .write { w with coalescer } completed⟩
    | (none, coalescer) => some ⟨[], .receive { w with coalescer }⟩
  | .write w completed, .look false =>
    some (Writes.andThen (cfg.ipc.write w.writer completed) fun writer =>
      .next { w with writer, rowsWritten := w.rowsWritten + completed.length })
  | .finishBuffered w, .look false =>
    match cfg.coalescer.finishBufferedBatch w.coalescer with
    | .error _ => some .fail
    | .ok coalescer =>
      match cfg.coalescer.nextCompletedBatch coalescer with
      | (some final, coalescer) => some ⟨[], .writeFinal { w with coalescer } final⟩
      | (none, coalescer) => some ⟨[], .finish { w with coalescer }⟩
  | .writeFinal w final, .look false =>
    some (Writes.andThen (cfg.ipc.write w.writer final) fun writer =>
      .finish { w with writer, rowsWritten := w.rowsWritten + final.length })
  | .finish w, .look false =>
    some (Writes.andThen (cfg.ipc.finish w.writer) fun _ => .done (.ok (.completed w.rowsWritten)))
  | _, _ => none

def Point.act (point : Point cfg) : Action (Batch α) → Option (WriterTask cfg)
  | .look true => if point.looks then some .cancelled else none
  | action => point.proceed action

def WriterTask.act (task : WriterTask cfg) (action : Action (Batch α)) : Option (WriterTask cfg) :=
  match task.pending, action with
  | [], action => task.point.act action
  | bytes :: pending, .wrote written => if written = bytes then some { task with pending } else none
  | bytes :: _, .writeFailed written => if written = bytes then some .fail else none
  | _ :: _, _ => none

/-- Runs on a blocking thread, where it is not interrupted. -/
def writerTask (cfg : Config α ε) : Producer (Batch α) WriteOutcome (WriterTask cfg) where
  init := ⟨[], .start⟩
  step task action next := task.act action = some next
  returns task result := task = ⟨[], .done result⟩
  preempted := False

-- ---------------------------------------------------------------------------
-- What has been written
-- ---------------------------------------------------------------------------

/-- Some pieces are in the file; `taken` have left the coalescer, and the
rest are still in it. -/
def Progress (cfg : Config α ε) (view : cfg.coalescer.State → Buffers α) (written : Storage.Bytes) (rows : List α)
    (w : Writing cfg) (taken completed : List (Batch α)) : Prop :=
  ∃ pieces rest, view w.coalescer = ⟨cfg.recordBatchSize, completed, rest⟩ ∧
    Filling cfg.recordBatchSize rows (pieces ++ taken ++ completed) rest ∧
    cfg.ipc.started pieces = some (written, w.writer) ∧ w.rowsWritten = pieces.flatten.length

def Remaining (cfg : Config α ε) (written : Storage.Bytes) (rows : List α) (w : Writing cfg) (last : List (Batch α)) :
    Prop :=
  ∃ pieces, Chunked cfg.recordBatchSize rows (pieces ++ last) ∧
    cfg.ipc.started pieces = some (written, w.writer) ∧ w.rowsWritten = pieces.flatten.length

def Complete (cfg : Config α ε) (written : Storage.Bytes) (rows : List α) (rowsWritten : Nat) : Prop :=
  rowsWritten = rows.length ∧ ∃ pieces, Chunked cfg.recordBatchSize rows pieces ∧ cfg.ipc.encode pieces = some written

/-- Every write went through, and the end of the input was seen or not. -/
structure Intact (h : History (Batch α)) (ended : Bool) : Prop where
  intact : h.intact = true
  ended : h.ended = ended

def Point.Holds (view : cfg.coalescer.State → Buffers α) (h : History (Batch α)) : Point cfg → Prop
  | .start => h = .new
  | .receive w => Intact h false ∧ Progress cfg view h.written h.received.flatten w [] []
  | .push w batch =>
    Intact h false ∧ ∃ before, h.received = before ++ [batch] ∧ Progress cfg view h.written before.flatten w [] []
  | .next w => Intact h false ∧ ∃ completed, Progress cfg view h.written h.received.flatten w [] completed
  | .write w batch => Intact h false ∧ ∃ completed, Progress cfg view h.written h.received.flatten w [batch] completed
  | .finishBuffered w => Intact h true ∧ Progress cfg view h.written h.received.flatten w [] []
  | .writeFinal w final => Intact h true ∧ Remaining cfg h.written h.received.flatten w [final]
  | .finish w => Intact h true ∧ Remaining cfg h.written h.received.flatten w []
  | .done (.ok (.completed rowsWritten)) => Intact h true ∧ Complete cfg h.written h.received.flatten rowsWritten
  | .done (.ok .cancelled) => False
  | .done (.error _) => True

def WriterTask.Holds (view : cfg.coalescer.State → Buffers α) (h : History (Batch α)) (task : WriterTask cfg) :
    Prop :=
  task.point.Holds view { h with written := h.written ++ task.pending.flatten }

-- ---------------------------------------------------------------------------
-- Every action keeps it
-- ---------------------------------------------------------------------------

section Steps

variable {view : cfg.coalescer.State → Buffers α} {h : History (Batch α)} {w : Writing cfg}

theorem holds_nil {point : Point cfg} : WriterTask.Holds view h ⟨[], point⟩ ↔ point.Holds view h := by
  simp [WriterTask.Holds]

theorem andThen_holds {op : Writes β} {k : β → Point cfg}
    (hk : ∀ value, op.2 = some value →
      (k value).Holds view { h with written := h.written ++ op.1.flatten }) :
    (op.andThen k).Holds view h := by
  obtain ⟨writes, result⟩ := op
  cases result with
  | none => trivial
  | some value => exact hk value rfl

theorem Progress.new (hC : cfg.coalescer.Lawful view) (hsize : 0 < cfg.recordBatchSize)
    (hnew : cfg.ipc.tryNew.2 = some writer) :
    Progress cfg view cfg.ipc.tryNew.1.flatten [] ⟨cfg.coalescer.new cfg.recordBatchSize, writer, 0⟩ [] [] :=
  ⟨[], [], hC.new, .nil hsize, IpcWriter.started_nil (Prod.ext rfl hnew), rfl⟩

theorem Progress.push (hC : cfg.coalescer.Lawful view) (hp : Progress cfg view written rows w [] [])
    (hpush : cfg.coalescer.pushBatch w.coalescer batch = .ok coalescer) :
    ∃ completed, Progress cfg view written (rows ++ batch) { w with coalescer } [] completed := by
  obtain ⟨pieces, rest, hview, hfill, hstarted, hrows⟩ := hp
  obtain ⟨cut, rest', hview', hflat, hfull, hlt⟩ := hC.push hpush (by rw [hview]; exact hfill.rest_lt)
  simp only [hview] at hview' hflat hfull hlt
  refine ⟨cut, pieces, rest', hview', ?_, hstarted, hrows⟩
  simpa using hfill.extend hflat hfull hlt

theorem Progress.next_some (hC : cfg.coalescer.Lawful view) (hp : Progress cfg view written rows w [] completed)
    (hnext : cfg.coalescer.nextCompletedBatch w.coalescer = (some batch, coalescer)) :
    ∃ tail, Progress cfg view written rows { w with coalescer } [batch] tail := by
  obtain ⟨pieces, rest, hview, hfill, hstarted, hrows⟩ := hp
  obtain ⟨tail, rfl, hview'⟩ := hC.next_some hview hnext
  exact ⟨tail, pieces, rest, hview', by simpa using hfill, hstarted, hrows⟩

theorem Progress.next_none (hC : cfg.coalescer.Lawful view) (hp : Progress cfg view written rows w [] completed)
    (hnext : cfg.coalescer.nextCompletedBatch w.coalescer = (none, coalescer)) :
    Progress cfg view written rows { w with coalescer } [] [] := by
  obtain ⟨pieces, rest, hview, hfill, hstarted, hrows⟩ := hp
  obtain ⟨rfl, hview'⟩ := hC.next_none hview hnext
  exact ⟨pieces, rest, hview', hfill, hstarted, hrows⟩

theorem Progress.write (hp : Progress cfg view written rows w [batch] completed)
    (hwrite : (cfg.ipc.write w.writer batch).2 = some writer) :
    Progress cfg view (written ++ (cfg.ipc.write w.writer batch).1.flatten) rows
      { w with writer, rowsWritten := w.rowsWritten + batch.length } [] completed := by
  obtain ⟨pieces, rest, hview, hfill, hstarted, hrows⟩ := hp
  refine ⟨pieces ++ [batch], rest, hview, by simpa using hfill, ?_, by simp [hrows]⟩
  exact IpcWriter.started_snoc hstarted (Prod.ext rfl hwrite)

theorem Progress.finishBuffered (hC : cfg.coalescer.Lawful view) (hp : Progress cfg view written rows w [] [])
    (hfinish : cfg.coalescer.finishBufferedBatch w.coalescer = .ok coalescer)
    (hnext : cfg.coalescer.nextCompletedBatch coalescer = (last, coalescer')) :
    Remaining cfg written rows { w with coalescer := coalescer' } last.toList := by
  obtain ⟨pieces, rest, hview, hfill, hstarted, hrows⟩ := hp
  have hview' := hC.finish hfinish
  rw [hview] at hview'
  have hhead := (hC.next (s := coalescer)).1
  rw [hnext, hview'] at hhead
  have hlast : last.toList = flush rest := by
    obtain rfl : last = _ := hhead
    by_cases hrest : rest = [] <;> simp [flush, hrest]
  refine ⟨pieces, ?_, hstarted, hrows⟩
  rw [hlast]
  simpa using hfill.flush

theorem Remaining.write (hr : Remaining cfg written rows w [batch])
    (hwrite : (cfg.ipc.write w.writer batch).2 = some writer) :
    Remaining cfg (written ++ (cfg.ipc.write w.writer batch).1.flatten) rows
      { w with writer, rowsWritten := w.rowsWritten + batch.length } [] := by
  obtain ⟨pieces, hchunked, hstarted, hrows⟩ := hr
  refine ⟨pieces ++ [batch], by simpa using hchunked, ?_, by simp [hrows]⟩
  exact IpcWriter.started_snoc hstarted (Prod.ext rfl hwrite)

theorem Remaining.finish (hr : Remaining cfg written rows w [])
    (hfinish : (cfg.ipc.finish w.writer).2 = some ()) :
    Complete cfg (written ++ (cfg.ipc.finish w.writer).1.flatten) rows w.rowsWritten := by
  obtain ⟨pieces, hchunked, hstarted, hrows⟩ := hr
  rw [List.append_nil] at hchunked
  refine ⟨?_, pieces, hchunked, IpcWriter.encode_of_started hstarted (Prod.ext rfl hfinish)⟩
  rw [hrows, hchunked.flatten]

theorem proceed_holds (hC : cfg.coalescer.Lawful view) (hsize : 0 < cfg.recordBatchSize) {point : Point cfg}
    (hh : point.Holds view h) (hadd : h.add action = some h') (hact : point.proceed action = some task) :
    task.Holds view h' := by
  unfold Point.proceed at hact
  split at hact
  next =>
    obtain rfl := Option.some.inj hadd
    obtain rfl := Option.some.inj hact
    obtain rfl : h = .new := hh
    exact andThen_holds fun writer hnew => ⟨⟨rfl, rfl⟩, Progress.new hC hsize hnew⟩
  next w batch =>
    obtain ⟨hi, hp⟩ := hh
    obtain rfl := Option.some.inj hact
    rw [History.add, hi.ended] at hadd
    obtain rfl := Option.some.inj hadd
    exact holds_nil.mpr ⟨⟨hi.intact, rfl⟩, h.received, rfl, hp⟩
  next w =>
    obtain ⟨hi, hp⟩ := hh
    obtain rfl := Option.some.inj hadd
    obtain rfl := Option.some.inj hact
    exact holds_nil.mpr ⟨⟨hi.intact, rfl⟩, hp⟩
  next w batch =>
    obtain ⟨hi, before, hreceived, hp⟩ := hh
    obtain rfl := Option.some.inj hadd
    split at hact
    next coalescer hpush =>
      obtain rfl := Option.some.inj hact
      refine holds_nil.mpr ⟨hi, ?_⟩
      rw [hreceived, List.flatten_append, List.flatten_singleton]
      exact hp.push hC hpush
    next =>
      obtain rfl := Option.some.inj hact
      trivial
  next w =>
    obtain ⟨hi, completed, hp⟩ := hh
    obtain rfl := Option.some.inj hadd
    split at hact
    next batch coalescer hnext =>
      obtain rfl := Option.some.inj hact
      exact holds_nil.mpr ⟨hi, hp.next_some hC hnext⟩
    next coalescer hnext =>
      obtain rfl := Option.some.inj hact
      exact holds_nil.mpr ⟨hi, hp.next_none hC hnext⟩
  next w batch =>
    obtain ⟨hi, completed, hp⟩ := hh
    obtain rfl := Option.some.inj hadd
    obtain rfl := Option.some.inj hact
    exact andThen_holds fun writer hwrite => ⟨⟨hi.intact, hi.ended⟩, _, hp.write hwrite⟩
  next w =>
    obtain ⟨hi, hp⟩ := hh
    obtain rfl := Option.some.inj hadd
    split at hact
    next =>
      obtain rfl := Option.some.inj hact
      trivial
    next coalescer hfinish =>
      split at hact
      next final coalescer' hnext =>
        obtain rfl := Option.some.inj hact
        exact holds_nil.mpr ⟨hi, hp.finishBuffered hC hfinish hnext⟩
      next coalescer' hnext =>
        obtain rfl := Option.some.inj hact
        exact holds_nil.mpr ⟨hi, hp.finishBuffered hC hfinish hnext⟩
  next w final =>
    obtain ⟨hi, hr⟩ := hh
    obtain rfl := Option.some.inj hadd
    obtain rfl := Option.some.inj hact
    exact andThen_holds fun writer hwrite => ⟨⟨hi.intact, hi.ended⟩, hr.write hwrite⟩
  next w =>
    obtain ⟨hi, hr⟩ := hh
    obtain rfl := Option.some.inj hadd
    obtain rfl := Option.some.inj hact
    exact andThen_holds fun _ hfinish => ⟨⟨hi.intact, hi.ended⟩, hr.finish hfinish⟩
  next => cases hact

theorem act_holds (hC : cfg.coalescer.Lawful view) (hsize : 0 < cfg.recordBatchSize) {task : WriterTask cfg}
    (hh : task.Holds view h) (hadd : h.add action = some h') (hact : task.act action = some task') :
    task'.Holds view h' := by
  unfold WriterTask.act at hact
  split at hact
  next hpending =>
    have hh : task.point.Holds view h := by
      rw [← holds_nil, ← hpending]
      exact hh
    unfold Point.act at hact
    split at hact
    next => cases hadd
    next => exact proceed_holds hC hsize hh hadd hact
  next bytes pending written hpending =>
    obtain rfl := Option.some.inj hadd
    split at hact
    next heq =>
      obtain rfl := Option.some.inj hact
      subst heq
      simpa [WriterTask.Holds, hpending] using hh
    next => cases hact
  next =>
    split at hact
    next =>
      obtain rfl := Option.some.inj hact
      trivial
    next => cases hact
  next => cases hact

/-- A task that was never cancelled completes only behind the last batch, and
with every byte of its file written. -/
theorem run_holds (hC : cfg.coalescer.Lawful view) (hsize : 0 < cfg.recordBatchSize)
    (run : (writerTask cfg).Run h task) : task.Holds view h :=
  run.keeps (I := fun h task => task.Holds view h) rfl fun _ _ _ _ _ hh hadd hact => act_holds hC hsize hh hadd hact

end Steps

-- ---------------------------------------------------------------------------
-- The sink
-- ---------------------------------------------------------------------------

/-- What `Sink::finish` reports for what the task returned. -/
def completion : WriteOutcome → Except String Nat
  | .completed rowsWritten => .ok rowsWritten
  | .cancelled => .error "Arrow writer stopped before finishing"

/-- The store is asked for an object only behind a finished file. -/
theorem asked_complete {view : cfg.coalescer.State → Buffers α}
    {t : ObjectUploadTask (Batch α) WriteOutcome (WriterTask cfg)}
    (hC : cfg.coalescer.Lawful view) (hsize : 0 < cfg.recordBatchSize)
    (h : ObjectUploadTask.Reachable s (writerTask cfg) depth .blocking t)
    (hcall : ∃ c ∈ t.upload.state.log, c.stores = true) :
    ∃ rowsWritten, t.task = .ended (.ok (.completed rowsWritten)) ∧
      Complete cfg t.upload.state.accepted.flatten t.accepted.flatten rowsWritten := by
  obtain ⟨outcome, h, task, htask, hreturned⟩ :=
    (ObjectUploadTask.reachable_sound (show WriterKind.blocking ≠ .direct from nofun) h).asked hcall
  have hholds := run_holds hC hsize hreturned.run
  rw [show task = _ from hreturned.returns, holds_nil] at hholds
  cases outcome with
  | cancelled => exact hholds.elim
  | completed rowsWritten =>
    obtain ⟨hi, hcomplete⟩ := hholds
    rw [← hreturned.handed hi.intact, (hreturned.ended hi.ended).2] at hcomplete
    exact ⟨rowsWritten, htask, hcomplete⟩

/-- Whatever the sink, the writer and the upload do when: the store is asked
for an object only when the upload has a finished file of every batch the sink
accepted, cut to the record batch size, and an object in the store is that
file. `finish` never finds the writer stopped before that: when its task and
upload succeed, the object is there, and it reports these batches' rows. -/
theorem arrow_object {view : cfg.coalescer.State → Buffers α}
    {t : ObjectUploadTask (Batch α) WriteOutcome (WriterTask cfg)}
    (hC : cfg.coalescer.Lawful view) (hsize : 0 < cfg.recordBatchSize)
    (h : ObjectUploadTask.Reachable s (writerTask cfg) depth .blocking t) :
    ((∃ c ∈ t.upload.state.log, c.stores = true) →
      ∃ pieces, Chunked cfg.recordBatchSize t.accepted.flatten pieces ∧
        cfg.ipc.encode pieces = some t.upload.state.accepted.flatten) ∧
    (∀ object, storedObject t.upload.state.log = some object → object = t.upload.state.accepted.flatten) ∧
    (∀ outcome, t.owner = .finished (.ok outcome) →
      storedObject t.upload.state.log ≠ none ∧ completion outcome = .ok t.accepted.flatten.length) := by
  have hsound := ObjectUploadTask.reachable_sound (show WriterKind.blocking ≠ .direct from nofun) h
  refine ⟨fun hcall => ?_, fun object hobject => (hsound.uploading.object hobject).2.2, fun outcome ho => ?_⟩
  · obtain ⟨-, -, -, hencoded⟩ := asked_complete hC hsize h hcall
    exact hencoded
  · obtain ⟨-, hstored, htask⟩ := hsound.finished ho
    have hstored := hstored.mp ⟨outcome, rfl⟩
    refine ⟨hstored, ?_⟩
    obtain ⟨rowsWritten, htask', hrows, -⟩ := asked_complete hC hsize h (ObjectUploadTask.stored_stores hstored)
    have hsame := (htask outcome rfl).symm.trans htask'
    cases hsame
    rw [completion, hrows]

-- ---------------------------------------------------------------------------
-- A stream of three integers
-- ---------------------------------------------------------------------------

/-- The writes of one message, metadata and body aligned to 64 bytes. -/
def messageWrites (kind header body : UInt8) (table : Storage.Bytes) (content : List Storage.Bytes) : List Storage.Bytes :=
  [[255, 255, 255, 255], [184, 0, 0, 0], (messageRoot kind header body).drop 8 ++ table, List.replicate 56 0] ++ content

/-- A record batch of one `Int32` column without nulls, whose values are below 256. -/
def int32Batch (values : Batch UInt8) : List Storage.Bytes :=
  let rows := UInt8.ofNat values.length
  let table := [10, 0, 20, 0, 8, 0, 4, 0, 16, 0, 0, 0, 12, 0, 0, 0, 16, 0, 0, 0, rows, 0, 0, 0, 0, 0, 0, 0, 28, 0, 0, 0,
    1, 0, 0, 0, rows, 0, 0, 0, 0, 0, 0, 0, 0, 0, 0, 0, 0, 0, 0, 0, 0, 0, 0, 0, 2, 0, 0, 0, 0, 0, 0, 0, 0, 0, 0, 0,
    1, 0, 0, 0, 0, 0, 0, 0, 64, 0, 0, 0, 0, 0, 0, 0, 4 * rows, 0, 0, 0, 0, 0, 0, 0]
  let data := values.flatMap fun value => [value, 0, 0, 0]
  messageWrites 3 28 128 table [255 :: List.replicate 63 0 ++ data ++ List.replicate (64 - data.length) 0]

def int32Writer : IpcWriter UInt8 where
  State := Unit
  tryNew := (messageWrites 1 24 0 schemaTable [], some ())
  write _ batch := if batch.length ≤ 2 then (int32Batch batch, some ()) else ([], none)
  finish _ := ([[255, 255, 255, 255], [0, 0, 0, 0]], some ())

def int32Config : Config UInt8 Unit := ⟨rowCoalescer UInt8 Unit, int32Writer, 2⟩

def buffering (owner : TaskOwner WriteOutcome) (sender : Bool) (queue accepted : List (Batch UInt8))
    (task : WriterTask int32Config) (written : List Storage.Bytes) :
    ObjectUploadTask (Batch UInt8) WriteOutcome (WriterTask int32Config) where
  owner
  cancelled := false
  sender
  queue
  accepted
  task := .running task
  writing := none
  upload :=
    { pc := .pollTerminal
      state :=
        { UploadState.new with
          writer := some ⟨.blocking, []⟩, receiverOpen := true, buffer := written.flatten, accepted := written } }

theorem buffering_writes {owner : TaskOwner WriteOutcome} {point : Point int32Config} {pending written : List Storage.Bytes}
    (h : ObjectUploadTask.Reachable kibibyteParts (writerTask int32Config) 1 .blocking
      (buffering owner sender queue accepted ⟨pending, point⟩ written))
    (hne : ∀ bytes ∈ pending, bytes ≠ []) (hshort : (written ++ pending).flatten.length < 1024) :
    ObjectUploadTask.Reachable kibibyteParts (writerTask int32Config) 1 .blocking
      (buffering owner sender queue accepted ⟨[], point⟩ (written ++ pending)) := by
  induction pending generalizing written with
  | nil => simpa using h
  | cons bytes pending ih =>
    rw [List.forall_mem_cons] at hne
    have hlength : written.flatten.length + bytes.length + pending.flatten.length < 1024 := by
      simpa [Nat.add_assoc] using hshort
    have hchunks : some (Writer.mk .blocking (WriterKind.blocking.chunks kibibyteParts.partSize bytes)) =
        some ⟨.blocking, [bytes]⟩ := by
      have hsplit : splitChunks kibibyteParts.partSize bytes = [bytes] :=
        splitChunks_short hne.1 (by show bytes.length ≤ 1024; omega)
      rw [WriterKind.chunks, hsplit]
    have h := h.tail (.write rfl rfl (show Producer.step _ _ (.wrote bytes) ⟨pending, point⟩ from by
      simp [writerTask, WriterTask.act]) rfl rfl)
    have h := h.tail (.send rfl rfl rfl hchunks rfl (Nat.zero_le _))
    have h := h.tail (.wrote rfl rfl (show Producer.step _ _ (.wrote bytes) ⟨pending, point⟩ from by
      simp [writerTask, WriterTask.act]) rfl)
    have h := h.tail (.uploadTask rfl (.terminalPending rfl))
    have h := h.tail (.uploadTask rfl (.receive rfl))
    have h := h.tail (.uploadTask rfl (.writeBuffered rfl rfl (by
      show written.flatten.length + bytes.length < 1024
      omega)))
    have hflatten : (written ++ [bytes]).flatten = written.flatten ++ bytes := by simp
    rw [List.append_cons written bytes pending]
    refine ih (?_) hne.2 (by simpa using hshort)
    unfold buffering
    rw [hflatten]
    exact h

def int32Stream : List Storage.Bytes :=
  messageWrites 1 24 0 schemaTable [] ++ int32Batch [1, 2] ++ int32Batch [3] ++ [[255, 255, 255, 255], [0, 0, 0, 0]]

def int32Task : ObjectUploadTask (Batch UInt8) WriteOutcome (WriterTask int32Config) where
  owner := .finished (.ok (.completed 3))
  cancelled := false
  sender := false
  queue := []
  accepted := [[1], [2, 3]]
  task := .ended (.ok (.completed 3))
  writing := none
  upload :=
    { pc := .ended (.ok true)
      state :=
        { UploadState.new with
          owner := .asked true
          terminal := .taken
          buffer := int32Stream.flatten
          accepted := int32Stream
          log := [.put int32Stream.flatten, .stored int32Stream.flatten] } }

set_option maxRecDepth 8000 in
theorem int32Task_reachable :
    ObjectUploadTask.Reachable kibibyteParts (writerTask int32Config) 1 .blocking int32Task := by
  have h : ObjectUploadTask.Reachable kibibyteParts (writerTask int32Config) 1 .blocking
    (buffering .held true [] [] ⟨[], .start⟩ []) := .refl
  have h := h.tail (.look rfl rfl rfl)
  have h := buffering_writes h (by decide) (by decide)
  have h := h.tail (.accept rfl rfl rfl (by decide) [1])
  have h := h.tail (.receive rfl rfl rfl rfl)
  have h := h.tail (.look rfl rfl rfl)
  have h := h.tail (.work rfl rfl rfl)
  have h := h.tail (.accept rfl rfl rfl (by decide) [2, 3])
  have h := h.tail (.receive rfl rfl rfl rfl)
  have h := h.tail (.look rfl rfl rfl)
  have h := h.tail (.work rfl rfl rfl)
  have h := h.tail (.look rfl rfl rfl)
  have h := buffering_writes h (by decide) (by decide)
  have h := h.tail (.work rfl rfl rfl)
  have h := h.tail (.finish rfl)
  have h := h.tail (.ended rfl rfl rfl rfl rfl)
  have h := h.tail (.look rfl rfl rfl)
  have h := h.tail (.look rfl rfl rfl)
  have h := buffering_writes h (by decide) (by decide)
  have h := h.tail (.look rfl rfl rfl)
  have h := buffering_writes h (by decide) (by decide)
  have h := h.tail (.returned rfl rfl rfl)
  have h := h.tail (.joined rfl rfl (.complete ⟨rfl, nofun⟩ nofun) rfl)
  have h := h.tail (.uploadTask rfl (.takeComplete rfl))
  have h := h.tail (.uploadTask rfl .close)
  have h := h.tail (.uploadTask rfl (.drained rfl))
  have h := h.tail (.uploadTask rfl (.completePut rfl))
  have h := h.tail (.uploadTask rfl .putOk)
  exact h.tail (.completed rfl (show ObjectUpload.completed _ = some (.ok ()) from rfl))

theorem arrow_object_integers :
    ((∃ c ∈ int32Task.upload.state.log, c.stores = true) →
      ∃ pieces, Chunked 2 int32Task.accepted.flatten pieces ∧
        int32Config.ipc.encode pieces = some int32Task.upload.state.accepted.flatten) ∧
    (∀ object, storedObject int32Task.upload.state.log = some object →
      object = int32Task.upload.state.accepted.flatten) ∧
    (∀ outcome, int32Task.owner = .finished (.ok outcome) →
      storedObject int32Task.upload.state.log ≠ none ∧ completion outcome = .ok int32Task.accepted.flatten.length) :=
  arrow_object rowCoalescer_lawful (by decide) int32Task_reachable

end SilkChiffon.Arrow.Output
