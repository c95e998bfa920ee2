import SilkChiffon.Parquet.Ingestion
import SilkChiffon.Storage.UploadTask

/-!
# The Vortex sink

This sink cuts batches to size itself and sends the pieces to the writer's
task, which hands them to Vortex's file writer and is stopped wherever it
waits once the token is cancelled. The file writer is a parameter, a producer
that writes whole buffers; `UploadWriter` passes them on a chunk at a time.
-/

namespace SilkChiffon.Vortex

open Chunking Storage
open Ingestion (Batch BatchCoalescer Buffers rowCoalescer rowCoalescer_lawful)

-- ---------------------------------------------------------------------------
-- The writer's task
-- ---------------------------------------------------------------------------

/-- A file that is reported as written holds all that was to be read, and is
in the writer's hands as a whole. -/
def Encodes (V : Producer (Batch α) Unit σ) (encodes : List (Batch α) → Storage.Bytes → Prop) : Prop :=
  ∀ h p, V.Run h p → V.returns p (.ok ()) → h.ended = true ∧ h.intact = true ∧ encodes h.received h.written

/-- The file writer, and the buffer it waits for with the chunks that are
left of it. -/
structure FileWriter (σ : Type) where
  codec : σ
  buffer : Option (Storage.Bytes × List Storage.Bytes)

/-- `UploadWriter::write_all` under the file writer. -/
inductive WriteStep (partSize : Nat) (V : Producer (Batch α) Unit σ) :
    FileWriter σ → Action (Batch α) → FileWriter σ → Prop
  | work (h : V.step p .work p') : WriteStep partSize V ⟨p, buffer⟩ .work ⟨p', buffer⟩
  | receive (h : V.step p (.receive batch) p') :
      WriteStep partSize V ⟨p, buffer⟩ (.receive batch) ⟨p', buffer⟩
  | ended (h : V.step p .ended p') : WriteStep partSize V ⟨p, buffer⟩ .ended ⟨p', buffer⟩
  | writeAll (bytes : Storage.Bytes) :
      WriteStep partSize V ⟨p, none⟩ .work ⟨p, some (bytes, splitChunks partSize bytes)⟩
  | sent : WriteStep partSize V ⟨p, some (bytes, chunk :: chunks)⟩ (.wrote chunk) ⟨p, some (bytes, chunks)⟩
  | wroteAll (h : V.step p (.wrote bytes) p') : WriteStep partSize V ⟨p, some (bytes, [])⟩ .work ⟨p', none⟩
  | stopped (h : V.step p (.writeFailed bytes) p') :
      WriteStep partSize V ⟨p, some (bytes, chunk :: chunks)⟩ (.writeFailed chunk) ⟨p', none⟩

/-- `write_file`, run until it is cancelled. -/
def writeFile (partSize : Nat) (V : Producer (Batch α) Unit σ) : Producer (Batch α) Unit (FileWriter σ) where
  init := ⟨V.init, none⟩
  step := WriteStep partSize V
  returns w result := w.buffer = none ∧ V.returns w.codec result
  preempted := True

structure Writing (V : Producer (Batch α) Unit σ) (h : History (Batch α)) (w : FileWriter σ) (inner : History (Batch α)) :
    Prop where
  run : V.Run inner w.codec
  received : inner.received = h.received
  ended : inner.ended = h.ended
  intact : inner.intact = h.intact
  written : h.intact = true →
    h.written ++ (w.buffer.map fun buffer => buffer.2.flatten).getD [] =
      inner.written ++ (w.buffer.map Prod.fst).getD []

theorem run_writing (hpos : 0 < partSize) (run : (writeFile partSize V).Run h w) : ∃ inner, Writing V h w inner := by
  refine run.keeps (I := fun h w => ∃ inner, Writing V h w inner) ⟨.new, .init, rfl, rfl, rfl, fun _ => rfl⟩ ?_
  rintro h w action h' w' ⟨inner, hw⟩ hadd hstep
  cases hstep with
  | work hp =>
    obtain rfl := Option.some.inj hadd
    exact ⟨inner, .step hw.run rfl hp, hw.received, hw.ended, hw.intact, hw.written⟩
  | @receive _ batch _ _ hp =>
    rw [History.add] at hadd
    split at hadd
    next => cases hadd
    next hopen =>
      obtain rfl := Option.some.inj hadd
      have hopen : inner.ended = false := hw.ended.trans (Bool.eq_false_iff.mpr hopen)
      refine ⟨{ inner with received := inner.received ++ [batch] }, .step hw.run (by simp [History.add, hopen]) hp, ?_,
        hw.ended, hw.intact, hw.written⟩
      show inner.received ++ [batch] = h.received ++ [batch]
      rw [hw.received]
  | ended hp =>
    obtain rfl := Option.some.inj hadd
    exact ⟨{ inner with ended := true }, .step hw.run rfl hp, hw.received, rfl, hw.intact, hw.written⟩
  | writeAll bytes =>
    obtain rfl := Option.some.inj hadd
    refine ⟨inner, hw.run, hw.received, hw.ended, hw.intact, fun hi => ?_⟩
    simpa [flatten_splitChunks hpos] using hw.written hi
  | sent =>
    obtain rfl := Option.some.inj hadd
    refine ⟨inner, hw.run, hw.received, hw.ended, hw.intact, fun hi => ?_⟩
    simpa using hw.written hi
  | wroteAll hp =>
    obtain rfl := Option.some.inj hadd
    refine ⟨{ inner with written := inner.written ++ _ }, .step hw.run rfl hp, hw.received, hw.ended, hw.intact, fun hi => ?_⟩
    simpa using hw.written hi
  | stopped hp =>
    obtain rfl := Option.some.inj hadd
    exact ⟨{ inner with intact := false }, .step hw.run rfl hp, hw.received, hw.ended, rfl, fun hi => by cases hi⟩

-- ---------------------------------------------------------------------------
-- The sink
-- ---------------------------------------------------------------------------

structure Config (α ε : Type) where
  coalescer : BatchCoalescer α ε
  recordBatchSize : Nat

variable {cfg : Config α ε}

/-- Where a call on the sink is. `ending` tells the flush of `finish` from
that of `write_batch`. -/
inductive Phase (α : Type)
  | ready
  | flush (ending : Bool)
  | send (ending : Bool) (batch : Batch α)
  /-- `finish` failed before it closed the channel. -/
  | failed
  | close
  | finished
  | released

structure Sink (cfg : Config α ε) (σ : Type) where
  coalescer : cfg.coalescer.State
  rowsWritten : Nat
  phase : Phase α
  task : ObjectUploadTask (Batch α) Unit (FileWriter σ)
  /-- The rows of every batch the coalescer took. -/
  pushed : List α
  /-- No `write_batch` failed, and none was dropped before it returned. -/
  unbroken : Bool

namespace Sink

def create (cfg : Config α ε) (partSize : Nat) (V : Producer (Batch α) Unit σ) : Sink cfg σ where
  coalescer := cfg.coalescer.new cfg.recordBatchSize
  rowsWritten := 0
  phase := .ready
  task := .spawn .sink (writeFile partSize V)
  pushed := []
  unbroken := true

/-- One access of the sink's own calls to what it shares with its task, or a
step of the task. -/
inductive Step (s : ObjectUploadSettings) (V : Producer (Batch α) Unit σ) (depth : Nat) (sink : Sink cfg σ) :
    Sink cfg σ → Prop
  -- `write_batch`
  | push (hp : sink.phase = .ready) (h : cfg.coalescer.pushBatch sink.coalescer batch = .ok c) :
      Step s V depth sink { sink with coalescer := c, pushed := sink.pushed ++ batch, phase := .flush false }
  | pushFailed (hp : sink.phase = .ready) (h : cfg.coalescer.pushBatch sink.coalescer batch = .error e)
      (c : cfg.coalescer.State) : Step s V depth sink { sink with coalescer := c, unbroken := false }
  -- `flush_completed_batches`
  | next (hp : sink.phase = .flush ending)
      (h : cfg.coalescer.nextCompletedBatch sink.coalescer = (some batch, c)) :
      Step s V depth sink { sink with coalescer := c, phase := .send ending batch }
  | send (hp : sink.phase = .send ending batch) (ho : sink.task.owner = .held) (hs : sink.task.sender = true)
      (ht : sink.task.task = .running p) (hc : sink.task.cancelled = false) (hq : sink.task.queue.length < depth) :
      Step s V depth sink
        { sink with
          rowsWritten := sink.rowsWritten + batch.length
          phase := .flush ending
          task :=
            { sink.task with
              queue := sink.task.queue ++ [batch]
              accepted := sink.task.accepted ++ [batch] } }
  | sendFailed (hp : sink.phase = .send ending batch) :
      Step s V depth sink { sink with phase := if ending then .failed else .ready, unbroken := false }
  | flushed (hp : sink.phase = .flush ending)
      (h : cfg.coalescer.nextCompletedBatch sink.coalescer = (none, c)) :
      Step s V depth sink { sink with coalescer := c, phase := if ending then .close else .ready }
  -- `finish`
  | finishBuffered (hp : sink.phase = .ready)
      (h : cfg.coalescer.finishBufferedBatch sink.coalescer = .ok c) :
      Step s V depth sink { sink with coalescer := c, phase := .flush true }
  | finishFailed (hp : sink.phase = .ready) (h : cfg.coalescer.finishBufferedBatch sink.coalescer = .error e) :
      Step s V depth sink { sink with phase := .failed }
  | close (hp : sink.phase = .close) (ho : sink.task.owner = .held) :
      Step s V depth sink
        { sink with phase := .finished, task := { sink.task with sender := false, owner := .finishing } }
  -- `cancel_writer`, by `abort_unfinished` or by dropping the sink
  | cancel (ho : sink.task.owner = .held) (how : Release) :
      Step s V depth sink
        { sink with phase := .released, task := { sink.task with cancelled := true, owner := .cancelling how } }
  | task (h : ObjectUploadTask.Step s (writeFile s.partSize V) depth sink.task t)
      (hheld : sink.task.owner = .held → t.owner = .held ∧ t.accepted = sink.task.accepted) :
      Step s V depth sink { sink with task := t }

/-- Where the sink, the file writer and the upload can get to in any
interleaving. -/
def Reachable (s : ObjectUploadSettings) (V : Producer (Batch α) Unit σ) (depth : Nat) (sink : Sink cfg σ) : Prop :=
  Relation.ReflTransGen (Step s V depth) (create cfg s.partSize V) sink

end Sink

-- ---------------------------------------------------------------------------
-- The task under the sink
-- ---------------------------------------------------------------------------

def leaving : TaskOwner ρ → Bool
  | .cancelling _ | .closing _ | .releasing (.abort _) | .releasing .drop | .awaiting (.abort _) _
  | .awaiting .drop _ | .aborted _ | .dropped => true
  | _ => false

theorem step_leaving {t t' : ObjectUploadTask α ρ σ} (h : ObjectUploadTask.Step s P depth t t')
    (hl : leaving t.owner = true) (hidle : t.upload.state.owner.hasAsked = false) :
    leaving t'.owner = true ∧ t'.upload.state.owner.hasAsked = false := by
  cases h with
  | accept ho | finish ho | cancel ho | joined ho | joinFailed ho | completed ho | dropFinish ho | dropComplete ho =>
    rw [ho] at hl
    cases hl
  | close | abort | drop | aborted | dropCleanup => exact ⟨rfl, hidle⟩
  | cancelUpload _ _ hu => exact ⟨hl, congrArg Owner.hasAsked hu⟩
  | @releaseUpload why _ _ ho _ hu =>
    rw [ho] at hl
    refine ⟨?_, congrArg Owner.hasAsked hu⟩
    cases why with
    | failed => cases hl
    | abort | drop => rfl
  | failed ho =>
    rw [ho] at hl
    cases hl
  | uploadTask hu h =>
    rw [hu] at hidle
    exact ⟨hl, by rw [taskStep_owner h]; exact hidle⟩
  | uploadPart hu h =>
    rw [hu] at hidle
    exact ⟨hl, by rw [(ObjectUploadTask.partStep_writer h).1]; exact hidle⟩
  | write _ _ _ hu | send _ _ hu | writeFailed _ _ _ hu =>
    rw [hu] at hidle
    exact ⟨hl, hidle⟩
  | _ => exact ⟨hl, hidle⟩

theorem step_accepted {t t' : ObjectUploadTask α ρ σ} (h : ObjectUploadTask.Step s P depth t t')
    (ho : t.owner ≠ .held) : t'.accepted = t.accepted := by
  cases h with
  | accept hheld => exact absurd hheld ho
  | _ => rfl

namespace Sink

variable {view : cfg.coalescer.State → Buffers α} {sink sink' : Sink cfg σ}

theorem step_task (h : Step s V depth sink sink') :
    sink'.task = sink.task ∨
      ObjectUploadTask.Step s (writeFile s.partSize V) depth sink.task sink'.task := by
  cases h with
  | send _ ho hs ht _ hq => exact .inr (.accept ho hs ht hq _)
  | close _ ho => exact .inr (.finish ho)
  | cancel ho how => exact .inr (.cancel ho how)
  | task h => exact .inr h
  | _ => exact .inl rfl

theorem reachable_task (h : Reachable s V depth sink) :
    ObjectUploadTask.Reachable s (writeFile s.partSize V) depth .sink sink.task := by
  induction h with
  | refl => exact .refl
  | tail _ step ih =>
    rcases step_task step with heq | hstep
    · rwa [heq]
    · exact ih.tail hstep

structure Owned (sink : Sink cfg σ) : Prop where
  calling : sink.phase ≠ .finished → sink.phase ≠ .released → sink.task.owner = .held
  released : sink.phase = .released →
    leaving sink.task.owner = true ∧ sink.task.upload.state.owner.hasAsked = false

theorem Owned.held {p : Phase α} (ho : Owned sink) (hp : sink.phase = p) (h : p ≠ .finished)
    (h' : p ≠ .released) : sink.task.owner = .held :=
  ho.calling (hp ▸ h) (hp ▸ h')

theorem step_owned (h : Step s V depth sink sink') (ho : Owned sink)
    (hidle : sink.task.owner = .held → sink.task.upload.state.owner.hasAsked = false) : Owned sink' := by
  cases h with
  | push hp | pushFailed hp | next hp | finishBuffered hp | finishFailed hp =>
    exact ⟨fun _ _ => ho.held hp nofun nofun, fun h => by simp_all⟩
  | send _ hheld => exact ⟨fun _ _ => hheld, nofun⟩
  | @sendFailed ending _ hp | @flushed ending _ hp =>
    refine ⟨fun _ _ => ho.held hp nofun nofun, fun h => ?_⟩
    cases ending <;> cases h
  | close => exact ⟨fun h => absurd rfl h, nofun⟩
  | cancel hheld => exact ⟨fun _ h => absurd rfl h, fun _ => ⟨rfl, hidle hheld⟩⟩
  | task h hheld =>
    refine ⟨fun hf hr => (hheld (ho.calling hf hr)).1, fun hr => ?_⟩
    obtain ⟨hl, hidle⟩ := ho.released hr
    exact step_leaving h hl hidle

theorem task_accepted {t : ObjectUploadTask (Batch α) Unit (FileWriter σ)}
    (h : ObjectUploadTask.Step s (writeFile s.partSize V) depth sink.task t)
    (hheld : sink.task.owner = .held → t.owner = .held ∧ t.accepted = sink.task.accepted) :
    t.accepted = sink.task.accepted := by
  by_cases ho : sink.task.owner = .held
  · exact (hheld ho).2
  · exact step_accepted h ho

/-- `rows_written` counts what the channel took, whatever else failed. -/
theorem step_rows (h : Step s V depth sink sink')
    (hrows : sink.rowsWritten = sink.task.accepted.flatten.length) :
    sink'.rowsWritten = sink'.task.accepted.flatten.length := by
  cases h with
  | send => simp [hrows]
  | task h hheld => exact hrows.trans (by rw [task_accepted h hheld])
  | _ => exact hrows

-- ---------------------------------------------------------------------------
-- What is sent
-- ---------------------------------------------------------------------------

/-- The pieces cut so far; all of them once `finish` has asked for the rest. -/
def Cut (n : Nat) (rows : List α) (pieces : List (Batch α)) (rest : Batch α) : Bool → Prop
  | false => Filling n rows pieces rest
  | true => Chunked n rows pieces ∧ rest = []

def Cutting (cfg : Config α ε) (view : cfg.coalescer.State → Buffers α) (sink : Sink cfg σ) (ending : Bool)
    (taken : List (Batch α)) : Prop :=
  ∃ completed rest, view sink.coalescer = ⟨cfg.recordBatchSize, completed, rest⟩ ∧
    Cut cfg.recordBatchSize sink.pushed (sink.task.accepted ++ taken ++ completed) rest ending

def Sent (view : cfg.coalescer.State → Buffers α) (sink : Sink cfg σ) : Prop :=
  match sink.phase with
  | .ready =>
    ∃ rest, view sink.coalescer = ⟨cfg.recordBatchSize, [], rest⟩ ∧
      Filling cfg.recordBatchSize sink.pushed sink.task.accepted rest
  | .flush ending => Cutting cfg view sink ending []
  | .send ending batch => Cutting cfg view sink ending [batch]
  | .close => Chunked cfg.recordBatchSize sink.pushed sink.task.accepted
  | .finished => Chunked cfg.recordBatchSize sink.pushed sink.task.accepted
  | _ => True

theorem step_sent (hC : cfg.coalescer.Lawful view) (h : Step s V depth sink sink')
    (hsent : sink.unbroken = true → Sent view sink) : sink'.unbroken = true → Sent view sink' := by
  intro hu
  cases h with
  | push hp hpush =>
    have hsent := hsent hu
    rw [Sent, hp] at hsent
    obtain ⟨rest, hview, hfill⟩ := hsent
    obtain ⟨cut, rest', hview', hflat, hfull, hlt⟩ := hC.push hpush (by rw [hview]; exact hfill.rest_lt)
    simp only [hview] at hview' hflat hfull hlt
    refine ⟨cut, rest', hview', ?_⟩
    show Filling _ _ (sink.task.accepted ++ [] ++ cut) rest'
    rw [List.append_nil]
    exact hfill.extend hflat hfull hlt
  | pushFailed => cases hu
  | next hp hnext =>
    have hsent := hsent hu
    rw [Sent, hp] at hsent
    obtain ⟨completed, rest, hview, hcut⟩ := hsent
    obtain ⟨tail, rfl, hview'⟩ := hC.next_some hview hnext
    exact ⟨tail, rest, hview', by simpa using hcut⟩
  | send hp =>
    have hsent := hsent hu
    rw [Sent, hp] at hsent
    obtain ⟨completed, rest, hview, hcut⟩ := hsent
    exact ⟨completed, rest, hview, by simpa using hcut⟩
  | sendFailed => cases hu
  | @flushed ending _ hp hnext =>
    have hsent := hsent hu
    rw [Sent, hp] at hsent
    obtain ⟨completed, rest, hview, hcut⟩ := hsent
    obtain ⟨rfl, hview'⟩ := hC.next_none hview hnext
    rw [List.append_nil, List.append_nil] at hcut
    cases ending with
    | false => exact ⟨rest, hview', hcut⟩
    | true => exact hcut.1
  | finishBuffered hp hfinish =>
    have hsent := hsent hu
    rw [Sent, hp] at hsent
    obtain ⟨rest, hview, hfill⟩ := hsent
    have hview' := hC.finish hfinish
    rw [hview] at hview'
    exact ⟨_, _, hview', by simpa using hfill.flush, rfl⟩
  | finishFailed => trivial
  | close hp =>
    have hsent := hsent hu
    rwa [Sent, hp] at hsent
  | cancel => trivial
  | @task t h hheld =>
    have hsame := task_accepted h hheld
    simpa only [Sent, Cutting, hsame] using hsent hu

-- ---------------------------------------------------------------------------
-- Every interleaving
-- ---------------------------------------------------------------------------

theorem reachable_owned (h : Reachable s V depth sink) : Owned sink := by
  induction h with
  | refl => exact ⟨fun _ _ => rfl, nofun⟩
  | tail run step ih =>
    refine step_owned step ih fun hheld => ?_
    have hknows := (ObjectUploadTask.reachable_sound (by decide) (reachable_task run)).knows
    rwa [hheld] at hknows

theorem reachable_rows (h : Reachable s V depth sink) :
    sink.rowsWritten = sink.task.accepted.flatten.length := by
  induction h with
  | refl => rfl
  | tail _ step ih => exact step_rows step ih

theorem reachable_sent (hC : cfg.coalescer.Lawful view) (hsize : 0 < cfg.recordBatchSize)
    (h : Reachable s V depth sink) : sink.unbroken = true → Sent view sink := by
  induction h with
  | refl => exact fun _ => ⟨[], hC.new, .nil hsize⟩
  | tail _ step ih => exact step_sent hC step ih

/-- The store is asked for an object only behind a `finish` that closed the
channel. -/
theorem asked_finished (h : Reachable s V depth sink)
    (hcall : ∃ c ∈ sink.task.upload.state.log, c.stores = true) : sink.phase = .finished := by
  have hsound := ObjectUploadTask.reachable_sound (by decide) (reachable_task h)
  have howned := reachable_owned h
  have hidle : sink.task.upload.state.owner.hasAsked ≠ false := by
    simp [hsound.uploading.lifecycle.asked (.inr (.inr hcall))]
  by_contra hf
  by_cases hr : sink.phase = .released
  · exact hidle (howned.released hr).2
  · have hknows := hsound.knows
    rw [howned.calling hf hr] at hknows
    exact hidle hknows

theorem asked_encodes (hV : Encodes V encodes) (h : Reachable s V depth sink)
    (hcall : ∃ c ∈ sink.task.upload.state.log, c.stores = true) :
    encodes sink.task.accepted sink.task.upload.state.accepted.flatten := by
  obtain ⟨_, h, w, -, hreturned⟩ :=
    (ObjectUploadTask.reachable_sound (by decide) (reachable_task h)).asked hcall
  obtain ⟨inner, hw⟩ := run_writing s.partSize_pos hreturned.run
  obtain ⟨hidle, hreturns⟩ := hreturned.returns
  obtain ⟨hended, hintact, hencodes⟩ := hV _ _ hw.run hreturns
  have hintact : h.intact = true := hw.intact.symm.trans hintact
  have hbytes : h.written = inner.written := by simpa [hidle] using hw.written hintact
  rwa [hreturned.handed hintact, hbytes, ← (hreturned.ended (hw.ended.symm.trans hended)).2, ← hw.received]

/-- Whatever the sink, the writer and the upload do when: the store is asked
for an object only when the upload has a finished file of the batches that were
sent, and an object in the store is that file. These batches' rows are what
`finish` reports, and when no `write_batch` failed before, they are all the
rows the sink was given, in order, cut to the record batch size. -/
theorem vortex_object (hC : cfg.coalescer.Lawful view) (hsize : 0 < cfg.recordBatchSize)
    (hV : Encodes V encodes) (h : Reachable s V depth sink) :
    ((∃ c ∈ sink.task.upload.state.log, c.stores = true) →
      encodes sink.task.accepted sink.task.upload.state.accepted.flatten ∧
        sink.rowsWritten = sink.task.accepted.flatten.length ∧
        (sink.unbroken = true → Chunked cfg.recordBatchSize sink.pushed sink.task.accepted)) ∧
    (∀ object, storedObject sink.task.upload.state.log = some object →
      object = sink.task.upload.state.accepted.flatten) ∧
    (sink.task.owner = .finished (.ok ()) → storedObject sink.task.upload.state.log ≠ none) := by
  have hsound := ObjectUploadTask.reachable_sound (by decide) (reachable_task h)
  refine ⟨fun hcall => ⟨asked_encodes hV h hcall, reachable_rows h, fun hu => ?_⟩,
    fun object hobject => (hsound.uploading.object hobject).2.2, fun ho => (hsound.finished ho).2.1.mp ⟨(), rfl⟩⟩
  have hsent := reachable_sent hC hsize h hu
  rwa [Sent, asked_finished h hcall] at hsent

/-- Where a file writer is that writes one segment for each batch. -/
inductive SegmentFile
  | opening
  | reading (batches : List (Batch UInt8))
  | segment (batches : List (Batch UInt8)) (batch : Batch UInt8)
  | closing (batches : List (Batch UInt8))
  | written (batches : List (Batch UInt8))

def magic : Storage.Bytes := [86, 84, 88, 70]

def segmentMap (offset : Nat) : List (Batch UInt8) → Storage.Bytes
  | [] => []
  | batch :: batches =>
    [UInt8.ofNat offset, 0, 0, 0, 0, 0, 0, 0, UInt8.ofNat batch.length, 0, 0, 0] ++ segmentMap (offset + batch.length) batches

def footer (batches : List (Batch UInt8)) : Storage.Bytes :=
  segmentMap 4 batches ++ [1, 0, UInt8.ofNat (12 * batches.length), 0] ++ magic

def SegmentFile.step : SegmentFile → Action (Batch UInt8) → SegmentFile → Prop
  | opening, .wrote bytes, p => bytes = magic ∧ p = reading []
  | reading batches, .receive batch, p => p = segment batches batch
  | segment batches batch, .wrote bytes, p => bytes = batch ∧ p = reading (batches ++ [batch])
  | reading batches, .ended, p => p = closing batches
  | closing batches, .wrote bytes, p => bytes = footer batches ∧ p = written batches
  | _, _, _ => False

def segmentFile : Producer (Batch UInt8) Unit SegmentFile where
  init := .opening
  step := SegmentFile.step
  returns p result := ∃ batches, p = .written batches ∧ result = .ok ()
  preempted := True

def SegmentFile.Wrote (h : History (Batch UInt8)) : SegmentFile → Prop
  | opening => h = ⟨[], false, [], true⟩
  | reading batches => h = ⟨batches, false, magic ++ batches.flatten, true⟩
  | segment batches batch => h = ⟨batches ++ [batch], false, magic ++ batches.flatten, true⟩
  | closing batches => h = ⟨batches, true, magic ++ batches.flatten, true⟩
  | written batches => h = ⟨batches, true, magic ++ batches.flatten ++ footer batches, true⟩

theorem segmentFile_encodes :
    Encodes segmentFile fun batches object => object = magic ++ batches.flatten ++ footer batches := by
  have hrun : ∀ h p, segmentFile.Run h p → SegmentFile.Wrote h p := by
    intro h p run
    refine run.keeps (I := SegmentFile.Wrote) (show SegmentFile.Wrote .new .opening from rfl) ?_
    intro h p action h' p' hw hadd hstep
    have hstep : SegmentFile.step p action p' := hstep
    unfold SegmentFile.step at hstep
    split at hstep
    next =>
      obtain rfl := hw
      obtain ⟨rfl, rfl⟩ := hstep
      exact (Option.some.inj hadd).symm
    next =>
      obtain rfl := hw
      obtain rfl := hstep
      exact (Option.some.inj hadd).symm
    next batches batch bytes _ =>
      obtain rfl := hw
      obtain ⟨rfl, rfl⟩ := hstep
      obtain rfl := Option.some.inj hadd
      simp [SegmentFile.Wrote]
    next =>
      obtain rfl := hw
      obtain rfl := hstep
      exact (Option.some.inj hadd).symm
    next =>
      obtain rfl := hw
      obtain ⟨rfl, rfl⟩ := hstep
      exact (Option.some.inj hadd).symm
    next => exact hstep.elim
  rintro h p run ⟨batches, rfl, -⟩
  obtain rfl := hrun _ _ run
  exact ⟨rfl, rfl, rfl⟩

def pairsConfig : Config UInt8 Unit := ⟨rowCoalescer UInt8 Unit, 2⟩

/-- The task behind a closed sink while the upload has nothing but its buffer. -/
def buffering (queue : List (Batch UInt8)) (codec : SegmentFile) (written : List Storage.Bytes) :
    ObjectUploadTask (Batch UInt8) Unit (FileWriter SegmentFile) where
  owner := .finishing
  cancelled := false
  sender := false
  queue
  accepted := [[7, 8], [9]]
  task := .running ⟨codec, none⟩
  writing := none
  upload :=
    { pc := .pollTerminal
      state :=
        { UploadState.new with
          writer := some ⟨.sink, []⟩, receiverOpen := true, buffer := written.flatten, accepted := written } }

def closedSink (task : ObjectUploadTask (Batch UInt8) Unit (FileWriter SegmentFile)) : Sink pairsConfig SegmentFile where
  coalescer := ⟨2, [], []⟩
  rowsWritten := 3
  phase := .finished
  pushed := [7, 8, 9]
  unbroken := true
  task

def segmentChunks : List Storage.Bytes := [magic, [7, 8], [9], footer [[7, 8], [9]]]

def segmentTask : ObjectUploadTask (Batch UInt8) Unit (FileWriter SegmentFile) where
  owner := .finished (.ok ())
  cancelled := false
  sender := false
  queue := []
  accepted := [[7, 8], [9]]
  task := .ended (.ok ())
  writing := none
  upload :=
    { pc := .ended (.ok true)
      state :=
        { UploadState.new with
          owner := .asked true
          terminal := .taken
          buffer := segmentChunks.flatten
          accepted := segmentChunks
          log := [.put segmentChunks.flatten, .stored segmentChunks.flatten] } }

theorem Reachable.task {t : ObjectUploadTask (Batch α) Unit (FileWriter σ)} (h : Reachable s V depth sink)
    (hstep : ObjectUploadTask.Step s (writeFile s.partSize V) depth sink.task t)
    (ho : sink.task.owner ≠ .held) : Reachable s V depth { sink with task := t } :=
  h.tail (.task hstep fun hheld => absurd hheld ho)

theorem buffering_write (bytes : Storage.Bytes) {written : List Storage.Bytes}
    (h : Reachable kibibyteParts segmentFile 2 (closedSink (buffering queue codec written)))
    (hstep : segmentFile.step codec (.wrote bytes) codec') (hne : bytes ≠ [])
    (hshort : (written ++ [bytes]).flatten.length < 1024) :
    Reachable kibibyteParts segmentFile 2 (closedSink (buffering queue codec' (written ++ [bytes]))) := by
  have hlength : written.flatten.length + bytes.length < 1024 := by simpa using hshort
  have hchunk : splitChunks kibibyteParts.partSize bytes = [bytes] :=
    splitChunks_short hne (by show bytes.length ≤ 1024; omega)
  have h := h.task (.work rfl rfl (.writeAll bytes)) nofun
  rw [hchunk] at h
  have h := h.task (.write rfl rfl .sent rfl rfl) nofun
  have h := h.task (.send rfl rfl rfl rfl rfl (Nat.zero_le _)) nofun
  have h := h.task (.wrote rfl rfl .sent rfl) nofun
  have h := h.task (.work rfl rfl (.wroteAll hstep)) nofun
  have h := h.task (.uploadTask rfl (.terminalPending rfl)) nofun
  have h := h.task (.uploadTask rfl (.receive rfl)) nofun
  have h := h.task (.uploadTask rfl (.writeBuffered rfl rfl hlength)) nofun
  have hflatten : (written ++ [bytes]).flatten = written.flatten ++ bytes := by simp
  unfold closedSink buffering
  rw [hflatten]
  exact h

theorem segmentTask_reachable : Reachable kibibyteParts segmentFile 2 (closedSink segmentTask) := by
  have h : Reachable kibibyteParts segmentFile 2 (create pairsConfig 1024 segmentFile) := .refl
  have h := h.tail (.push rfl (show pairsConfig.coalescer.pushBatch _ [7] = .ok ⟨2, [], [7]⟩ from rfl))
  have h := h.tail (.flushed rfl rfl)
  have h := h.tail (.push rfl (show pairsConfig.coalescer.pushBatch _ [8, 9] = .ok ⟨2, [[7, 8]], [9]⟩ from rfl))
  have h := h.tail (.next rfl rfl)
  have h := h.tail (.send rfl rfl rfl rfl rfl (by decide))
  have h := h.tail (.flushed rfl rfl)
  have h := h.tail (.finishBuffered rfl rfl)
  have h := h.tail (.next rfl rfl)
  have h := h.tail (.send rfl rfl rfl rfl rfl (by decide))
  have h := h.tail (.flushed rfl rfl)
  have h : Reachable kibibyteParts segmentFile 2 (closedSink (buffering [[7, 8], [9]] .opening [])) :=
    h.tail (.close rfl rfl)
  have h := buffering_write magic h ⟨rfl, rfl⟩ (by decide) (by decide)
  have h := h.task (.receive rfl rfl (.receive rfl) rfl) nofun
  have h := buffering_write [7, 8] h ⟨rfl, rfl⟩ (by decide) (by decide)
  have h := h.task (.receive rfl rfl (.receive rfl) rfl) nofun
  have h := buffering_write [9] h ⟨rfl, rfl⟩ (by decide) (by decide)
  have h := h.task (.ended rfl rfl (.ended rfl) rfl rfl) nofun
  have h := buffering_write (footer [[7, 8], [9]]) h ⟨rfl, rfl⟩ (by decide) (by decide)
  have h := h.task (.returned rfl rfl ⟨rfl, _, rfl, rfl⟩) nofun
  have h := h.task (.joined rfl rfl (.complete ⟨rfl, nofun⟩ nofun) rfl) nofun
  have h := h.task (.uploadTask rfl (.takeComplete rfl)) nofun
  have h := h.task (.uploadTask rfl .close) nofun
  have h := h.task (.uploadTask rfl (.drained rfl)) nofun
  have h := h.task (.uploadTask rfl (.completePut rfl)) nofun
  have h := h.task (.uploadTask rfl .putOk) nofun
  exact h.task (.completed rfl (show ObjectUpload.completed _ = some (.ok ()) from rfl)) nofun

theorem vortex_object_segments :
    ((∃ c ∈ segmentTask.upload.state.log, c.stores = true) →
      segmentTask.upload.state.accepted.flatten =
          magic ++ segmentTask.accepted.flatten ++ footer segmentTask.accepted ∧
        (closedSink segmentTask).rowsWritten = segmentTask.accepted.flatten.length ∧
        ((closedSink segmentTask).unbroken = true →
          Chunked 2 (closedSink segmentTask).pushed segmentTask.accepted)) ∧
    (∀ object, storedObject segmentTask.upload.state.log = some object →
      object = segmentTask.upload.state.accepted.flatten) ∧
    (segmentTask.owner = .finished (.ok ()) → storedObject segmentTask.upload.state.log ≠ none) :=
  vortex_object rowCoalescer_lawful (by decide) segmentFile_encodes segmentTask_reachable

end Sink

end SilkChiffon.Vortex
