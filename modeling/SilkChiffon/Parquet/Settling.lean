import Mathlib.Data.Prod.Lex
import SilkChiffon.Lib.Liveness
import SilkChiffon.Parquet.Failures

/-!
# A failed pipeline settles

Every step of a pipeline leaves less to do, first for ingestion, then for the
encoder and last for the writer. After a failure there is always a next step,
so that the error is returned in the end, unless the scope was cancelled from
outside.
-/

namespace SilkChiffon.Pipeline

open Ingestion Liveness

variable {α ε A P : Type} {cfg : PipelineConfig α ε A P} {p p' : PipelineState cfg}

-- ---------------------------------------------------------------------------
-- What is left to do
-- ---------------------------------------------------------------------------

def Stage.left (stateLeft : σ → Nat) : Stage σ → Nat
  | running state => stateLeft state + 2
  | finished _ => 1
  | joined => 0

def nextLeft {cfg : Ingestion.Config α ε A P} : Except (Stop ε) (Option (IngestionState cfg)) → Nat
  | .ok (some _) => 2
  | _ => 0

def IngestionPc.left {cfg : Ingestion.Config α ε A P} : IngestionPc cfg → Nat
  | receiving _ => 1
  | sending _ next => nextLeft next

def CoordinatorPc.left (pc : CoordinatorPc Chunk) : Nat := if pc.inputDone then 0 else 1

def WriterPc.left : WriterPc → Nat
  | receiving => 1
  | writing => 2
  | closing => 0

def Stage.groups {cfg : Ingestion.Config α ε A P} : Stage (IngestionPc cfg) → List (RowGroupWork α P)
  | running (.sending groups _) => groups
  | _ => []

def Stage.inHand : Stage (CoordinatorPc Chunk) → List (EncodedRowGroup Chunk)
  | running ⟨_, some encoded⟩ => [encoded]
  | _ => []

def EncodeTask.unstarted : EncodeTask E → Nat
  | spawned _ => 1
  | _ => 0

/-- A column is encoded, then joined; an ended task is taken and sent. -/
def EncodeTask.left : EncodeTask E → Nat
  | spawned _ => 2
  | encoding _ running finished _ => 2 * running.length + finished.length + 3
  | ended _ _ => 2

theorem EncodeTask.left_pos (t : EncodeTask E) : 0 < t.left := by
  cases t <;> simp [EncodeTask.left]

def WriteTask.left : WriteTask Chunk → Nat
  | idle => 0
  | rowGroup chunks => chunks.length + 4
  | appending chunks => chunks.length + 3
  | closing => 3
  | ended _ => 2

namespace PipelineState

/-- The batches on their way to ingestion, and the row groups in its hand. -/
def ingestionLeft (unsent : Nat) (p : PipelineState cfg) : ℕ ×ₗ ℕ :=
  toLex (3 * unsent + 2 * p.ingestionQueue.length + p.ingestion.left IngestionPc.left +
    p.sourceOpen.toNat, p.ingestion.groups.length)

def encodingLeft (p : PipelineState cfg) : ℕ ×ₗ ℕ :=
  toLex (2 * p.encodingQueue.length + (p.pending.map EncodeTask.unstarted).sum +
    p.coordinator.left CoordinatorPc.left, (p.pending.map EncodeTask.left).sum + p.coordinator.inHand.length)

def writingLeft (p : PipelineState cfg) : ℕ ×ₗ ℕ :=
  toLex (2 * p.writingQueue.length + p.writer.left WriterPc.left, p.writeTask.left + p.result.isNone.toNat)

/-- A stage makes work for those behind it, never for those in front. -/
def workLeft (batches : List (Batch α)) (p : PipelineState cfg) : (ℕ ×ₗ ℕ) ×ₗ (ℕ ×ₗ ℕ) ×ₗ (ℕ ×ₗ ℕ) :=
  toLex (p.ingestionLeft (batches.length - p.sent.length), toLex (p.encodingLeft, p.writingLeft))

end PipelineState

theorem lex_left (h : a < a') : (toLex (a, b) : ℕ ×ₗ ℕ) < toLex (a', b') :=
  Prod.Lex.toLex_lt_toLex.mpr (.inl h)

theorem lex_right (ha : a ≤ a') (hb : b < b') : (toLex (a, b) : ℕ ×ₗ ℕ) < toLex (a', b') :=
  Prod.Lex.toLex_lt_toLex.mpr ((Nat.lt_or_eq_of_le ha).imp_right fun h => ⟨h, hb⟩)

theorem stageStep_left {stage stage' : Stage σ} (h : StageStep turn scope stage scope' stage')
    (stateLeft : σ → Nat) :
    stage'.left stateLeft < stage.left stateLeft := by
  cases h with
  | cancelled | aborted | failed => exact Nat.lt_add_left _ Nat.one_lt_two
  | joinOk | joinAborted | joinFailed => exact Nat.one_pos

theorem encodeStep_left {t t' : EncodeTask E} (h : EncodeStep turn t failed t') :
    t'.unstarted < t.unstarted ∨ t'.unstarted = t.unstarted ∧ t'.left < t.left := by
  cases h with
  | start | startFailed | startBroken => exact .inl Nat.one_pos
  | column hi | columnFailed hi | columnBroken hi =>
    refine .inr ⟨rfl, ?_⟩
    have hlt := (List.getElem?_eq_some_iff.mp hi).1
    simp only [EncodeTask.left, List.length_eraseIdx_of_lt hlt, List.length_append, List.length_singleton]
    omega
  | join hi =>
    refine .inr ⟨rfl, ?_⟩
    have hlt := (List.getElem?_eq_some_iff.mp hi).1
    simp only [EncodeTask.left, List.length_eraseIdx_of_lt hlt]
    omega
  | joinFailed => exact .inr ⟨rfl, by simp only [EncodeTask.left]; omega⟩
  | finish => exact .inr ⟨rfl, Nat.lt_succ_self 2⟩

theorem writeStep_left {task task' : WriteTask Chunk}
    (h : WriteStep turn task file failed task' file') : task'.left < task.left := by
  cases h with
  | nextRowGroup | append | closeRowGroup | close => simp [WriteTask.left]
  | failed h =>
    cases task with
    | idle | ended => cases h
    | rowGroup | appending | closing => simp [WriteTask.left]

theorem lowers_ingestion {batches : List (Batch α)}
    (h : p'.ingestionLeft (batches.length - p'.sent.length) < p.ingestionLeft (batches.length - p.sent.length)) :
    p'.workLeft batches < p.workLeft batches := Prod.Lex.toLex_lt_toLex.mpr (.inl h)

theorem lowers_encoding {batches : List (Batch α)}
    (hi : p'.ingestionLeft (batches.length - p'.sent.length) = p.ingestionLeft (batches.length - p.sent.length))
    (h : p'.encodingLeft < p.encodingLeft) : p'.workLeft batches < p.workLeft batches :=
  Prod.Lex.toLex_lt_toLex.mpr (.inr ⟨hi, Prod.Lex.toLex_lt_toLex.mpr (.inl h)⟩)

theorem lowers_writing {batches : List (Batch α)}
    (hi : p'.ingestionLeft (batches.length - p'.sent.length) = p.ingestionLeft (batches.length - p.sent.length))
    (he : p'.encodingLeft = p.encodingLeft) (h : p'.writingLeft < p.writingLeft) :
    p'.workLeft batches < p.workLeft batches :=
  Prod.Lex.toLex_lt_toLex.mpr (.inr ⟨hi, Prod.Lex.toLex_lt_toLex.mpr (.inr ⟨he, h⟩)⟩)

theorem nextLeft_le {cfg : Ingestion.Config α ε A P}
    (next : Except (Stop ε) (Option (IngestionState cfg))) : nextLeft next ≤ 2 := by
  unfold nextLeft
  split
  · exact Nat.le_refl _
  · exact Nat.zero_le _

theorem nextLeft_end {cfg : Ingestion.Config α ε A P} (result : Except (Stop ε) PUnit) :
    nextLeft (result.map fun _ => (none : Option (IngestionState cfg))) = 0 := by
  cases result <;> rfl

theorem sum_set {pending : List β} (f : β → Nat) (h : pending[i]? = some t) (t' : β) :
    ((pending.set i t').map f).sum + f t = (pending.map f).sum + f t' := by
  obtain ⟨before, after, hsplit, -, hset, -⟩ := Lists.split_at h
  rw [hset, hsplit]
  simp only [List.map_append, List.map_cons, List.sum_append, List.sum_cons]
  omega

/-- Every step but a cancellation from outside leaves less to do, as long as
the source sends no more than these batches. -/
theorem pipelineStep_lowers {batches : List (Batch α)} (h : PipelineStep cfg turn p p')
    (hturn : turn ≠ .outside) (hsent : p'.sent <+: batches) :
    p'.workLeft batches < p.workLeft batches := by
  cases h with
  | sendBatch =>
    have hlength := hsent.length_le
    refine lowers_ingestion (lex_left ?_)
    simp only [List.length_append, List.length_singleton] at hlength ⊢
    omega
  | closeSource hopen =>
    refine lowers_ingestion (lex_left ?_)
    simp [hopen]
  | receiveBatch h hq =>
    refine lowers_ingestion (lex_left ?_)
    rename_i batch queue state
    have hle := nextLeft_le ((ingestionBatch cfg.ingestion batch state).result.map some)
    simp only [h, hq, Stage.left, IngestionPc.left, List.length_cons]
    omega
  | batchesEnded h hq =>
    refine lowers_ingestion (lex_left ?_)
    simp [h, Stage.left, IngestionPc.left, nextLeft_end]
  | sendRowGroup h =>
    refine lowers_ingestion (lex_right ?_ ?_)
    · simp [h, Stage.left, IngestionPc.left]
    · simp [h, Stage.groups]
  | rowGroupRefused h | ingestionDone h | ingestionStopped h =>
    refine lowers_ingestion (lex_left ?_)
    simp only [h, Stage.left]
    omega
  | ingestNext h =>
    refine lowers_ingestion (lex_left ?_)
    simp [h, Stage.left, IngestionPc.left, nextLeft]
  | receiveWork h _ hq =>
    refine lowers_encoding rfl (lex_left ?_)
    simp only [hq, List.map_append, List.map_singleton, List.sum_append, List.sum_singleton,
      List.length_cons, EncodeTask.unstarted]
    omega
  | workEnded h =>
    refine lowers_encoding rfl (lex_left ?_)
    simp [h, Stage.left, CoordinatorPc.left]
  | takeEncoded h hp =>
    refine lowers_encoding rfl (lex_right ?_ ?_)
    · simp [h, hp, Stage.left, CoordinatorPc.left, EncodeTask.unstarted]
    · simp [h, hp, Stage.inHand, EncodeTask.left]
      omega
  | encodingFailed h hp =>
    refine lowers_encoding rfl (lex_left ?_)
    simp only [h, hp, Stage.left, EncodeTask.unstarted, List.map_cons, List.sum_cons]
    omega
  | sendEncoded h =>
    refine lowers_encoding rfl (lex_right ?_ ?_)
    · simp [h, Stage.left, CoordinatorPc.left]
    · simp [h, Stage.inHand]
  | encodedRefused h | coordinatorDone h =>
    refine lowers_encoding rfl (lex_left ?_)
    simp only [h, Stage.left]
    omega
  | encode h step =>
    rename_i i t failed t'
    have hunstarted := sum_set EncodeTask.unstarted h t'
    have hleft := sum_set EncodeTask.left h t'
    refine lowers_encoding rfl ?_
    rcases encodeStep_left step with hless | ⟨heq, hless⟩
    · exact lex_left (by simp only; omega)
    · exact lex_right (by simp only; omega) (by simp only; omega)
  | dropEncoding _ hp =>
    obtain ⟨t, pending, hpending⟩ := List.exists_cons_of_ne_nil hp
    have hpos := t.left_pos
    refine lowers_encoding rfl (lex_right ?_ ?_)
    · simp only [List.map_nil, List.sum_nil]
      omega
    · simp only [hpending, List.map_nil, List.sum_nil, List.map_cons, List.sum_cons]
      omega
  | receiveEncoded h hq =>
    refine lowers_writing rfl rfl (lex_left ?_)
    simp only [h, hq, Stage.left, WriterPc.left, List.length_cons]
    omega
  | encodedEnded h | written h | closed h | writeFailed h =>
    refine lowers_writing rfl rfl (lex_left ?_)
    simp [h, Stage.left, WriterPc.left]
  | write step =>
    have hless := writeStep_left step
    exact lowers_writing rfl rfl (lex_right (Nat.le_refl _) (Nat.add_lt_add_right hless _))
  | dropWrite _ ht =>
    refine lowers_writing rfl rfl (lex_right (Nat.le_refl _) (Nat.add_lt_add_right ?_ _))
    cases hidle : p.writeTask <;> simp_all [WriteTask.left]
  | ingestionStage step =>
    have hless := stageStep_left step IngestionPc.left
    exact lowers_ingestion (lex_left (by simp only; omega))
  | coordinatorStage step =>
    have hless := stageStep_left step CoordinatorPc.left
    exact lowers_encoding rfl (lex_left (by simp only; omega))
  | writerStage step =>
    have hless := stageStep_left step WriterPc.left
    exact lowers_writing rfl rfl (lex_left (by simp only; omega))
  | cancelOutside => exact absurd rfl hturn
  | settled _ _ _ _ _ hr =>
    refine lowers_writing rfl rfl (lex_right (Nat.le_refl _) ?_)
    simp [hr]

-- ---------------------------------------------------------------------------
-- The next step
-- ---------------------------------------------------------------------------

/-- The writer waits for a task only while there is one. -/
def Writing (p : PipelineState cfg) : Prop :=
  p.writer = .running .writing ∨ p.writer = .running .closing → p.writeTask ≠ .idle

theorem writeStep_busy {task task' : WriteTask Chunk}
    (h : WriteStep turn task file failed task' file') : task' ≠ .idle := by
  cases h <;> exact nofun

theorem writing_step (h : PipelineStep cfg turn p p') (hw : Writing p) : Writing p' := by
  unfold Writing at *
  cases h with
  | receiveEncoded | encodedEnded => exact nofun
  | written | closed | writeFailed => simp
  | write step => exact fun _ => writeStep_busy step
  | dropWrite hrun =>
    rintro (hstate | hstate)
    all_goals
      rw [hstate] at hrun
      cases hrun
  | writerStage step =>
    have hstopped := stageStep_stopped step
    rintro (hstate | hstate)
    all_goals
      simp only at hstate
      rw [hstate] at hstopped
      cases hstopped
  | _ => exact hw

theorem reachable_writing (h : Reachable cfg p) : Writing p := by
  induction h with
  | refl => exact nofun
  | tail _ step ih =>
    obtain ⟨_, step⟩ := step
    exact writing_step step ih

theorem encodeTask_due (t : EncodeTask E) :
    (∃ work result, t = .ended work result) ∨ ∃ failed t', EncodeStep .program t failed t' := by
  cases t with
  | ended work result => exact .inl ⟨work, result, rfl⟩
  | spawned work =>
    cases hcolumns : E.columns work with
    | ok columns => exact .inr ⟨_, _, .start hcolumns⟩
    | error cause => exact .inr ⟨_, _, .startFailed hcolumns⟩
  | encoding work running finished indexedChunks =>
    rcases finished with _ | ⟨⟨idx, result⟩, finished⟩
    · rcases running with _ | ⟨⟨idx, column⟩, running⟩
      · exact .inr ⟨_, _, .finish⟩
      · cases hc : E.encodeColumn column with
        | ok chunk => exact .inr ⟨_, _, .column (i := 0) rfl hc⟩
        | error cause => exact .inr ⟨_, _, .columnFailed (i := 0) rfl hc⟩
    · cases result with
      | ok chunk => exact .inr ⟨_, _, .join (i := 0) rfl⟩
      | error cause => exact .inr ⟨_, _, .joinFailed (i := 0) rfl⟩

theorem stage_due (stage : Stage σ) (hcancelled : scope.cancelled = true) :
    stage = .joined ∨ ∃ scope' stage', StageStep .program scope stage scope' stage' := by
  cases stage with
  | joined => exact .inl rfl
  | running => exact .inr ⟨_, _, .cancelled hcancelled⟩
  | finished result =>
    cases result with
    | ok => exact .inr ⟨_, _, .joinOk⟩
    | failed => exact .inr ⟨_, _, .joinFailed⟩
    | aborted => exact .inr ⟨_, _, .joinAborted⟩

theorem failedStage_due {stage : Stage σ} (h : stage.hasFailed = true) :
    ∃ scope' stage', StageStep .program scope stage scope' stage' := by
  cases stage with
  | running | joined => cases h
  | finished result =>
    cases result with
    | ok | aborted => cases h
    | failed => exact ⟨_, _, .joinFailed⟩

theorem cancelled_due (hcancelled : p.scope.cancelled = true) (hresult : p.result = none) :
    ∃ p', PipelineStep cfg .program p p' := by
  rcases stage_due p.ingestion hcancelled with hi | ⟨_, _, step⟩
  · rcases stage_due p.coordinator hcancelled with hc | ⟨_, _, step⟩
    · rcases stage_due p.writer hcancelled with hw | ⟨_, _, step⟩
      · by_cases hp : p.pending = []
        · by_cases ht : p.writeTask = .idle
          · exact ⟨_, .settled hi hc hw hp ht hresult⟩
          · exact ⟨_, .dropWrite (by rw [hw]; rfl) ht⟩
        · exact ⟨_, .dropEncoding (by rw [hc]; rfl) hp⟩
      · exact ⟨_, .writerStage step⟩
    · exact ⟨_, .coordinatorStage step⟩
  · exact ⟨_, .ingestionStage step⟩

theorem writer_due (hwriting : Writing p)
    (hrun : p.writer = .running .writing ∨ p.writer = .running .closing) :
    ∃ p', PipelineStep cfg .program p p' := by
  have hbusy := hwriting hrun
  cases ht : p.writeTask with
  | idle => exact absurd ht hbusy
  | rowGroup chunks => exact ⟨_, .write (by rw [ht]; exact .nextRowGroup)⟩
  | appending chunks =>
    cases chunks with
    | nil => exact ⟨_, .write (by rw [ht]; exact .closeRowGroup)⟩
    | cons chunk chunks => exact ⟨_, .write (by rw [ht]; exact .append)⟩
  | closing => exact ⟨_, .write (by rw [ht]; exact .close)⟩
  | ended result =>
    cases result with
    | error cause =>
      rcases hrun with hrun | hrun <;> exact ⟨_, .writeFailed hrun ht⟩
    | ok =>
      rcases hrun with hrun | hrun
      · exact ⟨_, .written hrun ht⟩
      · exact ⟨_, .closed hrun ht⟩

/-- A coordinator with a row group in hand sends it, is refused, or waits for a
writer that goes on. -/
theorem inHand_due (hwriting : Writing p)
    (h : p.coordinator = .running ⟨inputDone, some encoded⟩) :
    ∃ p', PipelineStep cfg .program p p' := by
  cases hw : p.writer with
  | finished | joined => exact ⟨_, .encodedRefused h (by rw [hw]; rfl)⟩
  | running pc =>
    by_cases hlt : p.writingQueue.length < cfg.writingQueueSize
    · exact ⟨_, .sendEncoded h (by rw [hw]; rfl) hlt⟩
    · cases pc with
      | writing => exact writer_due hwriting (.inl hw)
      | closing => exact writer_due hwriting (.inr hw)
      | receiving =>
        have hsize := cfg.writingQueueSize_pos
        obtain ⟨encoded, queue, hq⟩ := List.exists_cons_of_length_pos (l := p.writingQueue) (by omega)
        exact ⟨_, .receiveEncoded hw hq⟩

theorem doomed_due (hwriting : Writing p) (hrun : p.coordinator.isRunning = true)
    (hmem : t ∈ p.pending) : ∃ p', PipelineStep cfg .program p p' := by
  cases hc : p.coordinator with
  | finished | joined =>
    rw [hc] at hrun
    cases hrun
  | running pc =>
    obtain ⟨inputDone, sending⟩ := pc
    cases sending with
    | some encoded => exact inHand_due hwriting hc
    | none =>
      obtain ⟨first, pending, hp⟩ := List.exists_cons_of_ne_nil (List.ne_nil_of_mem hmem)
      rcases encodeTask_due first with ⟨work, result, rfl⟩ | ⟨failed, t', step⟩
      · cases result with
        | ok encoded => exact ⟨_, .takeEncoded hc hp⟩
        | error cause => exact ⟨_, .encodingFailed hc hp⟩
      · exact ⟨_, .encode (i := 0) (by rw [hp]; rfl) step⟩

/-- After a failure the program always has a next step, until it returns. -/
theorem failed_due (h : Reachable cfg p) (hout : p.scope.outside = false)
    (hf : p.scope.failed = true) (hresult : p.result = none) :
    ∃ p', PipelineStep cfg .program p p' := by
  have hwatched := reachable_watched h
  have hwriting := reachable_writing h
  by_cases herrors : p.scope.errors = []
  · rcases hwatched.failed ⟨herrors, hout⟩ hf with hi | hc | hw | ⟨hrun, t, hmem, -⟩ | ⟨hrun, ht⟩
    · obtain ⟨_, _, step⟩ := failedStage_due hi
      exact ⟨_, .ingestionStage step⟩
    · obtain ⟨_, _, step⟩ := failedStage_due hc
      exact ⟨_, .coordinatorStage step⟩
    · obtain ⟨_, _, step⟩ := failedStage_due hw
      exact ⟨_, .writerStage step⟩
    · exact doomed_due hwriting hrun hmem
    · cases hw : p.writer with
      | finished | joined =>
        rw [hw] at hrun
        cases hrun
      | running pc =>
        cases htask : p.writeTask with
        | ended result =>
          cases result with
          | error cause => exact ⟨_, .writeFailed hw htask⟩
          | ok =>
            rw [htask] at ht
            cases ht
        | _ =>
          rw [htask] at ht
          cases ht
  · exact cancelled_due (hwatched.errors herrors) hresult

-- ---------------------------------------------------------------------------
-- Settling
-- ---------------------------------------------------------------------------

theorem program_sent (h : PipelineStep cfg turn p p') (hturn : turn ≠ .source) : p'.sent = p.sent := by
  cases h with
  | sendBatch => exact absurd rfl hturn
  | _ => rfl

def FailureReturned (p : PipelineState cfg) : Prop :=
  (∃ errors, p.result = some (.error errors)) ∧ p.scope.cancelled = true

/-- A step that nobody outside takes, of a source that has these batches. -/
def InsideStep (cfg : PipelineConfig α ε A P) (batches : List (Batch α))
    (p p' : PipelineState cfg) : Prop :=
  ∃ turn, turn ≠ .outside ∧ PipelineStep cfg turn p p' ∧ p'.sent <+: batches

theorem returned_failure (h : Reachable cfg p) (hout : p.scope.outside = false)
    (hf : p.scope.failed = true) (hresult : p.result = some result) : FailureReturned p := by
  have hwatched := reachable_watched h
  have hret := reachable_returned h _ hresult
  have herrors := failed_errors hwatched hret hout hf
  rw [hret.result, if_neg herrors] at hresult
  exact ⟨⟨_, hresult⟩, hwatched.errors herrors⟩

/-- A failed pipeline that is left alone returns an error, whatever order its
steps come in: there is always a next one, and each leaves less to do. -/
theorem failed_settles {batches : List (Batch α)} (h : Reachable cfg p) (hout : p.scope.outside = false)
    (hf : p.scope.failed = true) (hsent : p.sent <+: batches) :
    Inevitable (PipelineStep cfg .program) (InsideStep cfg batches) FailureReturned p := by
  let Inv (p : PipelineState cfg) : Prop :=
    Reachable cfg p ∧ p.scope.outside = false ∧ p.scope.failed = true ∧ p.sent <+: batches
  have hinv : Inv p := ⟨h, hout, hf, hsent⟩
  refine inevitable_of_descent Inv (·.workLeft batches) ?_ ?_ ?_ hinv
  · rintro p p' ⟨h, hout, hf, -⟩ ⟨turn, hturn, step, hsent⟩
    have hchange := pipelineStep_scope step
    exact ⟨h.tail ⟨turn, step⟩, (outside_kept hchange hturn).trans hout, failed_kept hchange hf, hsent⟩
  · rintro p p' - ⟨turn, hturn, step, hsent⟩
    exact pipelineStep_lowers step hturn hsent
  · rintro p ⟨h, hout, hf, hsent⟩
    cases hresult : p.result with
    | some result => exact .inl (returned_failure h hout hf hresult)
    | none =>
      obtain ⟨p', step⟩ := failed_due h hout hf hresult
      have hkept := program_sent step nofun
      exact .inr ⟨p', step, .program, nofun, step, hkept ▸ hsent⟩

end SilkChiffon.Pipeline
