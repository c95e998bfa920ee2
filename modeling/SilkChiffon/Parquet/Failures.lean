import SilkChiffon.Parquet.Pipeline

/-!
# Failures of the pipeline

`run_pipeline` succeeds by the absence of errors. A failure that no error
reports yet is waiting where settling will meet it (`Trouble`), unless the
scope was cancelled from outside: so a failure is never missed.
-/

namespace SilkChiffon.Pipeline

open Ingestion

variable {α ε A P : Type} {cfg : PipelineConfig α ε A P} {p p' : PipelineState cfg}

-- ---------------------------------------------------------------------------
-- Failures are reported
-- ---------------------------------------------------------------------------

def Stage.hasFailed : Stage σ → Bool
  | finished (.failed _) => true
  | _ => false

def WriteTask.hasFailed : WriteTask Chunk → Bool
  | ended (.error _) => true
  | _ => false

/-- A failure that settling will get to see: of a stage that is not joined, or
of a task whose stage still waits for it. -/
def Trouble (p : PipelineState cfg) : Prop :=
  p.ingestion.hasFailed = true ∨ p.coordinator.hasFailed = true ∨ p.writer.hasFailed = true ∨
    (p.coordinator.isRunning = true ∧ ∃ t ∈ p.pending, t.Doomed) ∨
    (p.writer.isRunning = true ∧ p.writeTask.hasFailed = true)

def Calm (p : PipelineState cfg) : Prop := p.scope.errors = [] ∧ p.scope.outside = false

structure Tended (p : PipelineState cfg) : Prop where
  encoding : p.coordinator.isRunning = true ∨ p.coordinator.hasFailed = true ∨ p.pending = []
  writing : p.writer.isRunning = true ∨ p.writer.hasFailed = true ∨ p.writeTask = .idle

structure Watched (p : PipelineState cfg) : Prop where
  receiving : p.writer = .running .receiving → p.writeTask = .idle
  cancelled : Calm p → p.scope.cancelled = false
  aborting : Calm p → p.scope.aborting = false
  tended : Calm p → Tended p
  failed : Calm p → p.scope.failed = true → Trouble p
  errors : p.scope.errors ≠ [] → p.scope.cancelled = true

theorem report_errors (scope : Scope) (cause : Failure) : (scope.report cause).errors ≠ [] := by
  cases cause with
  | panicked => simp [Scope.report]
  | error =>
    simp only [Scope.report]
    split <;> simp

theorem report_cancelled (scope : Scope) (cause : Failure)
    (h : scope.errors ≠ [] → scope.cancelled = true) : (scope.report cause).cancelled = true := by
  cases cause with
  | panicked => rfl
  | error =>
    simp only [Scope.report]
    split
    · rfl
    · exact h ‹_›

inductive ScopeChange : Turn → Scope → Scope → Prop
  | same : ScopeChange turn scope scope
  | failed : ScopeChange turn scope scope.fail
  | report (cause : Failure) : ScopeChange turn scope (scope.report cause)
  | outside : ScopeChange .outside scope { scope with cancelled := true, outside := true }

theorem stageStep_scope (h : StageStep turn scope stage scope' stage') : ScopeChange turn scope scope' := by
  cases h with
  | failed => exact .failed
  | joinFailed => exact .report _
  | _ => exact .same

theorem stageStep_stopped (h : StageStep turn scope stage scope' stage') : stage'.isRunning = false := by
  cases h <;> rfl

theorem pipelineStep_scope (h : PipelineStep cfg turn p p') : ScopeChange turn p.scope p'.scope := by
  cases h with
  | ingestionStopped | encodingFailed | encodedRefused | writeFailed => exact .failed
  | @encode _ _ _ failed | @write _ failed =>
    cases failed with
    | false => exact .same
    | true => exact .failed
  | ingestionStage h | coordinatorStage h | writerStage h => exact stageStep_scope h
  | cancelOutside => exact .outside
  | _ => exact .same

theorem report_outside (scope : Scope) (cause : Failure) :
    (scope.report cause).outside = scope.outside ∧ (scope.report cause).failed = scope.failed := by
  cases cause with
  | panicked => exact ⟨rfl, rfl⟩
  | error =>
    simp only [Scope.report]
    split <;> exact ⟨rfl, rfl⟩

theorem outside_kept (h : ScopeChange turn scope scope') (hturn : turn ≠ .outside) :
    scope'.outside = scope.outside := by
  cases h with
  | same | failed => rfl
  | report cause => exact (report_outside scope cause).1
  | outside => exact absurd rfl hturn

theorem failed_kept (h : ScopeChange turn scope scope') (hf : scope.failed = true) :
    scope'.failed = true := by
  cases h with
  | same => exact hf
  | failed => rfl
  | report cause => exact (report_outside scope cause).2.trans hf
  | outside => exact hf

theorem calm_of_step (h : PipelineStep cfg turn p p') (hcalm : Calm p') : Calm p := by
  have hchange := pipelineStep_scope h
  unfold Calm at *
  generalize p.scope = scope, p'.scope = scope' at *
  cases hchange with
  | same | failed => exact hcalm
  | report cause => exact absurd hcalm.1 (report_errors _ cause)
  | outside => cases hcalm.2

theorem calm_scope (h : ScopeChange turn scope scope')
    (hcalm : scope'.errors = [] ∧ scope'.outside = false) :
    scope'.cancelled = scope.cancelled ∧ scope'.aborting = scope.aborting := by
  cases h with
  | same | failed => exact ⟨rfl, rfl⟩
  | report cause => exact absurd hcalm.1 (report_errors _ cause)
  | outside => cases hcalm.2

/-- Nobody stops a stage of a calm pipeline: what ends it is a failure, which
then stays until it is joined. -/
theorem stageStep_hasFailed (h : StageStep turn scope stage scope' stage')
    (hcancelled : scope.cancelled = false) (haborting : scope.aborting = false)
    (herrors : scope'.errors = []) (hf : stage.hasFailed = true ∨ stage.isRunning = true) :
    stage'.hasFailed = true := by
  cases h with
  | cancelled h => cases hcancelled.symm.trans h
  | aborted h => cases haborting.symm.trans h
  | failed => rfl
  | joinOk | joinAborted => rcases hf with hf | hf <;> cases hf
  | joinFailed => exact absurd herrors (report_errors _ _)

theorem writeStep_active {task task' : WriteTask Chunk}
    (h : WriteStep turn task file failed task' file') : task.isActive = true := by
  cases h with
  | failed h => exact h
  | _ => rfl

theorem writeStep_hasFailed {task task' : WriteTask Chunk}
    (h : WriteStep turn task file failed task' file') : task.hasFailed = false := by
  have hactive := writeStep_active h
  cases task with
  | ended => cases hactive
  | _ => rfl

theorem receiving_idle (h : PipelineStep cfg turn p p')
    (hidle : p.writer = .running .receiving → p.writeTask = .idle) :
    p'.writer = .running .receiving → p'.writeTask = .idle := by
  cases h with
  | receiveEncoded | encodedEnded | closed | writeFailed => exact nofun
  | written | dropWrite => exact fun _ => rfl
  | write step =>
    intro hreceiving
    have hactive := writeStep_active step
    rw [hidle hreceiving] at hactive
    cases hactive
  | writerStage step =>
    intro hreceiving
    cases (stageStep_stopped step).symm.trans (congrArg Stage.isRunning hreceiving)
  | _ => exact hidle

theorem trouble_kept (h : PipelineStep cfg turn p p') (hcalm : Calm p')
    (hidle : p.writer = .running .receiving → p.writeTask = .idle)
    (hcancelled : p.scope.cancelled = false) (haborting : p.scope.aborting = false)
    (ht : Trouble p) : Trouble p' := by
  cases h with
  | sendBatch | closeSource | settled => exact ht
  | receiveBatch h | batchesEnded h | sendRowGroup h | rowGroupRefused h | ingestNext h
  | ingestionDone h => simpa [Trouble, h, Stage.hasFailed] using ht
  | ingestionStopped => exact .inl rfl
  | receiveWork =>
    refine ht.imp_right (.imp_right (.imp_right (.imp_left ?_)))
    rintro ⟨hrun, t, hmem, hdoomed⟩
    exact ⟨hrun, t, List.mem_append_left _ hmem, hdoomed⟩
  | workEnded h | sendEncoded h => simpa [Trouble, h, Stage.hasFailed, Stage.isRunning] using ht
  | takeEncoded h hp =>
    simpa [Trouble, h, hp, Stage.hasFailed, Stage.isRunning, EncodeTask.Doomed] using ht
  | encodingFailed | encodedRefused => exact .inr (.inl rfl)
  | coordinatorDone h _ hp => simpa [Trouble, h, hp, Stage.hasFailed] using ht
  | encode h step =>
    refine ht.imp_right (.imp_right (.imp_right (.imp_left ?_)))
    rintro ⟨hrun, t, hmem, hdoomed⟩
    obtain ⟨before, after, hsplit, -, hset, -⟩ := Lists.split_at h
    refine ⟨hrun, ?_⟩
    rw [hset]
    rw [hsplit] at hmem
    rcases List.mem_append.mp hmem with hmem | hmem
    · exact ⟨t, List.mem_append_left _ hmem, hdoomed⟩
    · rcases List.mem_cons.mp hmem with rfl | hmem
      · exact ⟨_, List.mem_append_right _ (.head _), encodeStep_doomed step (.inr hdoomed)⟩
      · exact ⟨t, List.mem_append_right _ (.tail _ hmem), hdoomed⟩
  | dropEncoding hrun | dropWrite hrun => simpa [Trouble, hrun] using ht
  | receiveEncoded h | encodedEnded h =>
    simpa [Trouble, h, hidle h, Stage.hasFailed, WriteTask.hasFailed] using ht
  | written h htask | closed h htask =>
    simpa [Trouble, h, htask, Stage.hasFailed, WriteTask.hasFailed] using ht
  | writeFailed => exact .inr (.inr (.inl rfl))
  | write step =>
    refine ht.imp_right (.imp_right (.imp_right (.imp_right ?_)))
    rintro ⟨-, hfailed⟩
    cases (writeStep_hasFailed step).symm.trans hfailed
  | ingestionStage step =>
    exact ht.imp_left fun h =>
      stageStep_hasFailed step hcancelled haborting hcalm.1 (.inl h)
  | coordinatorStage step =>
    have hfailed := stageStep_hasFailed step hcancelled haborting hcalm.1
    rcases ht with ht | ht | ht | ht | ht
    · exact .inl ht
    · exact .inr (.inl (hfailed (.inl ht)))
    · exact .inr (.inr (.inl ht))
    · exact .inr (.inl (hfailed (.inr ht.1)))
    · exact .inr (.inr (.inr (.inr ht)))
  | writerStage step =>
    have hfailed := stageStep_hasFailed step hcancelled haborting hcalm.1
    rcases ht with ht | ht | ht | ht | ht
    · exact .inl ht
    · exact .inr (.inl ht)
    · exact .inr (.inr (.inl (hfailed (.inl ht))))
    · exact .inr (.inr (.inr (.inl ht)))
    · exact .inr (.inr (.inl (hfailed (.inr ht.1))))
  | cancelOutside => cases hcalm.2

theorem tended_step (h : PipelineStep cfg turn p p') (hcalm : Calm p')
    (hcancelled : p.scope.cancelled = false) (haborting : p.scope.aborting = false)
    (ht : Tended p) : Tended p' := by
  obtain ⟨hencoding, hwriting⟩ := ht
  cases h with
  | receiveWork h | workEnded h | takeEncoded h | sendEncoded h =>
    exact ⟨.inl (by simp [h, Stage.isRunning]), hwriting⟩
  | encodingFailed | encodedRefused => exact ⟨.inr (.inl rfl), hwriting⟩
  | coordinatorDone _ _ hp => exact ⟨.inr (.inr hp), hwriting⟩
  | encode h =>
    refine ⟨hencoding.imp_right (.imp_right fun hnil => ?_), hwriting⟩
    rw [hnil] at h
    cases h
  | dropEncoding => exact ⟨.inr (.inr rfl), hwriting⟩
  | receiveEncoded | encodedEnded | written => exact ⟨hencoding, .inl rfl⟩
  | closed | dropWrite => exact ⟨hencoding, .inr (.inr rfl)⟩
  | writeFailed => exact ⟨hencoding, .inr (.inl rfl)⟩
  | write step =>
    refine ⟨hencoding, hwriting.imp_right (.imp_right fun hidle => ?_)⟩
    have hactive := writeStep_active step
    rw [hidle] at hactive
    cases hactive
  | coordinatorStage step =>
    have hfailed := stageStep_hasFailed step hcancelled haborting hcalm.1
    refine ⟨.inr ?_, hwriting⟩
    rcases hencoding with hrun | hf | hnil
    · exact .inl (hfailed (.inr hrun))
    · exact .inl (hfailed (.inl hf))
    · exact .inr hnil
  | writerStage step =>
    have hfailed := stageStep_hasFailed step hcancelled haborting hcalm.1
    refine ⟨hencoding, .inr ?_⟩
    rcases hwriting with hrun | hf | hidle
    · exact .inl (hfailed (.inr hrun))
    · exact .inl (hfailed (.inl hf))
    · exact .inr hidle
  | _ => exact ⟨hencoding, hwriting⟩

theorem stageStep_failed (h : StageStep turn scope stage scope' stage') (herrors : scope'.errors = [])
    (hf : scope'.failed = true) (hnot : scope.failed = false) : stage'.hasFailed = true := by
  cases h with
  | failed => rfl
  | joinFailed => exact absurd herrors (report_errors _ _)
  | _ => cases hf.symm.trans hnot

theorem writeStep_failed {task task' : WriteTask Chunk}
    (h : WriteStep turn task file failed task' file') (hf : failed = true) : task'.hasFailed = true := by
  cases h with
  | failed => rfl
  | _ => cases hf

theorem failed_of_scope {scope : Scope} {failed : Bool}
    (h : (if failed = true then scope.fail else scope).failed = true) (hnot : scope.failed = false) :
    failed = true := by
  cases failed with
  | false => exact hnot.symm.trans h
  | true => rfl

theorem trouble_new (h : PipelineStep cfg turn p p') (hcalm : Calm p') (ht : Tended p)
    (hf : p'.scope.failed = true) (hnot : p.scope.failed = false) : Trouble p' := by
  cases h with
  | ingestionStopped => exact .inl rfl
  | encodingFailed | encodedRefused => exact .inr (.inl rfl)
  | writeFailed => exact .inr (.inr (.inl rfl))
  | encode h step =>
    have hdoomed := encodeStep_doomed step (.inl (failed_of_scope hf hnot))
    rcases ht.encoding with hrun | hfailed | hnil
    · have hlt := (List.getElem?_eq_some_iff.mp h).1
      exact .inr (.inr (.inr (.inl ⟨hrun, _, List.mem_set hlt _, hdoomed⟩)))
    · exact .inr (.inl hfailed)
    · rw [hnil] at h
      cases h
  | write step =>
    have hfailed := writeStep_failed step (failed_of_scope hf hnot)
    rcases ht.writing with hrun | hstage | hidle
    · exact .inr (.inr (.inr (.inr ⟨hrun, hfailed⟩)))
    · exact .inr (.inr (.inl hstage))
    · have hactive := writeStep_active step
      rw [hidle] at hactive
      cases hactive
  | ingestionStage step => exact .inl (stageStep_failed step hcalm.1 hf hnot)
  | coordinatorStage step => exact .inr (.inl (stageStep_failed step hcalm.1 hf hnot))
  | writerStage step => exact .inr (.inr (.inl (stageStep_failed step hcalm.1 hf hnot)))
  | _ => cases hf.symm.trans hnot

theorem watched_step (h : PipelineStep cfg turn p p') (hw : Watched p) : Watched p' where
  receiving := receiving_idle h hw.receiving
  cancelled hcalm := by
    have hbefore := calm_of_step h hcalm
    rw [(calm_scope (pipelineStep_scope h) hcalm).1]
    exact hw.cancelled hbefore
  aborting hcalm := by
    have hbefore := calm_of_step h hcalm
    rw [(calm_scope (pipelineStep_scope h) hcalm).2]
    exact hw.aborting hbefore
  tended hcalm :=
    have hbefore := calm_of_step h hcalm
    tended_step h hcalm (hw.cancelled hbefore) (hw.aborting hbefore) (hw.tended hbefore)
  failed hcalm hf := by
    have hbefore := calm_of_step h hcalm
    cases hnot : p.scope.failed with
    | false => exact trouble_new h hcalm (hw.tended hbefore) hf hnot
    | true =>
      exact trouble_kept h hcalm hw.receiving (hw.cancelled hbefore) (hw.aborting hbefore)
        (hw.failed hbefore hnot)
  errors := by
    have hchange := pipelineStep_scope h
    have herrors := hw.errors
    generalize p.scope = scope, p'.scope = scope' at *
    cases hchange with
    | same | failed => exact herrors
    | report cause => exact fun _ => report_cancelled _ cause herrors
    | outside => exact fun _ => rfl

theorem watched_new : Watched (.new cfg) where
  receiving := fun _ => rfl
  cancelled _ := rfl
  aborting _ := rfl
  tended _ := ⟨.inl rfl, .inl rfl⟩
  failed _ := nofun
  errors h := absurd rfl h

theorem reachable_watched (h : Reachable cfg p) : Watched p := by
  induction h with
  | refl => exact watched_new
  | tail _ step ih =>
    obtain ⟨_, step⟩ := step
    exact watched_step step ih

-- ---------------------------------------------------------------------------
-- The result
-- ---------------------------------------------------------------------------

/-- Once it has returned nothing goes on, and the result is what was settled. -/
structure Returned (p : PipelineState cfg) (result : Except (List Failure) Nat) : Prop where
  ingestion : p.ingestion = .joined
  coordinator : p.coordinator = .joined
  writer : p.writer = .joined
  pending : p.pending = []
  writeTask : p.writeTask = .idle
  result : result = if p.scope.errors = [] then .ok p.totalRows else .error p.scope.errors

theorem returned_step (h : PipelineStep cfg turn p p')
    (hr : ∀ result, p.result = some result → Returned p result) :
    ∀ result, p'.result = some result → Returned p' result := by
  intro result hresult
  cases h with
  | settled hi hc hw hp ht =>
    cases hresult
    exact ⟨hi, hc, hw, hp, ht, rfl⟩
  | closeSource | cancelOutside =>
    have hret := hr result hresult
    exact ⟨hret.ingestion, hret.coordinator, hret.writer, hret.pending, hret.writeTask, hret.result⟩
  | sendBatch _ hrun =>
    rw [(hr result hresult).ingestion] at hrun
    cases hrun
  | receiveBatch h | batchesEnded h | sendRowGroup h | rowGroupRefused h | ingestNext h
  | ingestionDone h | ingestionStopped h => cases h.symm.trans (hr result hresult).ingestion
  | receiveWork h | workEnded h | takeEncoded h | encodingFailed h | sendEncoded h
  | encodedRefused h | coordinatorDone h => cases h.symm.trans (hr result hresult).coordinator
  | receiveEncoded h | encodedEnded h | written h | closed h | writeFailed h =>
    cases h.symm.trans (hr result hresult).writer
  | encode h =>
    rw [(hr result hresult).pending] at h
    cases h
  | dropEncoding =>
    have hret := hr result hresult
    exact ⟨hret.ingestion, hret.coordinator, hret.writer, rfl, hret.writeTask, hret.result⟩
  | write step =>
    have hactive := writeStep_active step
    rw [(hr result hresult).writeTask] at hactive
    cases hactive
  | dropWrite =>
    have hret := hr result hresult
    exact ⟨hret.ingestion, hret.coordinator, hret.writer, hret.pending, rfl, hret.result⟩
  | ingestionStage step =>
    rw [(hr result hresult).ingestion] at step
    cases step
  | coordinatorStage step =>
    rw [(hr result hresult).coordinator] at step
    cases step
  | writerStage step =>
    rw [(hr result hresult).writer] at step
    cases step

theorem reachable_returned (h : Reachable cfg p) :
    ∀ result, p.result = some result → Returned p result := by
  induction h with
  | refl => exact nofun
  | tail _ step ih =>
    obtain ⟨_, step⟩ := step
    exact returned_step step ih

theorem no_trouble (hr : Returned p result) : ¬ Trouble p := by
  rintro (h | h | h | ⟨h, -⟩ | ⟨h, -⟩)
  · rw [hr.ingestion] at h
    cases h
  · rw [hr.coordinator] at h
    cases h
  · rw [hr.writer] at h
    cases h
  · rw [hr.coordinator] at h
    cases h
  · rw [hr.writer] at h
    cases h

theorem returned_ok (hr : Returned p (.ok n)) : p.scope.errors = [] ∧ n = p.totalRows := by
  have hresult := hr.result
  split at hresult
  · exact ⟨‹_›, Except.ok.inj hresult⟩
  · cases hresult

/-- A failure without cancellation from outside is among the errors. -/
theorem failed_errors (hw : Watched p) (hr : Returned p result) (hout : p.scope.outside = false)
    (hf : p.scope.failed = true) : p.scope.errors ≠ [] := by
  intro herrors
  exact no_trouble hr (hw.failed ⟨herrors, hout⟩ hf)

end SilkChiffon.Pipeline
