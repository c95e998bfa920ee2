import Mathlib.Logic.Relation
import SilkChiffon.Parquet.RowGroupEncoding

/-!
# The Parquet pipeline

`run_pipeline` as a transition system: a source that sends batches, the
ingestion, encoding and writing stages with the channels between them, the
tasks that the stages start, and the loop that settles the stages. A stage ends
early when its scope is cancelled or when it is aborted. Any stage or task may
fail or panic at any point; what is not chosen freely is what success looks like.
-/

namespace SilkChiffon.Pipeline

open Ingestion

variable {α ε A P : Type}

-- ---------------------------------------------------------------------------
-- Ingestion, batch by batch
-- ---------------------------------------------------------------------------

inductive IngestionState (cfg : Ingestion.Config α ε A P)
  | passthrough (coalescer : cfg.coalescer.State)
  | analyze (state : AnalyzeState cfg.coalescer)

def ingestionStart (cfg : Ingestion.Config α ε A P) : Task α ε P (IngestionState cfg) :=
  if cfg.columnsToAnalyze = [] then pure (.passthrough (cfg.coalescer.new cfg.maxRowGroupSize))
  else do
    let state ← AnalyzeState.tryNew cfg
    pure (.analyze state)

def ingestionBatch (cfg : Ingestion.Config α ε A P) (batch : Batch α) :
    IngestionState cfg → Task α ε P (IngestionState cfg)
  | .passthrough coalescer => do
    let coalescer ← passthroughBatch cfg coalescer batch
    pure (.passthrough coalescer)
  | .analyze state => do
    let state ← analyzeBatch cfg state batch
    pure (.analyze state)

def ingestionEnd (cfg : Ingestion.Config α ε A P) : IngestionState cfg → Task α ε P PUnit
  | .passthrough coalescer => passthroughEnd cfg coalescer
  | .analyze state => analyzeEnd cfg state

-- ---------------------------------------------------------------------------
-- State
-- ---------------------------------------------------------------------------

structure PipelineConfig (α ε A P : Type) where
  ingestion : Ingestion.Config α ε A P
  encoder : Encoder α P
  ingestionQueueSize : Nat
  encodingQueueSize : Nat
  writingQueueSize : Nat
  maxRowGroupConcurrency : Nat
  maxRowGroupSize_pos : 0 < ingestion.maxRowGroupSize
  ingestionQueueSize_pos : 0 < ingestionQueueSize
  encodingQueueSize_pos : 0 < encodingQueueSize
  writingQueueSize_pos : 0 < writingQueueSize
  maxRowGroupConcurrency_pos : 0 < maxRowGroupConcurrency

/-- What `join_next` returns for a stage. -/
inductive StageResult
  | ok
  | failed (cause : Failure)
  | aborted
  deriving DecidableEq

/-- A stage task of the pipeline's `JoinSet`. Its ends of the channels go when
it is no longer running. -/
inductive Stage (σ : Type)
  | running (state : σ)
  | finished (result : StageResult)
  | joined

def Stage.isRunning : Stage σ → Bool
  | running _ => true
  | _ => false

/-- `sending` are the row groups that a batch, or the end, completed; then the
loop goes on with the next state, or returns. -/
inductive IngestionPc (cfg : Ingestion.Config α ε A P)
  | receiving (state : IngestionState cfg)
  | sending (groups : List (RowGroupWork α P)) (next : Except (Stop ε) (Option (IngestionState cfg)))

structure CoordinatorPc (Chunk : Type) where
  inputDone : Bool
  sending : Option (EncodedRowGroup Chunk)

inductive WriterPc
  | receiving | writing | closing
  deriving DecidableEq

inductive FileCall (Chunk : Type)
  | nextRowGroup
  | append (chunk : Chunk)
  | closeRowGroup
  | close
  deriving DecidableEq

/-- The task on the writing runtime. -/
inductive WriteTask (Chunk : Type)
  | idle
  | rowGroup (chunks : List Chunk)
  | appending (chunks : List Chunk)
  | closing
  | ended (result : Except Failure Unit)

/-- The cancellation token, the errors that settling collected, and what
happened: a cancellation from outside, a failure anywhere. -/
structure Scope where
  cancelled : Bool
  aborting : Bool
  errors : List Failure
  outside : Bool
  failed : Bool
  deriving DecidableEq

structure PipelineState (cfg : PipelineConfig α ε A P) where
  /-- Every batch that entered the ingestion channel. -/
  sent : List (Batch α)
  sourceOpen : Bool
  ingestionQueue : List (Batch α)
  ingestion : Stage (IngestionPc cfg.ingestion)
  /-- Every row group that entered the encoding channel. -/
  ingested : List (RowGroupWork α P)
  encodingQueue : List (RowGroupWork α P)
  coordinator : Stage (CoordinatorPc cfg.encoder.Chunk)
  pending : List (EncodeTask cfg.encoder)
  writingQueue : List (EncodedRowGroup cfg.encoder.Chunk)
  writer : Stage WriterPc
  writeTask : WriteTask cfg.encoder.Chunk
  file : List (FileCall cfg.encoder.Chunk)
  totalRows : Nat
  scope : Scope
  /-- What `run_pipeline` returned. -/
  result : Option (Except (List Failure) Nat)

namespace PipelineState

variable {cfg : PipelineConfig α ε A P}

def new (cfg : PipelineConfig α ε A P) : PipelineState cfg where
  sent := []
  sourceOpen := true
  ingestionQueue := []
  ingestion := .running (.sending (ingestionStart cfg.ingestion).emitted
    ((ingestionStart cfg.ingestion).result.map some))
  ingested := []
  encodingQueue := []
  coordinator := .running ⟨false, none⟩
  pending := []
  writingQueue := []
  writer := .running .receiving
  writeTask := .idle
  file := []
  totalRows := 0
  scope := ⟨false, false, [], false, false⟩
  result := none

end PipelineState

-- ---------------------------------------------------------------------------
-- Steps
-- ---------------------------------------------------------------------------

def Scope.fail (scope : Scope) : Scope := { scope with failed := true }

def Scope.report (scope : Scope) : Failure → Scope
  | .panicked =>
    { scope with errors := scope.errors ++ [.panicked], cancelled := true, aborting := true }
  | .error =>
    if scope.errors = [] then
      { scope with errors := [.error], cancelled := true, aborting := true }
    else { scope with errors := scope.errors ++ [.error] }

/-- What can happen to a stage from outside, or at any point in it, and how
`settle_pipeline_tasks` joins it. -/
inductive StageStep : Turn → Scope → Stage σ → Scope → Stage σ → Prop
  | cancelled (h : scope.cancelled = true) :
      StageStep .program scope (.running state) scope (.finished .ok)
  | aborted (h : scope.aborting = true) :
      StageStep .program scope (.running state) scope (.finished .aborted)
  | failed (cause : Failure) :
      StageStep .fault scope (.running state) scope.fail (.finished (.failed cause))
  | joinOk : StageStep .program scope (.finished .ok) scope .joined
  | joinAborted : StageStep .program scope (.finished .aborted) scope .joined
  | joinFailed :
      StageStep .program scope (.finished (.failed cause)) (scope.report cause) .joined

def WriteTask.isActive : WriteTask Chunk → Bool
  | rowGroup _ => true
  | appending _ => true
  | closing => true
  | _ => false

inductive WriteStep : Turn →
    WriteTask Chunk → List (FileCall Chunk) → Bool → WriteTask Chunk → List (FileCall Chunk) → Prop
  | nextRowGroup :
      WriteStep .program (.rowGroup chunks) file false (.appending chunks) (file ++ [.nextRowGroup])
  | append :
      WriteStep .program (.appending (chunk :: chunks)) file false (.appending chunks)
        (file ++ [.append chunk])
  | closeRowGroup :
      WriteStep .program (.appending []) file false (.ended (.ok ())) (file ++ [.closeRowGroup])
  | close : WriteStep .program .closing file false (.ended (.ok ())) (file ++ [.close])
  | failed (h : task.isActive = true) (cause : Failure) :
      WriteStep .fault task file true (.ended (.error cause)) file

def Stop.failure : Stop ε → Failure
  | .panic _ => .panicked
  | _ => .error

inductive PipelineStep (cfg : PipelineConfig α ε A P) : Turn → PipelineState cfg → PipelineState cfg → Prop
  -- the source
  | sendBatch (hopen : p.sourceOpen = true) (hrun : p.ingestion.isRunning = true)
      (hq : p.ingestionQueue.length < cfg.ingestionQueueSize) (batch : Batch α) :
      PipelineStep cfg .source p
        { p with sent := p.sent ++ [batch], ingestionQueue := p.ingestionQueue ++ [batch] }
  | closeSource (hopen : p.sourceOpen = true) :
      PipelineStep cfg .source p { p with sourceOpen := false }
  -- `ingestion_task`
  | receiveBatch (h : p.ingestion = .running (.receiving state))
      (hq : p.ingestionQueue = batch :: queue) :
      PipelineStep cfg .program p
        { p with
          ingestionQueue := queue
          ingestion := .running (.sending (ingestionBatch cfg.ingestion batch state).emitted
            ((ingestionBatch cfg.ingestion batch state).result.map some)) }
  | batchesEnded (h : p.ingestion = .running (.receiving state)) (hq : p.ingestionQueue = [])
      (hclosed : p.sourceOpen = false) :
      PipelineStep cfg .program p
        { p with
          ingestion := .running (.sending (ingestionEnd cfg.ingestion state).emitted
            ((ingestionEnd cfg.ingestion state).result.map fun _ => none)) }
  | sendRowGroup (h : p.ingestion = .running (.sending (group :: groups) next))
      (hrun : p.coordinator.isRunning = true)
      (hq : p.encodingQueue.length < cfg.encodingQueueSize) :
      PipelineStep cfg .program p
        { p with
          ingestion := .running (.sending groups next)
          ingested := p.ingested ++ [group]
          encodingQueue := p.encodingQueue ++ [group] }
  | rowGroupRefused (h : p.ingestion = .running (.sending (group :: groups) next))
      (hrun : p.coordinator.isRunning = false) :
      PipelineStep cfg .program p { p with ingestion := .finished .ok }
  | ingestNext (h : p.ingestion = .running (.sending [] (.ok (some state)))) :
      PipelineStep cfg .program p { p with ingestion := .running (.receiving state) }
  | ingestionDone (h : p.ingestion = .running (.sending [] (.ok none))) :
      PipelineStep cfg .program p { p with ingestion := .finished .ok }
  | ingestionStopped (h : p.ingestion = .running (.sending [] (.error stop))) :
      PipelineStep cfg .program p
        { p with ingestion := .finished (.failed (Stop.failure stop)), scope := p.scope.fail }
  -- `encoder_coordinator`
  | receiveWork (h : p.coordinator = .running ⟨false, none⟩)
      (hlt : p.pending.length < cfg.maxRowGroupConcurrency) (hq : p.encodingQueue = work :: queue) :
      PipelineStep cfg .program p { p with encodingQueue := queue, pending := p.pending ++ [.spawned work] }
  | workEnded (h : p.coordinator = .running ⟨false, none⟩)
      (hlt : p.pending.length < cfg.maxRowGroupConcurrency) (hq : p.encodingQueue = [])
      (hrun : p.ingestion.isRunning = false) :
      PipelineStep cfg .program p { p with coordinator := .running ⟨true, none⟩ }
  | takeEncoded (h : p.coordinator = .running ⟨inputDone, none⟩)
      (hp : p.pending = .ended work (.ok encoded) :: pending) :
      PipelineStep cfg .program p { p with coordinator := .running ⟨inputDone, some encoded⟩, pending }
  | encodingFailed (h : p.coordinator = .running ⟨inputDone, none⟩)
      (hp : p.pending = .ended work (.error cause) :: pending) :
      PipelineStep cfg .program p
        { p with coordinator := .finished (.failed .error), pending, scope := p.scope.fail }
  | sendEncoded (h : p.coordinator = .running ⟨inputDone, some encoded⟩)
      (hrun : p.writer.isRunning = true) (hq : p.writingQueue.length < cfg.writingQueueSize) :
      PipelineStep cfg .program p
        { p with
          coordinator := .running ⟨inputDone, none⟩
          writingQueue := p.writingQueue ++ [encoded] }
  | encodedRefused (h : p.coordinator = .running ⟨inputDone, some encoded⟩)
      (hrun : p.writer.isRunning = false) :
      PipelineStep cfg .program p
        { p with coordinator := .finished (.failed .error), scope := p.scope.fail }
  | coordinatorDone (h : p.coordinator = .running ⟨inputDone, none⟩)
      (hdone : inputDone = true ∨ cfg.maxRowGroupConcurrency ≤ p.pending.length)
      (hp : p.pending = []) :
      PipelineStep cfg .program p { p with coordinator := .finished .ok }
  -- tasks on the encoding runtime
  | encode (h : p.pending[i]? = some t) (step : EncodeStep turn t failed t') :
      PipelineStep cfg turn p
        { p with
          pending := p.pending.set i t'
          scope := if failed then p.scope.fail else p.scope }
  | dropEncoding (hrun : p.coordinator.isRunning = false) (hp : p.pending ≠ []) :
      PipelineStep cfg .program p { p with pending := [] }
  -- `writer_task`
  | receiveEncoded (h : p.writer = .running .receiving) (hq : p.writingQueue = encoded :: queue) :
      PipelineStep cfg .program p
        { p with
          writingQueue := queue
          totalRows := p.totalRows + encoded.numRows
          writer := .running .writing
          writeTask := .rowGroup encoded.chunks }
  | encodedEnded (h : p.writer = .running .receiving) (hq : p.writingQueue = [])
      (hrun : p.coordinator.isRunning = false) :
      PipelineStep cfg .program p { p with writer := .running .closing, writeTask := .closing }
  | written (h : p.writer = .running .writing) (ht : p.writeTask = .ended (.ok ())) :
      PipelineStep cfg .program p { p with writer := .running .receiving, writeTask := .idle }
  | closed (h : p.writer = .running .closing) (ht : p.writeTask = .ended (.ok ())) :
      PipelineStep cfg .program p { p with writer := .finished .ok, writeTask := .idle }
  | writeFailed (h : p.writer = .running state) (ht : p.writeTask = .ended (.error cause)) :
      PipelineStep cfg .program p
        { p with
          writer := .finished (.failed .error)
          writeTask := .idle
          scope := p.scope.fail }
  -- tasks on the writing runtime
  | write (step : WriteStep turn p.writeTask p.file failed writeTask file) :
      PipelineStep cfg turn p
        { p with writeTask, file, scope := if failed then p.scope.fail else p.scope }
  | dropWrite (hrun : p.writer.isRunning = false) (ht : p.writeTask ≠ .idle) :
      PipelineStep cfg .program p { p with writeTask := .idle }
  -- the scope
  | ingestionStage (step : StageStep turn p.scope p.ingestion scope stage) :
      PipelineStep cfg turn p { p with scope, ingestion := stage }
  | coordinatorStage (step : StageStep turn p.scope p.coordinator scope stage) :
      PipelineStep cfg turn p { p with scope, coordinator := stage }
  | writerStage (step : StageStep turn p.scope p.writer scope stage) :
      PipelineStep cfg turn p { p with scope, writer := stage }
  | cancelOutside :
      PipelineStep cfg .outside p { p with scope := { p.scope with cancelled := true, outside := true } }
  | settled (hi : p.ingestion = .joined) (hc : p.coordinator = .joined) (hw : p.writer = .joined)
      (hp : p.pending = []) (ht : p.writeTask = .idle) (hr : p.result = none) :
      PipelineStep cfg .program p
        { p with
          result := some
            (if p.scope.errors = [] then .ok p.totalRows else .error p.scope.errors) }

/-- The states that `run_pipeline` can get to in any interleaving. -/
def Reachable (cfg : PipelineConfig α ε A P) (p : PipelineState cfg) : Prop :=
  Relation.ReflTransGen (fun p p' => ∃ turn, PipelineStep cfg turn p p') (.new cfg) p

end SilkChiffon.Pipeline
