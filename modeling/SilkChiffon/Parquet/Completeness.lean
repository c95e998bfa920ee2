import SilkChiffon.Parquet.Settling

/-!
# What a finished pipeline wrote

As long as nothing failed, the channels and stages hold exactly the row groups
that are not in the file yet, in order (`Flowing`). A pipeline that returns
without an error has nothing left in them.
-/

namespace SilkChiffon.Pipeline

open Ingestion Liveness

variable {α ε A P : Type} {cfg : PipelineConfig α ε A P} {p p' : PipelineState cfg}

-- ---------------------------------------------------------------------------
-- Ingestion, batch by batch
-- ---------------------------------------------------------------------------

def fed (cfg : Ingestion.Config α ε A P) (received : List (Batch α)) :
    Task α ε P (IngestionState cfg) := do
  let state ← ingestionStart cfg
  received.foldlM (fun state batch => ingestionBatch cfg batch state) state

theorem fed_snoc (cfg : Ingestion.Config α ε A P) (received : List (Batch α)) (batch : Batch α) :
    fed cfg (received ++ [batch]) = (fed cfg received >>= ingestionBatch cfg batch) := by
  simp [fed]

theorem passthroughFrom_eq {cfg : Ingestion.Config α ε A P} (coalescer : cfg.coalescer.State)
    (batches : List (Batch α)) :
    passthroughFrom cfg coalescer batches =
      (batches.foldlM (fun state batch => ingestionBatch cfg batch state)
        (.passthrough coalescer) >>= ingestionEnd cfg) := by
  induction batches generalizing coalescer with
  | nil => simp [passthroughFrom, ingestionEnd]
  | cons batch rest ih => simp [passthroughFrom, ingestionBatch, ih]

theorem analyzeFrom_eq {cfg : Ingestion.Config α ε A P} (state : AnalyzeState cfg.coalescer)
    (batches : List (Batch α)) :
    analyzeFrom cfg state batches =
      (batches.foldlM (fun state batch => ingestionBatch cfg batch state)
        (.analyze state) >>= ingestionEnd cfg) := by
  induction batches generalizing state with
  | nil => simp [analyzeFrom, ingestionEnd]
  | cons batch rest ih => simp [analyzeFrom, ingestionBatch, ih]

/-- The steps of the stage add up to `ingestion_task`. -/
theorem ingestionTask_eq (cfg : Ingestion.Config α ε A P) (batches : List (Batch α)) :
    ingestionTask cfg batches = (fed cfg batches >>= ingestionEnd cfg) := by
  unfold ingestionTask fed ingestionStart ingestionTaskPassthrough ingestionTaskAnalyze
  split
  · simp [passthroughFrom_eq]
  · simp [analyzeFrom_eq]

-- ---------------------------------------------------------------------------
-- Row groups in flight
-- ---------------------------------------------------------------------------

/-- What was sent is what the loop was fed and what is still queued, and its
row groups are those it sent on and those it is about to. -/
def IngestionFlow (p : PipelineState cfg) : Prop :=
  match p.ingestion with
  | .running (.receiving state) =>
    ∃ received, p.sent = received ++ p.ingestionQueue ∧
      fed cfg.ingestion received = ⟨p.ingested, .ok state⟩
  | .running (.sending groups next) =>
    (∃ received result, p.sent = received ++ p.ingestionQueue ∧
      fed cfg.ingestion received = ⟨p.ingested ++ groups, result⟩ ∧ next = result.map some) ∨
    (p.sourceOpen = false ∧ ∃ result,
      ingestionTask cfg.ingestion p.sent = ⟨p.ingested ++ groups, result⟩ ∧
      next = result.map fun _ => none)
  | .finished .ok => ingestionTask cfg.ingestion p.sent = ⟨p.ingested, .ok ⟨⟩⟩
  | .joined => ingestionTask cfg.ingestion p.sent = ⟨p.ingested, .ok ⟨⟩⟩
  | .finished _ => False

def CoordinatorFlow (p : PipelineState cfg) : Prop :=
  match p.coordinator with
  | .running ⟨inputDone, _⟩ =>
    inputDone = true → p.ingestion.isRunning = false ∧ p.encodingQueue = []
  | .finished .ok => p.ingestion.isRunning = false ∧ p.encodingQueue = [] ∧ p.pending = []
  | .joined => p.ingestion.isRunning = false ∧ p.encodingQueue = [] ∧ p.pending = []
  | .finished _ => False

def fileCalls (groups : List (EncodedRowGroup Chunk)) : List (FileCall Chunk) :=
  groups.flatMap fun group => .nextRowGroup :: group.chunks.map .append ++ [.closeRowGroup]

/-- How far the row group behind those `before` is written. -/
def WriteProgress (before : List (EncodedRowGroup Chunk)) (group : EncodedRowGroup Chunk)
    (file : List (FileCall Chunk)) : WriteTask Chunk → Prop
  | .rowGroup chunks => chunks = group.chunks ∧ file = fileCalls before
  | .appending rest => ∃ done, group.chunks = done ++ rest ∧
      file = fileCalls before ++ .nextRowGroup :: done.map .append
  | .ended (.ok _) => file = fileCalls (before ++ [group])
  | _ => False

def WriterFlow (p : PipelineState cfg) (written : List (EncodedRowGroup cfg.encoder.Chunk)) : Prop :=
  match p.writer with
  | .running .receiving => p.writeTask = .idle ∧ p.file = fileCalls written
  | .running .writing => ∃ before group, written = before ++ [group] ∧
      WriteProgress before group p.file p.writeTask
  | .running .closing => p.coordinator.isRunning = false ∧ p.writingQueue = [] ∧
      (p.writeTask = .closing ∧ p.file = fileCalls written ∨
        p.writeTask = .ended (.ok ()) ∧ p.file = fileCalls written ++ [.close])
  | .finished .ok => p.coordinator.isRunning = false ∧ p.writingQueue = [] ∧
      p.writeTask = .idle ∧ p.file = fileCalls written ++ [.close]
  | .joined => p.coordinator.isRunning = false ∧ p.writingQueue = [] ∧
      p.writeTask = .idle ∧ p.file = fileCalls written ++ [.close]
  | .finished _ => False

/-- Row groups are `taken` in order, and each is written, queued or in hand. -/
structure ChainFlow (p : PipelineState cfg) (taken : List (RowGroupWork α P))
    (written : List (EncodedRowGroup cfg.encoder.Chunk)) : Prop where
  ingested : p.ingested = taken ++ p.pending.map EncodeTask.work ++ p.encodingQueue
  encoded : List.Forall₂ (fun work encoded => cfg.encoder.encodeRowGroup work = .ok encoded) taken
    (written ++ p.writingQueue ++ p.coordinator.inHand)
  totalRows : p.totalRows = (written.map EncodedRowGroup.numRows).sum
  writer : WriterFlow p written

structure Flowing (p : PipelineState cfg) : Prop where
  ingestion : IngestionFlow p
  coordinator : CoordinatorFlow p
  tasks : ∀ t ∈ p.pending, t.Sound
  chain : ∃ taken written, ChainFlow p taken written

structure Clean (scope : Scope) : Prop where
  failed : scope.failed = false
  cancelled : scope.cancelled = false
  aborting : scope.aborting = false

theorem stageStep_clean (h : StageStep turn scope stage scope' stage') (hc : Clean scope)
    (hc' : Clean scope') : ∃ result, stage = .finished result ∧ stage' = .joined := by
  cases h with
  | cancelled h => cases hc.cancelled.symm.trans h
  | aborted h => cases hc.aborting.symm.trans h
  | failed => cases hc'.failed
  | joinOk | joinAborted | joinFailed => exact ⟨_, rfl, rfl⟩

theorem fed_batch {cfg : Ingestion.Config α ε A P} {received : List (Batch α)} {batch : Batch α}
    {state : IngestionState cfg}
    (h : fed cfg received = ⟨ingested, .ok state⟩) :
    fed cfg (received ++ [batch]) = ⟨ingested ++ (ingestionBatch cfg batch state).emitted,
      (ingestionBatch cfg batch state).result⟩ := by
  rw [fed_snoc, h]
  rfl

theorem fed_end {cfg : Ingestion.Config α ε A P} {received : List (Batch α)}
    {state : IngestionState cfg}
    (h : fed cfg received = ⟨ingested, .ok state⟩) :
    ingestionTask cfg received = ⟨ingested ++ (ingestionEnd cfg state).emitted,
      (ingestionEnd cfg state).result⟩ := by
  rw [ingestionTask_eq, h]
  rfl

theorem ingestionFlow_send (hi : IngestionFlow p) (hopen : p.sourceOpen = true)
    (hrun : p.ingestion.isRunning = true) (batch : Batch α) :
    IngestionFlow
      { p with sent := p.sent ++ [batch], ingestionQueue := p.ingestionQueue ++ [batch] } := by
  unfold IngestionFlow at *
  cases hstage : p.ingestion with
  | finished | joined =>
    rw [hstage] at hrun
    cases hrun
  | running pc =>
    rw [hstage] at hi
    cases pc with
    | receiving state =>
      obtain ⟨received, hsent, hfed⟩ := hi
      exact ⟨received, by simp [hsent], hfed⟩
    | sending groups next =>
      rcases hi with ⟨received, result, hsent, hfed, hnext⟩ | ⟨hclosed, -⟩
      · exact .inl ⟨received, result, by simp [hsent], hfed, hnext⟩
      · cases hopen.symm.trans hclosed

theorem ingestionFlow_close (hi : IngestionFlow p) :
    IngestionFlow { p with sourceOpen := false } := by
  unfold IngestionFlow at *
  cases hstage : p.ingestion with
  | joined => simpa [hstage] using hi
  | finished result =>
    rw [hstage] at hi
    cases result with
    | ok => exact hi
    | failed | aborted => cases hi
  | running pc =>
    rw [hstage] at hi
    cases pc with
    | receiving => exact hi
    | sending => exact hi.imp_right fun h => ⟨rfl, h.2⟩

/-- A coordinator that stopped by itself was told that the input had ended, and
took every encoded row group. -/
theorem coordinator_ended (hf : CoordinatorFlow p) (hrun : p.coordinator.isRunning = false) :
    p.ingestion.isRunning = false ∧ p.encodingQueue = [] ∧ p.pending = [] := by
  unfold CoordinatorFlow at hf
  cases hstage : p.coordinator with
  | running =>
    rw [hstage] at hrun
    cases hrun
  | joined =>
    rw [hstage] at hf
    exact hf
  | finished result =>
    rw [hstage] at hf
    cases result with
    | ok => exact hf
    | failed | aborted => cases hf

theorem ingestionFlow_step (h : PipelineStep cfg turn p p') (hc : Clean p.scope) (hc' : Clean p'.scope)
    (hi : IngestionFlow p) (hf : CoordinatorFlow p) : IngestionFlow p' := by
  cases h with
  | sendBatch hopen hrun _ batch => exact ingestionFlow_send hi hopen hrun batch
  | closeSource => exact ingestionFlow_close hi
  | receiveBatch h hq =>
    simp only [IngestionFlow, h] at hi
    obtain ⟨received, hsent, hfed⟩ := hi
    refine .inl ⟨_, _, ?_, fed_batch hfed, rfl⟩
    simp [hsent, hq]
  | batchesEnded h hq hclosed =>
    simp only [IngestionFlow, h] at hi
    obtain ⟨received, hsent, hfed⟩ := hi
    rw [hq, List.append_nil] at hsent
    refine .inr ⟨hclosed, _, ?_, rfl⟩
    rw [hsent]
    exact fed_end hfed
  | sendRowGroup h =>
    simp only [IngestionFlow, h] at hi
    rcases hi with ⟨received, result, hsent, hfed, hnext⟩ | ⟨hclosed, result, htask, hnext⟩
    · exact .inl ⟨received, result, hsent, by simpa using hfed, hnext⟩
    · exact .inr ⟨hclosed, result, by simpa using htask, hnext⟩
  | rowGroupRefused h hrun =>
    have hended := (coordinator_ended hf hrun).1
    rw [h] at hended
    cases hended
  | ingestNext h =>
    simp only [IngestionFlow, h, List.append_nil] at hi
    rcases hi with ⟨received, result, hsent, hfed, hnext⟩ | ⟨hclosed, result, htask, hnext⟩
    · cases result with
      | error => cases hnext
      | ok state =>
        cases hnext
        exact ⟨received, hsent, hfed⟩
    · cases result <;> cases hnext
  | ingestionDone h =>
    simp only [IngestionFlow, h, List.append_nil] at hi
    rcases hi with ⟨received, result, hsent, hfed, hnext⟩ | ⟨hclosed, result, htask, hnext⟩
    · cases result <;> cases hnext
    · cases result with
      | error => cases hnext
      | ok => exact htask
  | ingestionStopped => cases hc'.failed
  | ingestionStage step =>
    obtain ⟨result, hstage, rfl⟩ := stageStep_clean step hc hc'
    unfold IngestionFlow at hi
    rw [hstage] at hi
    cases result with
    | ok => exact hi
    | failed | aborted => cases hi
  | _ => exact hi

theorem coordinatorFlow_frame (hf : CoordinatorFlow p) (hstage : p'.coordinator = p.coordinator)
    (hpending : p.pending = [] → p'.pending = [])
    (hi : p.ingestion.isRunning = false →
      p'.ingestion.isRunning = false ∧ p'.encodingQueue = p.encodingQueue) :
    CoordinatorFlow p' := by
  have hended (h : p.ingestion.isRunning = false ∧ p.encodingQueue = [] ∧ p.pending = []) :
      p'.ingestion.isRunning = false ∧ p'.encodingQueue = [] ∧ p'.pending = [] :=
    ⟨(hi h.1).1, (hi h.1).2.trans h.2.1, hpending h.2.2⟩
  unfold CoordinatorFlow at *
  rw [hstage]
  cases hc : p.coordinator with
  | running pc =>
    rw [hc] at hf
    exact fun hdone => ⟨(hi (hf hdone).1).1, (hi (hf hdone).1).2.trans (hf hdone).2⟩
  | joined =>
    rw [hc] at hf
    exact hended hf
  | finished result =>
    rw [hc] at hf
    cases result with
    | ok => exact hended hf
    | failed | aborted => cases hf

theorem isRunning_of {stage : Stage σ} (h : stage = .running state) : stage.isRunning = true := by
  rw [h]
  rfl

theorem coordinatorFlow_step (h : PipelineStep cfg turn p p') (hc : Clean p.scope)
    (hc' : Clean p'.scope) (hf : CoordinatorFlow p) : CoordinatorFlow p' := by
  cases h with
  | receiveBatch h | batchesEnded h | sendRowGroup h | rowGroupRefused h | ingestNext h
  | ingestionDone h =>
    refine coordinatorFlow_frame hf rfl id fun hrun => ?_
    rw [isRunning_of h] at hrun
    cases hrun
  | ingestionStage step =>
    exact coordinatorFlow_frame hf rfl id fun _ => ⟨stageStep_stopped step, rfl⟩
  | receiveWork h => simp [CoordinatorFlow, h]
  | workEnded _ _ hq hrun => exact fun _ => ⟨hrun, hq⟩
  | takeEncoded h | sendEncoded h =>
    simp only [CoordinatorFlow, h] at hf
    exact hf
  | coordinatorDone h hdone hp =>
    simp only [CoordinatorFlow, h] at hf
    have hlt := cfg.maxRowGroupConcurrency_pos
    have hinput := hdone.resolve_right (by simpa [hp] using Nat.ne_of_gt hlt)
    exact ⟨(hf hinput).1, (hf hinput).2, hp⟩
  | encode h =>
    refine coordinatorFlow_frame hf rfl (fun hnil => ?_) fun hrun => ⟨hrun, rfl⟩
    rw [hnil] at h
    cases h
  | dropEncoding => exact coordinatorFlow_frame hf rfl (fun _ => rfl) fun hrun => ⟨hrun, rfl⟩
  | ingestionStopped | encodingFailed | encodedRefused => cases hc'.failed
  | coordinatorStage step =>
    obtain ⟨result, hstage, rfl⟩ := stageStep_clean step hc hc'
    unfold CoordinatorFlow at hf
    rw [hstage] at hf
    cases result with
    | ok => exact hf
    | failed | aborted => cases hf
  | _ => exact hf

theorem tasks_step (h : PipelineStep cfg turn p p') (hs : ∀ t ∈ p.pending, t.Sound) :
    ∀ t ∈ p'.pending, t.Sound := by
  cases h with
  | receiveWork =>
    intro t hmem
    rcases List.mem_append.mp hmem with hmem | hmem
    · exact hs t hmem
    · rw [List.mem_singleton.mp hmem]
      trivial
  | takeEncoded _ hp | encodingFailed _ hp =>
    intro t hmem
    refine hs t ?_
    rw [hp]
    exact .tail _ hmem
  | encode h step =>
    intro t hmem
    rcases List.mem_or_eq_of_mem_set hmem with hmem | rfl
    · exact hs t hmem
    · exact encodeStep_sound step (hs _ (List.mem_of_getElem? h))
  | dropEncoding => exact nofun
  | _ => exact hs

theorem writerFlow_frame (hw : WriterFlow p written) (hstage : p'.writer = p.writer)
    (htask : p'.writeTask = p.writeTask) (hfile : p'.file = p.file)
    (hrun : p.coordinator.isRunning = false →
      p'.coordinator.isRunning = false ∧ p'.writingQueue = p.writingQueue) :
    WriterFlow p' written := by
  unfold WriterFlow at *
  rw [hstage, htask, hfile]
  cases hw' : p.writer with
  | running pc =>
    rw [hw'] at hw
    cases pc with
    | receiving | writing => exact hw
    | closing =>
      obtain ⟨hstopped, hq, hcalls⟩ := hw
      exact ⟨(hrun hstopped).1, (hrun hstopped).2.trans hq, hcalls⟩
  | joined =>
    rw [hw'] at hw
    obtain ⟨hstopped, hq, hcalls⟩ := hw
    exact ⟨(hrun hstopped).1, (hrun hstopped).2.trans hq, hcalls⟩
  | finished result =>
    rw [hw'] at hw
    cases result with
    | ok =>
      obtain ⟨hstopped, hq, hcalls⟩ := hw
      exact ⟨(hrun hstopped).1, (hrun hstopped).2.trans hq, hcalls⟩
    | failed | aborted => cases hw

theorem writeProgress_step {task task' : WriteTask Chunk} (h : WriteStep turn task file failed task' file')
    (hf : failed = false) (hp : WriteProgress before group file task) :
    WriteProgress before group file' task' := by
  cases h with
  | nextRowGroup =>
    obtain ⟨rfl, rfl⟩ := hp
    exact ⟨[], rfl, rfl⟩
  | append =>
    obtain ⟨done, hchunks, rfl⟩ := hp
    exact ⟨done ++ [_], hchunks.trans (List.append_cons ..), by simp⟩
  | closeRowGroup =>
    obtain ⟨done, hchunks, rfl⟩ := hp
    simp [WriteProgress, fileCalls, hchunks]
  | close => cases hp
  | failed => cases hf

theorem writerFlow_write (step : WriteStep turn p.writeTask p.file failed writeTask file)
    (hfailed : failed = false) (hw : WriterFlow p written) (scope : Scope) :
    WriterFlow { p with writeTask, file, scope } written := by
  have hactive := writeStep_active step
  unfold WriterFlow at *
  cases hstage : p.writer with
  | running pc =>
    rw [hstage] at hw
    cases pc with
    | receiving =>
      rw [hw.1] at hactive
      cases hactive
    | writing =>
      obtain ⟨before, group, hwritten, hprogress⟩ := hw
      exact ⟨before, group, hwritten, writeProgress_step step hfailed hprogress⟩
    | closing =>
      obtain ⟨hrun, hq, ⟨htask, hfile⟩ | ⟨htask, -⟩⟩ := hw
      · rw [htask] at step
        cases step with
        | close => exact ⟨hrun, hq, .inr ⟨rfl, by rw [hfile]⟩⟩
        | failed => cases hfailed
      · rw [htask] at hactive
        cases hactive
  | joined =>
    rw [hstage] at hw
    rw [hw.2.2.1] at hactive
    cases hactive
  | finished result =>
    rw [hstage] at hw
    cases result with
    | ok =>
      rw [hw.2.2.1] at hactive
      cases hactive
    | failed | aborted => cases hw

theorem writerFlow_drop (hw : WriterFlow p written) (hrun : p.writer.isRunning = false) :
    WriterFlow { p with writeTask := .idle } written := by
  unfold WriterFlow at *
  cases hstage : p.writer with
  | running =>
    rw [hstage] at hrun
    cases hrun
  | joined =>
    rw [hstage] at hw
    exact ⟨hw.1, hw.2.1, rfl, hw.2.2.2⟩
  | finished result =>
    rw [hstage] at hw
    cases result with
    | ok => exact ⟨hw.1, hw.2.1, rfl, hw.2.2.2⟩
    | failed | aborted => cases hw

theorem works_set {pending : List (EncodeTask E)} (h : pending[i]? = some t) (hwork : t'.work = t.work) :
    (pending.set i t').map EncodeTask.work = pending.map EncodeTask.work := by
  obtain ⟨before, after, hsplit, -, hset, -⟩ := Lists.split_at h
  rw [hset, hsplit]
  simp [hwork]

theorem failed_eq_false {scope : Scope} {failed : Bool}
    (h : (if failed = true then scope.fail else scope).failed = false) : failed = false := by
  cases failed with
  | false => rfl
  | true => cases h

theorem chain_step (h : PipelineStep cfg turn p p') (hc : Clean p.scope) (hc' : Clean p'.scope)
    (hs : ∀ t ∈ p.pending, t.Sound) (hcoordinator : CoordinatorFlow p)
    (hchain : ChainFlow p taken written) : ∃ taken written, ChainFlow p' taken written := by
  obtain ⟨hingested, hencoded, hrows, hwriter⟩ := hchain
  cases h with
  | sendRowGroup =>
    exact ⟨taken, written, by simp [hingested], hencoded, hrows, hwriter⟩
  | receiveWork _ _ hq =>
    exact ⟨taken, written, by simp [hingested, hq, EncodeTask.work], hencoded, hrows, hwriter⟩
  | workEnded h | coordinatorDone h =>
    refine ⟨taken, written, hingested, ?_, hrows, ?_⟩
    · simpa [h, Stage.inHand] using hencoded
    · exact writerFlow_frame hwriter rfl rfl rfl fun hrun => Bool.noConfusion (hrun.symm.trans (isRunning_of h))
  | takeEncoded h hp =>
    rw [hp] at hs
    have hsound := hs _ (.head _)
    simp only [h, Stage.inHand, List.append_nil] at hencoded
    refine ⟨_, written, ?_, List.rel_append hencoded (.cons hsound .nil), hrows, ?_⟩
    · simpa [hp, EncodeTask.work] using hingested
    · exact writerFlow_frame hwriter rfl rfl rfl fun hrun => Bool.noConfusion (hrun.symm.trans (isRunning_of h))
  | sendEncoded h =>
    refine ⟨taken, written, hingested, ?_, hrows, ?_⟩
    · simpa [h, Stage.inHand] using hencoded
    · exact writerFlow_frame hwriter rfl rfl rfl fun hrun => Bool.noConfusion (hrun.symm.trans (isRunning_of h))
  | encode h step =>
    have hworks := works_set h (encodeStep_work step)
    exact ⟨taken, written, by rw [hworks]; exact hingested, hencoded, hrows, hwriter⟩
  | dropEncoding hrun =>
    have hnil := (coordinator_ended hcoordinator hrun).2.2
    exact ⟨taken, written, by simpa [hnil] using hingested, hencoded, hrows, hwriter⟩
  | @receiveEncoded encoded _ _ h hq =>
    simp only [WriterFlow, h] at hwriter
    refine ⟨taken, written ++ [encoded], hingested, ?_, ?_, ?_⟩
    · simpa [hq] using hencoded
    · simp [hrows]
    · exact ⟨written, encoded, rfl, rfl, hwriter.2⟩
  | encodedEnded h hq hrun =>
    simp only [WriterFlow, h] at hwriter
    exact ⟨taken, written, hingested, hencoded, hrows, hrun, hq, .inl ⟨rfl, hwriter.2⟩⟩
  | written h ht =>
    simp only [WriterFlow, h, ht] at hwriter
    obtain ⟨before, group, rfl, hfile⟩ := hwriter
    exact ⟨taken, _, hingested, hencoded, hrows, rfl, hfile⟩
  | closed h ht =>
    simp only [WriterFlow, h, ht] at hwriter
    obtain ⟨hrun, hq, ⟨htask, -⟩ | ⟨-, hfile⟩⟩ := hwriter
    · cases htask
    · exact ⟨taken, written, hingested, hencoded, hrows, hrun, hq, rfl, hfile⟩
  | write step =>
    have hfailed := failed_eq_false hc'.failed
    exact ⟨taken, written, hingested, hencoded, hrows, writerFlow_write step hfailed hwriter _⟩
  | dropWrite hrun =>
    exact ⟨taken, written, hingested, hencoded, hrows, writerFlow_drop hwriter hrun⟩
  | coordinatorStage step =>
    obtain ⟨result, hstage, rfl⟩ := stageStep_clean step hc hc'
    refine ⟨taken, written, hingested, ?_, hrows, ?_⟩
    · simpa [hstage, Stage.inHand] using hencoded
    · exact writerFlow_frame hwriter rfl rfl rfl fun _ => ⟨rfl, rfl⟩
  | writerStage step =>
    obtain ⟨result, hstage, rfl⟩ := stageStep_clean step hc hc'
    refine ⟨taken, written, hingested, hencoded, hrows, ?_⟩
    unfold WriterFlow at hwriter
    rw [hstage] at hwriter
    cases result with
    | ok => exact hwriter
    | failed | aborted => cases hwriter
  | ingestionStopped | encodingFailed | encodedRefused | writeFailed => cases hc'.failed
  | _ => exact ⟨taken, written, hingested, hencoded, hrows, hwriter⟩

theorem flowing_step (h : PipelineStep cfg turn p p') (hc : Clean p.scope) (hc' : Clean p'.scope)
    (hf : Flowing p) : Flowing p' := by
  obtain ⟨hingestion, hcoordinator, htasks, taken, written, hchain⟩ := hf
  exact ⟨ingestionFlow_step h hc hc' hingestion hcoordinator,
    coordinatorFlow_step h hc hc' hcoordinator, tasks_step h htasks,
    chain_step h hc hc' htasks hcoordinator hchain⟩

theorem report_clean (cause : Failure) (hc : Clean (Scope.report scope cause)) : Clean scope := by
  cases cause with
  | panicked => cases hc.cancelled
  | error =>
    by_cases herrors : scope.errors = []
    · rw [Scope.report, if_pos herrors] at hc
      cases hc.cancelled
    · rw [Scope.report, if_neg herrors] at hc
      exact ⟨hc.failed, hc.cancelled, hc.aborting⟩

theorem clean_of_step (h : PipelineStep cfg turn p p') (hc' : Clean p'.scope) : Clean p.scope := by
  have hchange := pipelineStep_scope h
  generalize p.scope = scope, p'.scope = scope' at *
  cases hchange with
  | same => exact hc'
  | failed => cases hc'.failed
  | report cause => exact report_clean cause hc'
  | outside => cases hc'.cancelled

theorem flowing_new : Flowing (.new cfg) where
  ingestion := by
    refine .inl ⟨[], (ingestionStart cfg.ingestion).result, rfl, ?_, rfl⟩
    simp [fed, PipelineState.new]
  coordinator := nofun
  tasks := nofun
  chain := ⟨[], [], rfl, .nil, rfl, rfl, rfl⟩

theorem reachable_flowing (h : Reachable cfg p) (hc : Clean p.scope) : Flowing p := by
  induction h with
  | refl => exact flowing_new
  | tail _ step ih =>
    obtain ⟨turn, step⟩ := step
    have hbefore := clean_of_step step hc
    exact flowing_step step hbefore hc (ih hbefore)

-- ---------------------------------------------------------------------------
-- Complete files
-- ---------------------------------------------------------------------------

theorem encoded_numRows {E : Encoder α P} {encoded : EncodedRowGroup E.Chunk}
    (h : E.encodeRowGroup work = .ok encoded) :
    encoded.numRows = work.batch.length := by
  simp only [Encoder.encodeRowGroup, Lists.bind_eq_ok] at h
  obtain ⟨columns, -, chunks, -, h⟩ := h
  cases h
  rfl

theorem encoded_rows {E : Encoder α P} {groups : List (RowGroupWork α P)}
    {encoded : List (EncodedRowGroup E.Chunk)}
    (h : List.Forall₂ (fun work encoded => E.encodeRowGroup work = .ok encoded) groups encoded) :
    (encoded.map EncodedRowGroup.numRows).sum = (Ingestion.batches groups).flatten.length := by
  induction h with
  | nil => rfl
  | cons h _ ih => simp [encoded_numRows h, ih]

theorem ingested_rows {cfg : Ingestion.Config α ε A P} {view : cfg.coalescer.State → Buffers α}
    {received : List (Batch α)} (hC : cfg.coalescer.Lawful view) (hmax : 0 < cfg.maxRowGroupSize)
    (h : ingestionTask cfg received = ⟨groups, .ok ⟨⟩⟩) :
    (Ingestion.batches groups).flatten = received.flatten := by
  have hresult := congrArg Emit.result h
  have hemitted := congrArg Emit.emitted h
  unfold ingestionTask at hresult hemitted
  split at hresult
  · rw [if_pos ‹_›] at hemitted
    rw [← show _ = groups from hemitted]
    exact ((ensures_passthrough hC hmax).ok hresult).flatten
  · rw [if_neg ‹_›] at hemitted
    rw [← show _ = groups from hemitted]
    exact ((ensures_analyze hC hmax).ok hresult).flatten

/-- A pipeline that returns without an error, and was not cancelled from
outside, wrote the row groups that ingestion cuts the sent batches into, all
of them, in order and with their columns in leaf order, and then closed the
file; it returns the number of rows. Without cancellation from outside any
failure makes it return an error, and then its scope is cancelled; and it does
return, in whatever order the steps come, while the source has batches to send
and after. -/
theorem pipeline_complete {view : cfg.ingestion.coalescer.State → Buffers α}
    (hC : cfg.ingestion.coalescer.Lawful view) (h : Reachable cfg p)
    (hout : p.scope.outside = false) :
    (∀ n, p.result = some (.ok n) →
      ∃ groups encoded, ingestionTask cfg.ingestion p.sent = ⟨groups, .ok ⟨⟩⟩ ∧
        groups.mapM cfg.encoder.encodeRowGroup = .ok encoded ∧
        p.file = fileCalls encoded ++ [.close] ∧ n = p.sent.flatten.length) ∧
    (∀ result, p.result = some result → p.scope.failed = true →
      (∃ errors, result = .error errors) ∧ p.scope.cancelled = true) ∧
    (p.scope.failed = true → ∀ batches, p.sent <+: batches →
      Inevitable (PipelineStep cfg .program) (InsideStep cfg batches) FailureReturned p) := by
  have hwatched := reachable_watched h
  refine ⟨?_, ?_, fun hf batches hsent => failed_settles h hout hf hsent⟩
  · intro n hresult
    have hret := reachable_returned h _ hresult
    obtain ⟨herrors, rfl⟩ := returned_ok hret
    have hcalm : Calm p := ⟨herrors, hout⟩
    have hfailed : p.scope.failed = false := by
      refine Bool.eq_false_iff.mpr fun hf => failed_errors hwatched hret hout hf herrors
    have hclean : Clean p.scope := ⟨hfailed, hwatched.cancelled hcalm, hwatched.aborting hcalm⟩
    obtain ⟨hingestion, hcoordinator, -, taken, written, hchain⟩ := reachable_flowing h hclean
    obtain ⟨hingested, hencoded, hrows, hwriter⟩ := hchain
    have hended := coordinator_ended hcoordinator (by rw [hret.coordinator]; rfl)
    simp only [IngestionFlow, hret.ingestion] at hingestion
    simp only [WriterFlow, hret.writer] at hwriter
    obtain ⟨-, hqueue, -, hfile⟩ := hwriter
    simp only [hret.pending, hended.2.1, List.map_nil, List.append_nil] at hingested
    simp only [hqueue, hret.coordinator, Stage.inHand, List.append_nil] at hencoded
    subst hingested
    refine ⟨_, written, hingestion, Lists.mapM_eq_ok_iff_forall₂.mpr hencoded, hfile, ?_⟩
    rw [hrows, encoded_rows hencoded, ingested_rows hC cfg.maxRowGroupSize_pos hingestion]
  · intro result hresult hf
    obtain ⟨⟨errors, herror⟩, hcancelled⟩ := returned_failure h hout hf hresult
    exact ⟨⟨errors, Option.some.inj (hresult.symm.trans herror)⟩, hcancelled⟩

/-- Row groups of one row in one column, whose chunk is the column's values. -/
def oneColumn : PipelineConfig Nat String Unit Unit where
  ingestion :=
    { coalescer := rowCoalescer Nat String
      maxRowGroupSize := 1
      columnsToAnalyze := []
      analyzer := ⟨fun _ _ => .ok (), fun _ => .ok ()⟩
      emptyAnalysis := ()
      buildRowGroupProperties := fun _ _ => .ok () }
  encoder :=
    { ColumnWriter := List Nat
      Leaf := List Nat
      Chunk := List Nat
      getColumnWriters := fun _ => .ok [[]]
      computeLeaves := fun work => .ok [[work.batch]]
      write := fun writer leaf => .ok (writer ++ leaf)
      close := .ok }
  ingestionQueueSize := 1
  encodingQueueSize := 1
  writingQueueSize := 1
  maxRowGroupConcurrency := 1
  maxRowGroupSize_pos := by decide
  ingestionQueueSize_pos := by decide
  encodingQueueSize_pos := by decide
  writingQueueSize_pos := by decide
  maxRowGroupConcurrency_pos := by decide

theorem reachable_step (h : Reachable cfg p) (step : PipelineStep cfg turn p p') : Reachable cfg p' :=
  Relation.ReflTransGen.tail h ⟨_, step⟩

theorem finish_one {E : Encoder α P} (work : RowGroupWork α P) (chunk : E.Chunk) :
    EncodeStep .program (.encoding work [] [] [(0, chunk)]) false
      (.ended work (.ok ⟨[chunk], work.batch.length⟩)) := by
  rw [← show sortedChunks [(0, chunk)] = [chunk] by simp [sortedChunks]]
  exact .finish

theorem pipeline_complete_oneColumn :
    (∃ p : PipelineState oneColumn, p.sent = [[7]] ∧ p.result = some (.ok 1) ∧
      ∃ groups encoded, ingestionTask oneColumn.ingestion p.sent = ⟨groups, .ok ⟨⟩⟩ ∧
        groups.mapM oneColumn.encoder.encodeRowGroup = .ok encoded ∧
        p.file = fileCalls encoded ++ [.close]) ∧
    ∃ p : PipelineState oneColumn, p.scope.failed = true ∧ p.result = none ∧
      Inevitable (PipelineStep oneColumn .program) (InsideStep oneColumn [[7], [8]]) FailureReturned p := by
  have h : Reachable oneColumn (.new oneColumn) := .refl
  have h := reachable_step h (.ingestNext rfl)
  have h := reachable_step h (.sendBatch rfl rfl (by decide) [7])
  have h := reachable_step h (.receiveBatch rfl rfl)
  have h := reachable_step h (.sendRowGroup rfl rfl (by decide))
  have h := reachable_step h (.ingestNext rfl)
  have h := reachable_step h (.receiveWork rfl (by decide) rfl)
  have h := reachable_step h (.encode (i := 0) rfl (.start rfl))
  have hbroken := reachable_step h (.encode (i := 0) rfl (.columnBroken (i := 0) rfl .panicked))
  have h := reachable_step h (.closeSource rfl)
  have h := reachable_step h (.batchesEnded rfl rfl rfl)
  have h := reachable_step h (.ingestionDone rfl)
  have h := reachable_step h (.encode (i := 0) rfl (.column (i := 0) rfl rfl))
  have h := reachable_step h (.encode (i := 0) rfl (.join (i := 0) rfl))
  have h := reachable_step h (.encode (i := 0) rfl (finish_one _ _))
  have h := reachable_step h (.takeEncoded rfl rfl)
  have h := reachable_step h (.sendEncoded rfl rfl (by decide))
  have h := reachable_step h (.workEnded rfl (by decide) rfl rfl)
  have h := reachable_step h (.coordinatorDone rfl (.inl rfl) rfl)
  have h := reachable_step h (.receiveEncoded rfl rfl)
  have h := reachable_step h (.write .nextRowGroup)
  have h := reachable_step h (.write .append)
  have h := reachable_step h (.write .closeRowGroup)
  have h := reachable_step h (.written rfl rfl)
  have h := reachable_step h (.encodedEnded rfl rfl rfl)
  have h := reachable_step h (.write .close)
  have h := reachable_step h (.closed rfl rfl)
  have h := reachable_step h (.ingestionStage .joinOk)
  have h := reachable_step h (.coordinatorStage .joinOk)
  have h := reachable_step h (.writerStage .joinOk)
  have h := reachable_step h (.settled rfl rfl rfl rfl rfl rfl)
  obtain ⟨groups, encoded, hgroups, hencoded, hfile, -⟩ :=
    (pipeline_complete rowCoalescer_lawful h rfl).1 1 rfl
  have hsettles := (pipeline_complete rowCoalescer_lawful hbroken rfl).2.2 rfl [[7], [8]] (by simp [PipelineState.new])
  exact ⟨⟨_, rfl, rfl, groups, encoded, hgroups, hencoded, hfile⟩, _, rfl, rfl, hsettles⟩

/-- A column fails, but before that is seen the scope is cancelled from
outside: the stages end as if all were well. -/
theorem cancelled_failure_unreported : ¬ ∀ p : PipelineState oneColumn, Reachable oneColumn p →
    p.scope.failed = true → ∀ result, p.result = some result → ∃ errors, result = .error errors := by
  intro hall
  have h : Reachable oneColumn (.new oneColumn) := .refl
  have h := reachable_step h (.ingestNext rfl)
  have h := reachable_step h (.sendBatch rfl rfl (by decide) [7])
  have h := reachable_step h (.receiveBatch rfl rfl)
  have h := reachable_step h (.sendRowGroup rfl rfl (by decide))
  have h := reachable_step h (.receiveWork rfl (by decide) rfl)
  have h := reachable_step h (.encode (i := 0) rfl (.start rfl))
  have h := reachable_step h (.encode (i := 0) rfl (.columnBroken (i := 0) rfl .error))
  have h := reachable_step h .cancelOutside
  have h := reachable_step h (.ingestionStage (.cancelled rfl))
  have h := reachable_step h (.coordinatorStage (.cancelled rfl))
  have h := reachable_step h (.writerStage (.cancelled rfl))
  have h := reachable_step h (.ingestionStage .joinOk)
  have h := reachable_step h (.coordinatorStage .joinOk)
  have h := reachable_step h (.writerStage .joinOk)
  have h := reachable_step h (.dropEncoding rfl nofun)
  have h := reachable_step h (.settled rfl rfl rfl rfl rfl rfl)
  obtain ⟨errors, herrors⟩ := hall _ h rfl _ rfl
  cases herrors

end SilkChiffon.Pipeline
