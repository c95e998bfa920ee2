import SilkChiffon.FileOutput.Binding
import SilkChiffon.FileOutput.DistinctTargets

/-!
# Writes of a bound output

What was checked when a partitioned output was bound holds in every write: the
columns are there, the batches can be projected, and the template is only
rendered with a value for every field that it refers to.
-/

namespace SilkChiffon.FileOutput

open Arrow Effects

variable {binder : TemplateBinder U L T B α}

-- ---------------------------------------------------------------------------
-- What a write adds to its history
-- ---------------------------------------------------------------------------

/-- Whatever this step ends with, each event it adds is one of these. -/
def Adds (P : Event α J → Prop) (x : Write α J β) : Prop :=
  ∀ h, (∀ e ∈ h, P e) → Ensures x h (fun _ h' => ∀ e ∈ h', P e) fun _ h' => ∀ e ∈ h', P e

section
variable {P : Event α J → Prop}

theorem adds_pure (b : β) : Adds P (pure b : Write α J β) := fun _ hh => ensures_pure hh

theorem adds_throw (halt : Halt J) : Adds P (throw halt : Write α J β) := fun _ hh => ensures_throw hh

theorem Adds.bind {x : Write α J β} {f : β → Write α J γ} (hx : Adds P x) (hf : ∀ b, Adds P (f b)) :
    Adds P (x >>= f) := fun h hh => (hx h hh).bind fun b h' hh' => hf b h' hh'

theorem adds_get_bind {f : History α J → Write α J γ} (hf : ∀ h, Adds P (f h)) : Adds P (get >>= f) :=
  fun h hh => ensures_get_bind (hf h h hh)

theorem adds_record_bind {f : PUnit → Write α J γ} (he : P e) (hf : Adds P (f ⟨⟩)) : Adds P (record e >>= f) :=
  fun _ hh => ensures_modify_bind (hf _ fun e' he' =>
    (List.mem_append.mp he').elim (hh e') fun hlast => List.mem_singleton.mp hlast ▸ he)

end

/-- A sink has a value for each of these fields, and a file number where they
are given. Neither the schema nor a projection is refused. -/
def Event.Fits (fields : List String) (numbers : Bool) : Event α J → Prop
  | opened sink number => sink.partitionValues.Covers fields ∧
      (sink.partitionValues.get "file_number").isNone ∧ number.isSome = numbers
  | failed .validate | failed .project => False
  | _ => True

section
variable {w : PartitionedOutputWriter α J} {fields : List String} {numbers : Bool}

theorem adds_abortEach (sinks : List (OpenFileSink α)) (errors : List Error) :
    Adds (Event.Fits fields numbers) (w.abortEach sinks errors) := by
  induction sinks generalizing errors with
  | nil => exact adds_pure _
  | cons sink sinks ih =>
    apply adds_get_bind
    intro h
    split
    · exact adds_record_bind trivial (ih _)
    · exact adds_record_bind trivial (ih _)

theorem ensures_failWith_adds {R : β → History α J → Prop} (primary : Error)
    (completed : List (CompletedFileOutput J)) (sinks : List (OpenFileSink α))
    (hh : ∀ e ∈ h, e.Fits fields numbers) :
    Ensures (w.failWith primary completed sinks) h R fun _ h' => ∀ e ∈ h', e.Fits fields numbers :=
  (adds_abortEach _ _ h hh).bind fun _ _ hh' => ensures_throw hh'

theorem adds_failWith (primary : Error) (completed : List (CompletedFileOutput J)) (sinks : List (OpenFileSink α)) :
    Adds (Event.Fits fields numbers) (w.failWith primary completed sinks : Write α J β) :=
  fun _ hh => ensures_failWith_adds _ _ _ hh

theorem adds_finish (sink : OpenFileSink α) : Adds (Event.Fits fields numbers) (w.finish sink) := by
  apply adds_get_bind
  intro h
  split
  · exact adds_record_bind trivial (adds_pure _)
  · exact adds_record_bind trivial (adds_pure _)

theorem adds_finishRemaining (sinks : List (OpenFileSink α)) (completed : List (CompletedFileOutput J)) :
    Adds (Event.Fits fields numbers) (w.finishRemaining sinks completed) := by
  induction sinks generalizing completed with
  | nil => exact adds_pure _
  | cons sink sinks ih =>
    apply (adds_finish sink).bind
    rintro (e | output)
    · exact adds_failWith _ _ _
    · exact ih _

theorem adds_openSink {schema : Schema} (hcovers : values.Covers fields)
    (hreserved : (values.get "file_number").isNone) (hnumber : number.isSome = numbers) :
    Adds (Event.Fits fields numbers) (w.openSink values schema number) := by
  apply adds_get_bind
  intro h
  split
  · exact adds_record_bind ⟨hcovers, hreserved, hnumber⟩ (adds_pure _)
  · exact adds_record_bind trivial (adds_pure _)

theorem adds_writeBatch (sink : OpenFileSink α) (run : PartitionRun α) (batch : RecordBatch α) :
    Adds (Event.Fits fields numbers) (w.writeBatch sink run batch) := by
  apply adds_get_bind
  intro h
  split
  · exact adds_record_bind trivial (adds_pure _)
  · exact adds_record_bind trivial (adds_pure _)

structure PartitionRun.Fits (schema : Schema) (fields : List String) (run : PartitionRun α) : Prop where
  covers : run.values.Covers fields
  reserved : (run.values.get "file_number").isNone
  schema : run.batch.schema = schema

theorem adds_receive_bind (completed : List (CompletedFileOutput J)) (sinks : List (OpenFileSink α))
    (item : Except Error (PartitionRun α)) {f : PartitionRun α → Write α J β}
    (hf : ∀ run, item = .ok run → Adds (Event.Fits fields numbers) (f run)) :
    Adds (Event.Fits fields numbers) (w.receive completed sinks item >>= f) := by
  cases item with
  | ok run => exact hf run rfl
  | error e =>
    intro h hh
    refine Ensures.bind (Q := fun _ _ => False) (ensures_modify_bind (ensures_failWith_adds _ _ _ ?_)) ?_
    · intro e' he'
      rcases List.mem_append.mp he' with he' | he'
      · exact hh e' he'
      · rw [List.mem_singleton.mp he']
        trivial
    · exact fun _ _ hfalse => hfalse.elim

variable {schema : Schema} {context : PartitionProjection} {run : PartitionRun α}

theorem projectBatch_returns (hc : ContextOf w schema context) (hrun : run.Fits schema fields) :
    ∃ projected, context.projectBatch run.batch = .ok projected := by
  unfold PartitionProjection.projectBatch
  rw [hc.projectedIndices]
  cases hindices : projectionIndicesExcluding schema w.excludeColumns with
  | none => exact ⟨_, rfl⟩
  | some indices =>
    obtain ⟨projected, hprojected, -⟩ := project_withoutColumns (hrun.schema ▸ hindices)
    refine ⟨projected, ?_⟩
    dsimp only
    rw [hprojected]
    rfl

theorem adds_writeRun (hc : ContextOf w schema context) (hrun : run.Fits schema fields)
    (completed : List (CompletedFileOutput J)) (sinks : List (OpenFileSink α)) (sink : OpenFileSink α) :
    Adds (Event.Fits fields numbers) (w.writeRun context completed sinks sink run) := by
  obtain ⟨projected, hprojected⟩ := projectBatch_returns hc hrun
  unfold PartitionedOutputWriter.writeRun
  rw [hprojected]
  apply (adds_writeBatch sink run projected).bind
  rintro (e | _)
  · exact adds_failWith _ _ _
  · exact adds_pure _

-- ---------------------------------------------------------------------------
-- The strategies
-- ---------------------------------------------------------------------------

theorem adds_finishChanged [DecidableEq α] (values : PartitionValues α) (completed : List (CompletedFileOutput J))
    (current : Option (OpenFileSink α)) :
    Adds (Event.Fits fields numbers) (w.finishChanged values completed current) := by
  cases current with
  | none => exact adds_pure _
  | some sink =>
    simp only [PartitionedOutputWriter.finishChanged]
    split
    · exact adds_pure _
    · apply (adds_finish sink).bind
      rintro (e | output)
      · exact adds_throw _
      · exact adds_pure _

theorem adds_openMissing (hrun : run.Fits schema fields) (completed : List (CompletedFileOutput J))
    (current : Option (OpenFileSink α)) :
    Adds (Event.Fits fields false) (w.openMissing context run.values completed current) := by
  cases current with
  | some sink => exact adds_pure _
  | none =>
    apply (adds_openSink hrun.covers hrun.reserved (by rfl)).bind
    rintro (e | sink)
    · exact adds_throw _
    · exact adds_pure _

theorem adds_sortSingleLoop [DecidableEq α] (hc : ContextOf w schema context)
    (hruns : ∀ run, .ok run ∈ items → run.Fits schema fields) (current : Option (OpenFileSink α))
    (completed : List (CompletedFileOutput J)) :
    Adds (Event.Fits fields false) (w.sortSingleLoop context items current completed) := by
  induction items generalizing current completed with
  | nil => exact adds_finishRemaining _ _
  | cons item items ih =>
    refine adds_receive_bind _ _ _ fun run hitem => ?_
    have hrun := hruns run (hitem ▸ List.mem_cons_self)
    apply (adds_finishChanged run.values completed current).bind
    rintro ⟨current, completed⟩
    apply (adds_openMissing hrun completed current).bind
    intro sink
    apply (adds_writeRun hc hrun completed [sink] sink).bind
    exact fun _ => ih (fun run hmem => hruns run (List.mem_cons_of_mem _ hmem)) _ _

theorem adds_entry (hrun : run.Fits schema fields) (sinks : SinkMap α) :
    Adds (Event.Fits fields false) (w.entry context run.values sinks) := by
  unfold PartitionedOutputWriter.entry
  dsimp only
  split
  · exact adds_pure _
  · apply (adds_openSink hrun.covers hrun.reserved (by rfl)).bind
    rintro (e | sink)
    · exact adds_failWith _ _ _
    · exact adds_pure _

theorem adds_nosortMultiLoop (hc : ContextOf w schema context)
    (hruns : ∀ run, .ok run ∈ items → run.Fits schema fields) (sinks : SinkMap α) :
    Adds (Event.Fits fields false) (w.nosortMultiLoop context items sinks) := by
  induction items generalizing sinks with
  | nil => exact adds_finishRemaining _ _
  | cons item items ih =>
    refine adds_receive_bind _ _ _ fun run hitem => ?_
    have hrun := hruns run (hitem ▸ List.mem_cons_self)
    apply (adds_entry hrun sinks).bind
    rintro ⟨sink, sinks⟩
    apply (adds_writeRun hc hrun [] _ sink).bind
    exact fun _ => ih (fun run hmem => hruns run (List.mem_cons_of_mem _ hmem)) _

theorem adds_ensureOpen (hrun : run.Fits schema fields) (key : String) (s : EvictState α J) :
    Adds (Event.Fits fields true) (w.ensureOpen context key run.values s) := by
  have hevict : Adds (Event.Fits fields true) (w.evict s) := by
    unfold PartitionedOutputWriter.evict
    split
    · split
      · exact adds_throw _
      · apply (adds_finish _).bind
        rintro (e | output)
        · exact adds_failWith _ _ _
        · exact adds_pure _
    · exact adds_pure _
  unfold PartitionedOutputWriter.ensureOpen
  split
  · exact adds_pure _
  · apply hevict.bind
    intro s
    apply (adds_openSink hrun.covers hrun.reserved (by rfl)).bind
    rintro (e | sink)
    · exact adds_failWith _ _ _
    · exact adds_pure _

theorem adds_writeCached (hc : ContextOf w schema context) (hrun : run.Fits schema fields) (key : String)
    (s : EvictState α J) : Adds (Event.Fits fields true) (w.writeCached context key run s) := by
  obtain ⟨projected, hprojected⟩ := projectBatch_returns hc hrun
  unfold PartitionedOutputWriter.writeCached
  rw [hprojected]
  dsimp only
  split
  · exact adds_throw _
  · apply (adds_writeBatch _ run projected).bind
    rintro (e | _)
    · exact adds_failWith _ _ _
    · exact adds_pure _

theorem adds_nosortEvictLoop (hc : ContextOf w schema context)
    (hruns : ∀ run, .ok run ∈ items → run.Fits schema fields) (s : EvictState α J) :
    Adds (Event.Fits fields true) (w.nosortEvictLoop context items s) := by
  induction items generalizing s with
  | nil => exact adds_finishRemaining _ _
  | cons item items ih =>
    refine adds_receive_bind _ _ _ fun run hitem => ?_
    have hrun := hruns run (hitem ▸ List.mem_cons_self)
    apply (adds_ensureOpen hrun _ s).bind
    intro s
    apply (adds_writeCached hc hrun _ s).bind
    exact fun _ => ih (fun run hmem => hruns run (List.mem_cons_of_mem _ hmem)) _

end

-- ---------------------------------------------------------------------------
-- The runs of a stream
-- ---------------------------------------------------------------------------

theorem run_fits {w : PartitionedOutputWriter α J} {stream : SendableRecordBatchStream α}
    (hbatches : ∀ batch, .ok batch ∈ stream.batches → batch.schema = stream.schema)
    (hreserved : "file_number" ∉ w.partitionFields) :
    ∀ run, .ok run ∈ w.runs stream → run.Fits stream.schema w.partitionFields := by
  intro run hrun
  rw [runs_eq_batchItems] at hrun
  obtain ⟨batch, range, hbatch, hemit⟩ := run_of_mem_items hrun
  obtain ⟨values, hvalues, rfl⟩ := Lists.map_eq_ok.mp hemit
  refine ⟨covers_of_mem_items hrun, ?_, hbatches batch hbatch⟩
  rw [extractPartitionValues_other hvalues hreserved]
  rfl

theorem new_returns {debug : Debug} (hcolumns : validateExcludedColumns debug schema excluded = .ok ())
    (hprimitive : validatePartitionColumnsPrimitive debug schema fields = .ok ()) :
    ∃ context, PartitionProjection.new debug schema fields excluded = .ok context := by
  unfold PartitionProjection.new
  rw [hprimitive, hcolumns]
  cases hindices : projectionIndicesExcluding schema excluded with
  | none => exact ⟨_, rfl⟩
  | some indices =>
    dsimp only [bind, Except.bind]
    rw [outOfBounds_excluding hindices]
    exact ⟨_, rfl⟩

-- ---------------------------------------------------------------------------
-- Rendering
-- ---------------------------------------------------------------------------

def PartitionedOutputWriter.withRender (w : PartitionedOutputWriter α J)
    (render : PartitionValues α → Option Nat → Except Error String) : PartitionedOutputWriter α J :=
  { w with env := { w.env with render } }

theorem bind_congr_of_throws {x : EStateM ε σ β} {f f' : β → EStateM ε σ γ}
    (h : ∀ s, Ensures x s (fun _ _ => False) fun _ _ => True) : x >>= f = x >>= f' := by
  funext s
  have hs := h s
  show EStateM.bind x f s = EStateM.bind x f' s
  unfold Ensures at hs
  unfold EStateM.bind
  cases hx : x s with
  | ok a s' =>
    rw [hx] at hs
    exact hs.elim
  | error e s' => rfl

section
variable {w : PartitionedOutputWriter α J} {render : PartitionValues α → Option Nat → Except Error String}

@[simp] theorem abortEach_withRender (sinks : List (OpenFileSink α)) (errors : List Error) :
    (w.withRender render).abortEach sinks errors = w.abortEach sinks errors := by
  induction sinks generalizing errors with
  | nil => rfl
  | cons sink sinks ih =>
    simp only [PartitionedOutputWriter.abortEach, ih]
    rfl

@[simp] theorem failWith_withRender (primary : Error) (completed : List (CompletedFileOutput J))
    (sinks : List (OpenFileSink α)) :
    (w.withRender render).failWith primary completed sinks = (w.failWith primary completed sinks : Write α J β) := by
  unfold PartitionedOutputWriter.failWith PartitionedOutputWriter.abortAll
  rw [abortEach_withRender]

@[simp] theorem finishRemaining_withRender (sinks : List (OpenFileSink α)) (completed : List (CompletedFileOutput J)) :
    (w.withRender render).finishRemaining sinks completed = w.finishRemaining sinks completed := by
  induction sinks generalizing completed with
  | nil => rfl
  | cons sink sinks ih =>
    simp only [PartitionedOutputWriter.finishRemaining, ih, failWith_withRender]
    rfl

@[simp] theorem receive_withRender (completed : List (CompletedFileOutput J)) (sinks : List (OpenFileSink α))
    (item : Except Error (PartitionRun α)) :
    (w.withRender render).receive completed sinks item = w.receive completed sinks item := by
  cases item with
  | ok run => rfl
  | error e => simp only [PartitionedOutputWriter.receive, failWith_withRender]

@[simp] theorem writeRun_withRender (context : PartitionProjection) (completed : List (CompletedFileOutput J))
    (sinks : List (OpenFileSink α)) (sink : OpenFileSink α) (run : PartitionRun α) :
    (w.withRender render).writeRun context completed sinks sink run = w.writeRun context completed sinks sink run := by
  simp only [PartitionedOutputWriter.writeRun, failWith_withRender]
  rfl

@[simp] theorem finishChanged_withRender [DecidableEq α] (values : PartitionValues α)
    (completed : List (CompletedFileOutput J)) (current : Option (OpenFileSink α)) :
    (w.withRender render).finishChanged values completed current = w.finishChanged values completed current := by
  cases current with
  | none => rfl
  | some sink => rfl

@[simp] theorem evict_withRender (s : EvictState α J) : (w.withRender render).evict s = w.evict s := by
  simp only [PartitionedOutputWriter.evict, failWith_withRender]
  rfl

@[simp] theorem writeCached_withRender (context : PartitionProjection) (key : String) (run : PartitionRun α)
    (s : EvictState α J) :
    (w.withRender render).writeCached context key run s = w.writeCached context key run s := by
  simp only [PartitionedOutputWriter.writeCached, failWith_withRender]
  rfl

theorem openSink_withRender {schema : Schema} (h : render values number = w.env.render values number) :
    (w.withRender render).openSink values schema number = w.openSink values schema number := by
  have htarget : ∀ history, (w.withRender render).openTarget history values schema number =
      w.openTarget history values schema number := by
    intro history
    unfold PartitionedOutputWriter.openTarget
    rw [← h]
    rfl
  simp only [PartitionedOutputWriter.openSink, htarget]

/-- Only a run of the stream gets to what follows. -/
theorem receive_bind_congr (completed : List (CompletedFileOutput J)) (sinks : List (OpenFileSink α))
    (item : Except Error (PartitionRun α)) {f f' : PartitionRun α → Write α J β}
    (hf : ∀ run, item = .ok run → f run = f' run) :
    w.receive completed sinks item >>= f = w.receive completed sinks item >>= f' := by
  cases item with
  | ok run => exact hf run rfl
  | error e =>
    refine bind_congr_of_throws fun h => ensures_modify_bind ?_
    exact (ensures_failWith_frames e completed sinks).mono (fun _ _ h => h) fun _ _ _ => trivial

theorem openMissing_withRender (h : render values none = w.env.render values none) (context : PartitionProjection)
    (completed : List (CompletedFileOutput J)) (current : Option (OpenFileSink α)) :
    (w.withRender render).openMissing context values completed current =
      w.openMissing context values completed current := by
  cases current with
  | some sink => rfl
  | none => simp only [PartitionedOutputWriter.openMissing, openSink_withRender h]

theorem sortSingleLoop_withRender [DecidableEq α] {context : PartitionProjection}
    (hruns : ∀ run, .ok run ∈ items → render run.values none = w.env.render run.values none)
    (current : Option (OpenFileSink α)) (completed : List (CompletedFileOutput J)) :
    (w.withRender render).sortSingleLoop context items current completed =
      w.sortSingleLoop context items current completed := by
  induction items generalizing current completed with
  | nil => exact finishRemaining_withRender _ _
  | cons item items ih =>
    have ih := ih fun run hmem => hruns run (List.mem_cons_of_mem _ hmem)
    simp only [PartitionedOutputWriter.sortSingleLoop, receive_withRender, finishChanged_withRender,
      writeRun_withRender, ih]
    refine receive_bind_congr _ _ _ fun run hitem => ?_
    simp only [openMissing_withRender (hruns run (hitem ▸ List.mem_cons_self))]

theorem entry_withRender (h : render values none = w.env.render values none) (context : PartitionProjection)
    (sinks : SinkMap α) : (w.withRender render).entry context values sinks = w.entry context values sinks := by
  simp only [PartitionedOutputWriter.entry, openSink_withRender h, failWith_withRender]
  rfl

theorem nosortMultiLoop_withRender {context : PartitionProjection}
    (hruns : ∀ run, .ok run ∈ items → render run.values none = w.env.render run.values none)
    (sinks : SinkMap α) :
    (w.withRender render).nosortMultiLoop context items sinks = w.nosortMultiLoop context items sinks := by
  induction items generalizing sinks with
  | nil => exact finishRemaining_withRender _ _
  | cons item items ih =>
    have ih := ih fun run hmem => hruns run (List.mem_cons_of_mem _ hmem)
    simp only [PartitionedOutputWriter.nosortMultiLoop, receive_withRender, writeRun_withRender, ih]
    refine receive_bind_congr _ _ _ fun run hitem => ?_
    simp only [entry_withRender (hruns run (hitem ▸ List.mem_cons_self))]
    rfl

theorem ensureOpen_withRender (h : ∀ n, render values (some n) = w.env.render values (some n))
    (context : PartitionProjection) (key : String) (s : EvictState α J) :
    (w.withRender render).ensureOpen context key values s = w.ensureOpen context key values s := by
  have hopen : ∀ s, (w.withRender render).openNumbered context key values s =
      w.openNumbered context key values s := by
    intro s
    simp only [PartitionedOutputWriter.openNumbered, openSink_withRender (h _), failWith_withRender]
  simp only [PartitionedOutputWriter.ensureOpen, evict_withRender, hopen]

theorem nosortEvictLoop_withRender {context : PartitionProjection}
    (hruns : ∀ run, .ok run ∈ items → ∀ n, render run.values (some n) = w.env.render run.values (some n))
    (s : EvictState α J) :
    (w.withRender render).nosortEvictLoop context items s = w.nosortEvictLoop context items s := by
  induction items generalizing s with
  | nil => exact finishRemaining_withRender _ _
  | cons item items ih =>
    have ih := ih fun run hmem => hruns run (List.mem_cons_of_mem _ hmem)
    simp only [PartitionedOutputWriter.nosortEvictLoop, receive_withRender, writeCached_withRender, ih]
    refine receive_bind_congr _ _ _ fun run hitem => ?_
    simp only [ensureOpen_withRender (hruns run (hitem ▸ List.mem_cons_self))]
    rfl

theorem write_withRender [DecidableEq α] {strategy : Strategy} {stream : SendableRecordBatchStream α}
    (h : ∀ run, .ok run ∈ w.runs stream → ∀ number, number.isSome = strategy.numbers →
      render run.values number = w.env.render run.values number) :
    (w.withRender render).write strategy stream = w.write strategy stream := by
  cases strategy with
  | sortSingle =>
    show w.begin stream.schema >>= _ = w.begin stream.schema >>= _
    exact congrArg _ (funext fun context => sortSingleLoop_withRender (fun run hrun => h run hrun none rfl) none [])
  | nosortMulti =>
    show w.begin stream.schema >>= _ = w.begin stream.schema >>= _
    exact congrArg _ (funext fun context => nosortMultiLoop_withRender (fun run hrun => h run hrun none rfl) [])
  | nosortEvict maxOpen =>
    show w.begin stream.schema >>= _ = w.begin stream.schema >>= _
    exact congrArg _ (funext fun context => nosortEvictLoop_withRender (fun run hrun n => h run hrun (some n) rfl) _)

end

-- ---------------------------------------------------------------------------
-- A write
-- ---------------------------------------------------------------------------

/-- The writer of what was bound, whatever its storage and its sinks are. -/
def BoundPartitions.writer (bound : BoundPartitions U T α) (rendering : Rendering α J) (env : Environment α J) :
    PartitionedOutputWriter α J :=
  ⟨rendering, env, bound.partitionFields, bound.excludeColumns⟩

theorem adds_write [DecidableEq α] {bound : BoundPartitions U T α} {stream : SendableRecordBatchStream α}
    {rendering : Rendering α J} {env : Environment α J} (hbound : BoundTo binder stream.schema bound)
    (hbatches : ∀ batch, .ok batch ∈ stream.batches → batch.schema = stream.schema)
    (hdebug : rendering.debug = binder.debug) :
    Adds (Event.Fits bound.partitionFields bound.strategy.numbers)
      ((bound.writer rendering env).write bound.strategy stream) := by
  obtain ⟨context, hnew⟩ := new_returns hbound.columns hbound.primitive
  rw [← hdebug] at hnew
  have hnew : PartitionProjection.new (bound.writer rendering env).rendering.debug stream.schema
      (bound.writer rendering env).partitionFields (bound.writer rendering env).excludeColumns = .ok context := hnew
  have hc : ContextOf (bound.writer rendering env) stream.schema context := new_context hnew
  have hbegin : (bound.writer rendering env).begin stream.schema = pure context := by
    unfold PartitionedOutputWriter.begin
    rw [hnew]
  have hruns := run_fits (w := bound.writer rendering env) hbatches hbound.reserved
  cases bound.strategy with
  | sortSingle =>
    unfold PartitionedOutputWriter.write PartitionedOutputWriter.writeSortSingle
    dsimp only
    rw [hbegin]
    exact adds_sortSingleLoop hc hruns none []
  | nosortMulti =>
    unfold PartitionedOutputWriter.write PartitionedOutputWriter.writeNosortMulti
    dsimp only
    rw [hbegin]
    exact adds_nosortMultiLoop hc hruns []
  | nosortEvict maxOpen =>
    unfold PartitionedOutputWriter.write PartitionedOutputWriter.writeNosortEvict
    dsimp only
    rw [hbegin]
    exact adds_nosortEvictLoop hc hruns _

theorem fieldValues_defines {format : Formatter α} {values : PartitionValues α}
    (h : OutputTargetTemplate.fieldValues format values = .ok context) (hfield : (values.get field).isSome) :
    (context.lookup field).isSome := by
  induction values generalizing context with
  | nil => cases hfield
  | cons entry values ih =>
    obtain ⟨text, -, h⟩ := Lists.bind_eq_ok.mp h
    obtain ⟨rest, hrest, h⟩ := Lists.bind_eq_ok.mp h
    obtain rfl := Except.ok.inj h
    rw [List.lookup_cons]
    cases hsame : field == entry.1 with
    | true => rfl
    | false =>
      refine ih hrest ?_
      rwa [PartitionValues.get, List.lookup_cons, hsame] at hfield

theorem context_defines {format : Formatter α} {values : PartitionValues α}
    (h : OutputTargetTemplate.context format values number = .ok context)
    (hfield : (values.get field).isSome ∨ field = "file_number" ∧ number.isSome = true) :
    (context.lookup field).isSome := by
  obtain ⟨rest, hrest, h⟩ := Lists.bind_eq_ok.mp h
  cases number with
  | none =>
    obtain rfl := Except.ok.inj h
    rcases hfield with hfield | ⟨-, hnone⟩
    · exact fieldValues_defines hrest hfield
    · cases hnone
  | some n =>
    obtain rfl := Except.ok.inj h
    rw [List.lookup_cons]
    cases hsame : field == "file_number" with
    | true => rfl
    | false =>
      rcases hfield with hfield | ⟨hnumber, -⟩
      · exact fieldValues_defines hrest hfield
      · exact absurd hnumber (by simpa using hsame)

/-- Values that a template is rendered with: there is one for every field that
it refers to, and a file number where the strategy numbers its files. -/
structure Rendered (binder : TemplateBinder U L T B α) (bound : BoundPartitions U T α) (values : PartitionValues α)
    (number : Option Nat) : Prop where
  reserved : (values.get "file_number").isNone
  numbered : number.isSome = bound.strategy.numbers
  defined : ∀ (format : Formatter α) context, OutputTargetTemplate.context format values number = .ok context →
    ∀ field ∈ binder.undeclaredVariables bound.template.objectPathTemplate, (context.lookup field).isSome

theorem BoundTo.rendered {bound : BoundPartitions U T α} {values : PartitionValues α}
    (hbound : BoundTo binder schema bound) (hcovers : values.Covers bound.partitionFields)
    (hreserved : (values.get "file_number").isNone) (hnumber : number.isSome = bound.strategy.numbers) :
    Rendered binder bound values number := by
  refine ⟨hreserved, hnumber, fun format context hcontext field hfield => context_defines hcontext ?_⟩
  exact (hbound.selected field hfield).imp (hcovers field) fun hnumbers => ⟨hnumbers.1, hnumber.trans hnumbers.2⟩

structure WrittenFor (binder : TemplateBinder U L T B α) (bound : BoundPartitions U T α) (h : History α J) :
    Prop where
  validated : .failed .validate ∉ h
  projected : .failed .project ∉ h
  rendered : ∀ sink number, .opened sink number ∈ h → Rendered binder bound sink.partitionValues number

/-- A request that was bound for a schema has passed every check that a write
makes of its options. Whatever the storage and the sinks answer, a write of a
stream of this schema validates and projects every batch, and each of its sinks
has a value for every field of the template. It asks the template for nothing
else: what that does with other values makes no difference to any write. -/
theorem bound_template_written [DecidableEq α] {bound : BoundPartitions U T α} {stream : SendableRecordBatchStream α}
    (hbound : binder.bindTemplate stream.schema request = .ok bound)
    (hbatches : ∀ batch, .ok batch ∈ stream.batches → batch.schema = stream.schema)
    (rendering : Rendering α J) (env : Environment α J) (hdebug : rendering.debug = binder.debug) :
    Ensures ((bound.writer rendering env).write bound.strategy stream) []
      (fun _ h => WrittenFor binder bound h) (fun _ h => WrittenFor binder bound h) ∧
    ∀ render, (∀ values number, Rendered binder bound values number →
        render values number = env.render values number) →
      ((bound.writer rendering env).withRender render).write bound.strategy stream =
        (bound.writer rendering env).write bound.strategy stream := by
  have hbound := bindTemplate_ok hbound
  have hwritten : ∀ h : History α J, (∀ e ∈ h, e.Fits bound.partitionFields bound.strategy.numbers) →
      WrittenFor binder bound h := by
    intro h hfits
    refine ⟨fun hmem => hfits _ hmem, fun hmem => hfits _ hmem, fun sink number hmem => ?_⟩
    obtain ⟨hcovers, hreserved, hnumber⟩ := hfits _ hmem
    exact hbound.rendered hcovers hreserved hnumber
  refine ⟨?_, fun render hsame => write_withRender fun run hrun number hnumber => hsame _ _ ?_⟩
  · refine (adds_write hbound hbatches hdebug [] (List.forall_mem_nil _)).mono (fun _ h => hwritten h) fun _ h => ?_
    exact hwritten h
  · have hfits := run_fits (w := bound.writer rendering env) hbatches hbound.reserved run hrun
    exact hbound.rendered hfits.covers hfits.reserved hnumber

def regionRequest : TemplateRequest where
  pattern := "\x7b\x7bregion\x7d\x7d/\x7b\x7b file_number \x7d\x7d.arrow"
  partitionFields := ["region"]
  strategy := .nosortEvict
  maxOpenPartitions := some 2
  excludeColumns := ["region"]

def regionBinder : TemplateBinder String String String Unit Nat where
  toFileOutputBinder := countingBinder
  crate := localCrate
  engine := plainEngine
  undeclaredVariables _ := ["file_number", "region"]
  alphanumeric := Char.isAlphanum

def regionPartitions : BoundPartitions String String Nat where
  template := ⟨regionRequest.pattern.toList, .bare false⟩
  sinkBinding := countingSink
  partitionFields := ["region"]
  excludeColumns := ["region"]
  strategy := .nosortEvict ⟨2, Nat.two_pos⟩

theorem regionPartitions_bound :
    regionBinder.bindTemplate regionStream.schema regionRequest = .ok regionPartitions := rfl

theorem bound_template_written_regions :
    Ensures ((regionPartitions.writer regionWriter.rendering regionWriter.env).write regionPartitions.strategy
      regionStream) [] (fun _ h => WrittenFor regionBinder regionPartitions h)
        fun _ h => WrittenFor regionBinder regionPartitions h :=
  (bound_template_written regionPartitions_bound (by simp [regionStream]) regionWriter.rendering
    regionWriter.env rfl).1

end SilkChiffon.FileOutput
