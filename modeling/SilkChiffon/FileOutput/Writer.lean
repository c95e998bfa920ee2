import SilkChiffon.FileOutput.History
import SilkChiffon.Lib.Effects
import SilkChiffon.Lib.LruCache
import Mathlib.Data.List.Sort

/-!
# The partitioned output writer

The three strategies, exit by exit. Storage and the sinks are the environment:
each of their answers may depend on everything that happened before. What a
write does to its sinks is recorded in the history it threads through.
-/

namespace SilkChiffon.FileOutput

open Arrow FileOutput.History

-- ---------------------------------------------------------------------------
-- Reports
-- ---------------------------------------------------------------------------

def sortLocations (output : CompletedFileOutput J) : CompletedFileOutput J :=
  { output with
    durableLocations := output.durableLocations.mergeSort fun a b => decide (a ≤ b)
    located := by
      intro h
      have := (List.mergeSort_perm output.durableLocations fun a b => decide (a ≤ b)).length_eq
      rw [h, List.length_nil] at this
      exact output.located (List.length_eq_zero_iff.mp this.symm) }

def CompletedFileOutput.firstLocation (output : CompletedFileOutput J) : String :=
  output.durableLocations.head output.located

structure FileOutputReport (J : Type) where
  outputs : List (CompletedFileOutput J)

def FileOutputReport.new (outputs : List (CompletedFileOutput J)) : FileOutputReport J :=
  ⟨(outputs.map sortLocations).mergeSort fun a b => decide (a.firstLocation ≤ b.firstLocation)⟩

theorem FileOutputReport.new_perm (outputs : List (CompletedFileOutput J)) :
    (FileOutputReport.new outputs).outputs.Perm (outputs.map sortLocations) :=
  List.mergeSort_perm ..

structure FileOutputFailure (J : Type) where
  primary : Error
  report : FileOutputReport J

def FileOutputFailure.new (primary : Error) (completed : List (CompletedFileOutput J))
    (cleanupErrors : List Error) : FileOutputFailure J :=
  ⟨cleanupErrors.foldl .withCleanup primary, .new completed⟩

/-- How a write ends without success. A panic is an `expect` that failed. -/
inductive Halt (J : Type)
  | failure (failure : FileOutputFailure J)
  | panic (message : String)

-- ---------------------------------------------------------------------------
-- The environment
-- ---------------------------------------------------------------------------

structure SinkCompletion where
  firstDurableLocation : String
  additionalDurableLocations : List String
  rowsWritten : Nat
  deriving DecidableEq, Repr

def SinkCompletion.durableLocations (completion : SinkCompletion) : List String :=
  completion.firstDurableLocation :: completion.additionalDurableLocations

/-- What Arrow and the standard library do to values. -/
structure Rendering (α J : Type) where
  debug : Debug
  format : Formatter α
  toJson : Cell α → J
  kernel : PartitionKernel α

/-- The template, the storage and the sinks. `intoValues` is the order in
which a hash map gives its values up. -/
structure Environment (α J : Type) where
  render : PartitionValues α → Option Nat → Except Error String
  prepareOutputTarget : History α J → String → Except Error String
  openSink : History α J → String → Schema → Except Error Unit
  writeBatch : History α J → SinkId → RecordBatch α → Except Error Unit
  finish : History α J → SinkId → Except Error SinkCompletion
  abort : History α J → SinkId → Except Error Unit
  intoValues : (sinks : List (OpenFileSink α)) → { l : List (OpenFileSink α) // l.Perm sinks }

structure PartitionedOutputWriter (α J : Type) where
  rendering : Rendering α J
  env : Environment α J
  partitionFields : List String
  excludeColumns : List String

structure SendableRecordBatchStream (α : Type) where
  schema : Schema
  batches : List (Except Error (RecordBatch α))

-- ---------------------------------------------------------------------------
-- Projection
-- ---------------------------------------------------------------------------

def validateExcludedColumns (debug : Debug) (schema : Schema) : List String → Except Error Unit
  | [] => .ok ()
  | column :: columns =>
    match schema.columnIndex column with
    | none => .error (.message s!"Column {debug.string column} not found in schema")
    | some _ => validateExcludedColumns debug schema columns

def projectionIndicesExcluding (schema : Schema) (excludeColumns : List String) :
    Option (List Nat) :=
  if excludeColumns = [] then none
  else some ((List.range schema.length).filter fun index =>
    !excludeColumns.contains ((schema.names[index]?).getD ""))

structure PartitionProjection where
  fieldOrder : List String
  projectedIndices : Option (List Nat)
  projectedSchema : Schema

def projectError (schema : Schema) (index : Nat) : Error :=
  .message s!"project index {index} out of bounds, max field {schema.length}"

namespace PartitionProjection

def new (debug : Debug) (schema : Schema) (fields excludeColumns : List String) :
    Except Error PartitionProjection := do
  validatePartitionColumnsPrimitive debug schema fields
  validateExcludedColumns debug schema excludeColumns
  let projectedIndices := projectionIndicesExcluding schema excludeColumns
  match projectedIndices with
  | some indices =>
    match schema.outOfBounds indices with
    | some index => .error (projectError schema index)
    | none => pure ⟨fields, projectedIndices, schema.project indices⟩
  | none => pure ⟨fields, projectedIndices, schema⟩

def projectBatch (context : PartitionProjection) (batch : RecordBatch α) :
    Except Error (RecordBatch α) :=
  match context.projectedIndices with
  | some indices => (batch.project indices).mapError (projectError batch.schema)
  | none => .ok batch

end PartitionProjection

-- ---------------------------------------------------------------------------
-- One sink
-- ---------------------------------------------------------------------------

/-- A step of a write. The run a batch was projected from is only recorded. -/
abbrev Write (α J β : Type) := EStateM (Halt J) (History α J) β

def record (e : Event α J) : Write α J PUnit := modify (· ++ [e])

def partitionFieldValues (toJson : Cell α → J) (values : PartitionValues α)
    (columnOrder : List String) : List (PartitionFieldValue J) :=
  columnOrder.filterMap fun col => (values.get col).map fun cell => ⟨col, toJson cell⟩

def completedOutput (completion : SinkCompletion) (partitionFields : List (PartitionFieldValue J)) :
    CompletedFileOutput J :=
  ⟨completion.durableLocations, by simp [SinkCompletion.durableLocations], completion.rowsWritten,
    partitionFields⟩

inductive Strategy
  | sortSingle | nosortMulti
  | nosortEvict (maxOpen : { n : Nat // 0 < n })

abbrev SinkMap (α : Type) := List (String × OpenFileSink α)

def SinkMap.sinks (m : SinkMap α) : List (OpenFileSink α) := m.map (·.2)

structure EvictState (α J : Type) where
  sinks : LruCache String (OpenFileSink α)
  fileNumbers : List (String × Nat)
  completed : List (CompletedFileOutput J)

def EvictState.held (s : EvictState α J) : List (OpenFileSink α) := s.sinks.intoIter.map (·.2)

def EvictState.fileNumber (s : EvictState α J) (key : String) : Nat :=
  (s.fileNumbers.lookup key).getD 0

namespace PartitionedOutputWriter

variable (w : PartitionedOutputWriter α J)

/-- Rendering, preparing and opening, in this order. -/
def openTarget (h : History α J) (values : PartitionValues α) (schema : Schema)
    (fileNumber : Option Nat) : Except Error String := do
  let location ← w.env.render values fileNumber
  let target ← (w.env.prepareOutputTarget h location).mapError
    (.context "while preparing partitioned file output")
  (w.env.openSink h target schema).mapError
    (.context s!"while opening partitioned file output {w.rendering.debug.string target}")
  pure target

def openSink (values : PartitionValues α) (schema : Schema) (fileNumber : Option Nat) :
    Write α J (Except Error (OpenFileSink α)) := do
  let h ← get
  match w.openTarget h values schema fileNumber with
  | .ok target =>
    let sink := ⟨(openedSinks h).length, target, values⟩
    record (.opened sink fileNumber)
    pure (.ok sink)
  | .error e =>
    record (.failed .openSink)
    pure (.error e)

def writeBatch (sink : OpenFileSink α) (run : PartitionRun α) (batch : RecordBatch α) :
    Write α J (Except Error Unit) := do
  match w.env.writeBatch (← get) sink.sink batch with
  | .ok () =>
    record (.wrote sink.sink run batch)
    pure (.ok ())
  | .error e =>
    record (.failed (.write sink.sink))
    pure (.error (.context
      s!"while writing partitioned file output {w.rendering.debug.string sink.target}" e))

def finish (sink : OpenFileSink α) : Write α J (Except Error (CompletedFileOutput J)) := do
  match w.env.finish (← get) sink.sink with
  | .ok completion =>
    let output := completedOutput completion
      (partitionFieldValues w.rendering.toJson sink.partitionValues w.partitionFields)
    record (.finished sink.sink output)
    pure (.ok output)
  | .error e =>
    record (.failed (.finish sink.sink))
    pure (.error (.context
      s!"while completing partitioned file output {w.rendering.debug.string sink.target}" e))

def abortEach : List (OpenFileSink α) → List Error → Write α J (List Error)
  | [], errors => pure errors
  | sink :: sinks, errors => do
    match w.env.abort (← get) sink.sink with
    | .ok () =>
      record (.aborted sink.sink none)
      abortEach sinks errors
    | .error e =>
      let e := .context s!"while aborting partitioned file output {w.rendering.debug.string sink.target}" e
      record (.aborted sink.sink (some e))
      abortEach sinks (errors ++ [e])

def sortByTarget (sinks : List (OpenFileSink α)) : List (OpenFileSink α) :=
  sinks.mergeSort fun left right => decide (left.target ≤ right.target)

def abortAll (sinks : List (OpenFileSink α)) : Write α J (List Error) :=
  w.abortEach (sortByTarget sinks) []

/-- The exit of a failed step: the sinks that are still open are aborted. -/
def failWith (primary : Error) (completed : List (CompletedFileOutput J))
    (sinks : List (OpenFileSink α)) : Write α J β := do
  let cleanup ← w.abortAll sinks
  throw (.failure (.new primary completed cleanup))

/-- A run from the stream, or the exit of a stream error. -/
def receive (completed : List (CompletedFileOutput J)) (sinks : List (OpenFileSink α)) :
    Except Error (PartitionRun α) → Write α J (PartitionRun α)
  | .ok run => pure run
  | .error primary => do
    record (.failed .stream)
    w.failWith primary completed sinks

def writeRun (context : PartitionProjection) (completed : List (CompletedFileOutput J))
    (sinks : List (OpenFileSink α)) (sink : OpenFileSink α) (run : PartitionRun α) :
    Write α J PUnit := do
  match context.projectBatch run.batch with
  | .error primary => do
    record (.failed .project)
    w.failWith primary completed sinks
  | .ok projected =>
    match ← w.writeBatch sink run projected with
    | .ok () => pure ⟨⟩
    | .error primary => w.failWith primary completed sinks

/-- Finishing one sink after the other. A failure aborts those that remain. -/
def finishRemaining :
    List (OpenFileSink α) → List (CompletedFileOutput J) → Write α J (FileOutputReport J)
  | [], completed => pure (.new completed)
  | sink :: remaining, completed => do
    match ← w.finish sink with
    | .ok output => finishRemaining remaining (completed ++ [output])
    | .error primary => w.failWith primary completed remaining

-- ---------------------------------------------------------------------------
-- sort-single
-- ---------------------------------------------------------------------------

def finishChanged [DecidableEq α] (values : PartitionValues α) (completed : List (CompletedFileOutput J)) :
    Option (OpenFileSink α) → Write α J (Option (OpenFileSink α) × List (CompletedFileOutput J))
  | none => pure (none, completed)
  | some sink =>
    if partitionValuesEqual sink.partitionValues values then pure (some sink, completed)
    else do
      match ← w.finish sink with
      | .ok output => pure (none, completed ++ [output])
      | .error primary => throw (.failure (.new primary completed []))

def openMissing (context : PartitionProjection) (values : PartitionValues α)
    (completed : List (CompletedFileOutput J)) :
    Option (OpenFileSink α) → Write α J (OpenFileSink α)
  | some sink => pure sink
  | none => do
    match ← w.openSink values context.projectedSchema none with
    | .ok sink => pure sink
    | .error primary => throw (.failure (.new primary completed []))

def sortSingleLoop [DecidableEq α] (context : PartitionProjection) :
    List (Except Error (PartitionRun α)) → Option (OpenFileSink α) →
      List (CompletedFileOutput J) → Write α J (FileOutputReport J)
  | [], current, completed => w.finishRemaining current.toList completed
  | item :: items, current, completed => do
    let run ← w.receive completed current.toList item
    let (current, completed) ← w.finishChanged run.values completed current
    let sink ← w.openMissing context run.values completed current
    w.writeRun context completed [sink] sink run
    sortSingleLoop context items (some sink) completed

-- ---------------------------------------------------------------------------
-- nosort-multi
-- ---------------------------------------------------------------------------

/-- `open.entry(key)`, opening a sink for a vacant one. -/
def entry (context : PartitionProjection) (values : PartitionValues α) (sinks : SinkMap α) :
    Write α J (OpenFileSink α × SinkMap α) := do
  let key := partitionKey w.rendering.format values context.fieldOrder
  match sinks.lookup key with
  | some sink => pure (sink, sinks)
  | none =>
    match ← w.openSink values context.projectedSchema none with
    | .ok sink => pure (sink, (key, sink) :: sinks)
    | .error primary => w.failWith primary [] (w.env.intoValues sinks.sinks)

def nosortMultiLoop (context : PartitionProjection) :
    List (Except Error (PartitionRun α)) → SinkMap α → Write α J (FileOutputReport J)
  | [], sinks => w.finishRemaining (sortByTarget (w.env.intoValues sinks.sinks)) []
  | item :: items, sinks => do
    let run ← w.receive [] (w.env.intoValues sinks.sinks) item
    let (sink, sinks) ← w.entry context run.values sinks
    w.writeRun context [] (w.env.intoValues sinks.sinks) sink run
    nosortMultiLoop context items sinks

-- ---------------------------------------------------------------------------
-- nosort-evict
-- ---------------------------------------------------------------------------

/-- The least recently written sink makes room when the cache is full. -/
def evict (s : EvictState α J) : Write α J (EvictState α J) :=
  if s.sinks.len = s.sinks.capacity then
    match s.sinks.popLru with
    | none => throw (.panic "a full cache has a victim")
    | some ((_, evicted), sinks) => do
      let s := { s with sinks }
      match ← w.finish evicted with
      | .ok output => pure { s with completed := s.completed ++ [output] }
      | .error primary => w.failWith primary s.completed s.held
  else pure s

def openNumbered (context : PartitionProjection) (key : String) (values : PartitionValues α)
    (s : EvictState α J) : Write α J (EvictState α J) := do
  let fileNumber := s.fileNumber key
  match ← w.openSink values context.projectedSchema (some fileNumber) with
  | .ok sink => pure { s with
      sinks := s.sinks.put key sink
      fileNumbers := (key, fileNumber + 1) :: s.fileNumbers }
  | .error primary => w.failWith primary s.completed s.held

def ensureOpen (context : PartitionProjection) (key : String) (values : PartitionValues α)
    (s : EvictState α J) : Write α J (EvictState α J) :=
  if s.sinks.contains key then pure s
  else do
    let s ← w.evict s
    w.openNumbered context key values s

/-- The projection comes before the sink is looked up and marked as used. -/
def writeCached (context : PartitionProjection) (key : String) (run : PartitionRun α)
    (s : EvictState α J) : Write α J (EvictState α J) := do
  match context.projectBatch run.batch with
  | .error primary => do
    record (.failed .project)
    w.failWith primary s.completed s.held
  | .ok projected =>
    match s.sinks.getMut key with
    | none => throw (.panic "the current partition has an open sink")
    | some (sink, sinks) =>
      let s := { s with sinks }
      match ← w.writeBatch sink run projected with
      | .ok () => pure s
      | .error primary => w.failWith primary s.completed s.held

def nosortEvictLoop (context : PartitionProjection) :
    List (Except Error (PartitionRun α)) → EvictState α J → Write α J (FileOutputReport J)
  | [], s => w.finishRemaining (sortByTarget s.held) s.completed
  | item :: items, s => do
    let run ← w.receive s.completed s.held item
    let key := partitionKey w.rendering.format run.values context.fieldOrder
    let s ← w.ensureOpen context key run.values s
    let s ← w.writeCached context key run s
    nosortEvictLoop context items s

-- ---------------------------------------------------------------------------
-- A write
-- ---------------------------------------------------------------------------

def begin (schema : Schema) : Write α J PartitionProjection := do
  match PartitionProjection.new w.rendering.debug schema w.partitionFields w.excludeColumns with
  | .ok context => pure context
  | .error primary =>
    record (.failed .validate)
    throw (.failure (.new primary [] []))

def runs (stream : SendableRecordBatchStream α) : List (Except Error (PartitionRun α)) :=
  PartitionRunStream.items w.rendering.kernel (.new stream.batches w.partitionFields)

def writeSortSingle [DecidableEq α] (stream : SendableRecordBatchStream α) :
    Write α J (FileOutputReport J) := do
  let context ← w.begin stream.schema
  w.sortSingleLoop context (w.runs stream) none []

def writeNosortMulti (stream : SendableRecordBatchStream α) : Write α J (FileOutputReport J) := do
  let context ← w.begin stream.schema
  w.nosortMultiLoop context (w.runs stream) []

def writeNosortEvict (stream : SendableRecordBatchStream α) (maxOpen : { n : Nat // 0 < n }) :
    Write α J (FileOutputReport J) := do
  let context ← w.begin stream.schema
  w.nosortEvictLoop context (w.runs stream) ⟨.new maxOpen.1 maxOpen.2, [], []⟩

def write [DecidableEq α] (strategy : Strategy) (stream : SendableRecordBatchStream α) :
    Write α J (FileOutputReport J) :=
  match strategy with
  | .sortSingle => w.writeSortSingle stream
  | .nosortMulti => w.writeNosortMulti stream
  | .nosortEvict maxOpen => w.writeNosortEvict stream maxOpen

end PartitionedOutputWriter

end SilkChiffon.FileOutput
