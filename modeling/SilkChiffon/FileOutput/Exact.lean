import SilkChiffon.FileOutput.SortedFiles

/-!
# A single output file

An output without partitions is one sink. It is opened for an empty stream as
well, receives every batch without the excluded columns, and is finished behind
the last of them or aborted. What the sink answers may depend on everything
that happened to it before.
-/

namespace SilkChiffon.FileOutput

open Arrow Effects

-- ---------------------------------------------------------------------------
-- Binding
-- ---------------------------------------------------------------------------

inductive SinkCall (α : Type)
  | opened (schema : Schema)
  | wrote (batch : RecordBatch α)
  | refused (batch : RecordBatch α)
  | finished (result : Except Error SinkCompletion)
  | aborted (result : Except Error Unit)

structure SinkBinding (T α : Type) where
  openSink : T → Schema → Except Error Unit
  writeBatch : List (SinkCall α) → RecordBatch α → Except Error Unit
  finish : List (SinkCall α) → Except Error SinkCompletion
  abort : List (SinkCall α) → Except Error Unit

/-- The storage session and the formats; `L` is a parsed location and `B` a
format's binding. -/
structure FileOutputBinder (L T B α : Type) where
  debug : Debug
  parse : String → Except Error L
  prepareOutputTarget : L → Except Error T
  extension : T → Option String
  get : String → Option B
  byExtension : String → Option B
  bindSink : B → Except Error (SinkBinding T α)
  explicitFormat : Option String

structure ExactOutput (T α : Type) where
  reference : String
  target : T
  sinkBinding : SinkBinding T α
  excludeColumns : List String

namespace FileOutputBinder

variable (binder : FileOutputBinder L T B α)

def registered (format : String) : Except Error B :=
  match binder.get format with
  | some binding => .ok binding
  | none => .error (.message s!"format is not registered: {format}")

def formatForExtension (extension : Option String) (target : String) : Except Error B :=
  match binder.explicitFormat with
  | some format => binder.registered format
  | none =>
    match extension.bind binder.byExtension with
    | some binding => .ok binding
    | none => .error (.message (s!"Could not detect format from path {binder.debug.string target}. Use " ++
        "--output-format to specify explicitly."))

def formatForTarget (target : T) (reference : String) : Except Error B :=
  match binder.explicitFormat with
  | some format => binder.registered format
  | none => binder.formatForExtension (binder.extension target) reference

def bindExact (outputSchema : Schema) (reference : String) (excludeColumns : List String) :
    Except Error (ExactOutput T α) := do
  let text := binder.debug.string reference
  validateExcludedColumns binder.debug outputSchema excludeColumns
  let location ← (binder.parse reference).mapError (.context s!"while parsing exact file output {text}")
  let target ← (binder.prepareOutputTarget location).mapError (.context s!"while preparing exact file output {text}")
  let format ← binder.formatForTarget target reference
  let sinkBinding ← (binder.bindSink format).mapError
    (.context s!"while binding format for exact file output {text}")
  return ⟨reference, target, sinkBinding, excludeColumns⟩

end FileOutputBinder

-- ---------------------------------------------------------------------------
-- Writing
-- ---------------------------------------------------------------------------

abbrev ExactWrite (α J β : Type) := EStateM (FileOutputFailure J) (List (SinkCall α)) β

def projectItem (indices : List Nat) (item : Except Error (RecordBatch α)) : Except Error (RecordBatch α) := do
  let batch ← item
  (batch.project indices).mapError (projectError batch.schema)

def projectStream (stream : SendableRecordBatchStream α) (indices : List Nat) :
    Except Error (SendableRecordBatchStream α) :=
  match stream.schema.outOfBounds indices with
  | some index => .error (.message
      s!"Column index {index} out of bounds for schema with {stream.schema.length} columns")
  | none => .ok ⟨stream.schema.project indices, stream.batches.map (projectItem indices)⟩

/-- Each batch in turn, to the first that the stream or the sink does not give or take. -/
def SinkBinding.writeStream (binding : SinkBinding T α) :
    List (Except Error (RecordBatch α)) → ExactWrite α J (Except Error Unit)
  | [] => pure (.ok ())
  | .error e :: _ => pure (.error e)
  | .ok batch :: items => do
    match binding.writeBatch (← get) batch with
    | .ok () =>
      modify (· ++ [.wrote batch])
      writeStream binding items
    | .error e =>
      modify (· ++ [.refused batch])
      pure (.error e)

def cleanupErrors : Except Error Unit → List Error
  | .ok () => []
  | .error e => [e]

namespace ExactOutput

variable (output : ExactOutput T α)

def projected (stream : SendableRecordBatchStream α) : Except Error (SendableRecordBatchStream α) :=
  match projectionIndicesExcluding stream.schema output.excludeColumns with
  | some indices => projectStream stream indices
  | none => .ok stream

/-- The end of a sink that was opened, by what became of its stream. -/
def settle (text : String) : Except Error Unit → ExactWrite α J (FileOutputReport J)
  | .error primary => do
    let result := output.sinkBinding.abort (← get)
    modify (· ++ [.aborted result])
    throw (.new (.context s!"while writing exact file output {text}" primary) [] (cleanupErrors result))
  | .ok () => do
    let result := output.sinkBinding.finish (← get)
    modify (· ++ [.finished result])
    match result with
    | .error e => throw (.new (.context s!"while completing exact file output {text}" e) [] [])
    | .ok completion => pure (.new [completedOutput completion []])

def writeExact (debug : Debug) (stream : SendableRecordBatchStream α) : ExactWrite α J (FileOutputReport J) :=
  let text := debug.string output.reference
  match output.projected stream with
  | .error e => throw (.new e [] [])
  | .ok stream =>
    match output.sinkBinding.openSink output.target stream.schema with
    | .error e => throw (.new (.context s!"while opening exact file output {text}" e) [] [])
    | .ok () => do
      modify (· ++ [.opened stream.schema])
      let written ← output.sinkBinding.writeStream stream.batches
      output.settle text written

end ExactOutput

-- ---------------------------------------------------------------------------
-- Excluded columns
-- ---------------------------------------------------------------------------

theorem validateExcludedColumns_ok {debug : Debug} (h : validateExcludedColumns debug schema columns = .ok ()) :
    ∀ column ∈ columns, ∃ field ∈ schema, field.name = column := by
  induction columns with
  | nil => exact List.forall_mem_nil _
  | cons column columns ih =>
    unfold validateExcludedColumns at h
    split at h
    · cases h
    · rename_i index hindex
      refine List.forall_mem_cons.mpr ⟨?_, ih h⟩
      obtain ⟨hlt, hname, -⟩ := List.findIdx?_eq_some_iff_getElem.mp hindex
      exact ⟨_, List.getElem_mem hlt, beq_iff_eq.mp hname⟩

def fileSchema (excluded : List String) (schema : Schema) : Schema :=
  schema.filter fun field => !excluded.contains field.name

/-- The batch without these columns: its other columns, and of each row the
cells in them. -/
structure WithoutColumns (excluded : List String) (batch kept : RecordBatch α) : Prop where
  schema : kept.schema = fileSchema excluded batch.schema
  rows : kept.rows.map kept.schema.zip =
    batch.rows.map fun row => (batch.schema.zip row).filter fun p => !excluded.contains p.1.name

theorem project_excluding (h : projectionIndicesExcluding schema excluded = some indices) :
    schema.project indices = fileSchema excluded schema := by
  have hkeep : indices = (List.range schema.length).filter fun index =>
      (schema[index]?).any fun field => !excluded.contains field.name := by
    rw [indices_excluding h]
    refine List.filter_congr fun index hindex => ?_
    simp [Schema.names, List.mem_range.mp hindex]
  rw [Schema.project, hkeep, Lists.filterMap_range_filter, fileSchema]

theorem withoutColumns_nil (batch : RecordBatch α) : WithoutColumns [] batch batch := by
  constructor <;> simp [fileSchema]

theorem project_withoutColumns {batch : RecordBatch α}
    (h : projectionIndicesExcluding batch.schema excluded = some indices) :
    ∃ kept, batch.project indices = .ok kept ∧ WithoutColumns excluded batch kept := by
  have hbounds := outOfBounds_excluding h
  unfold RecordBatch.project
  split
  · rename_i index hindex
    rw [hbounds] at hindex
    cases hindex
  · refine ⟨_, rfl, project_excluding h, ?_⟩
    rw [List.map_map]
    exact List.map_congr_left fun row hrow => zip_project_excluding h (batch.width row hrow)

inductive Kept (excluded : List String) : Except Error (RecordBatch α) → Except Error (RecordBatch α) → Prop
  | error (e : Error) : Kept excluded (.error e) (.error e)
  | batch (h : WithoutColumns excluded batch kept) : Kept excluded (.ok batch) (.ok kept)

variable {output : ExactOutput T α}

theorem projected_kept (output : ExactOutput T α) {stream : SendableRecordBatchStream α}
    (hbatches : ∀ batch, .ok batch ∈ stream.batches → batch.schema = stream.schema) :
    ∃ kept, output.projected stream = .ok kept ∧
      kept.schema = fileSchema output.excludeColumns stream.schema ∧
        List.Forall₂ (Kept output.excludeColumns) stream.batches kept.batches := by
  unfold ExactOutput.projected
  split
  · rename_i indices hindices
    unfold projectStream
    rw [outOfBounds_excluding hindices]
    refine ⟨_, rfl, project_excluding hindices, ?_⟩
    rw [List.forall₂_map_right_iff, List.forall₂_same]
    intro item hitem
    cases item with
    | error e => exact .error e
    | ok batch =>
      obtain ⟨kept, hkept, hwithout⟩ := project_withoutColumns (hbatches batch hitem ▸ hindices)
      unfold projectItem
      dsimp only [bind, Except.bind]
      rw [hkept]
      exact .batch hwithout
  · rename_i hnone
    have hnil : output.excludeColumns = [] := by
      unfold projectionIndicesExcluding at hnone
      split at hnone
      · assumption
      · cases hnone
    refine ⟨stream, rfl, by simp [fileSchema, hnil], List.forall₂_same.mpr fun item _ => ?_⟩
    rw [hnil]
    cases item with
    | error e => exact .error e
    | ok batch => exact .batch (withoutColumns_nil batch)

-- ---------------------------------------------------------------------------
-- The sink of a stream
-- ---------------------------------------------------------------------------

inductive Stuck (excluded : List String) : List (Except Error (RecordBatch α)) → List (SinkCall α) → Prop
  | stream (e : Error) (rest : List (Except Error (RecordBatch α))) : Stuck excluded (.error e :: rest) []
  | sink (h : WithoutColumns excluded batch kept) (rest : List (Except Error (RecordBatch α))) :
      Stuck excluded (.ok batch :: rest) [.refused kept]

/-- What the sink has taken, and how far the stream was read. -/
def Taken (excluded : List String) (items rest : List (Except Error (RecordBatch α)))
    (calls calls' last : List (SinkCall α)) : Prop :=
  ∃ batches written, List.Forall₂ (WithoutColumns excluded) batches written ∧
    items = batches.map .ok ++ rest ∧ calls' = calls ++ written.map .wrote ++ last

theorem Taken.cons (h : WithoutColumns excluded batch kept)
    (ht : Taken excluded items rest (calls ++ [.wrote kept]) calls' last) :
    Taken excluded (.ok batch :: items) rest calls calls' last := by
  obtain ⟨batches, written, hall, rfl, rfl⟩ := ht
  exact ⟨batch :: batches, kept :: written, hall.cons h, rfl, by simp⟩

theorem ensures_writeStream {binding : SinkBinding T α} (h : List.Forall₂ (Kept excluded) items kept) :
    Ensures (binding.writeStream kept : ExactWrite α J _) calls
      (fun result calls' => (result = .ok () ∧ Taken excluded items [] calls calls' []) ∨
        ∃ e rest last, result = .error e ∧ Stuck excluded rest last ∧ Taken excluded items rest calls calls' last)
      (fun _ _ => False) := by
  induction h generalizing calls with
  | nil => exact ensures_pure (.inl ⟨rfl, [], [], .nil, rfl, by simp⟩)
  | @cons item _ items _ hitem _ ih =>
    cases hitem with
    | error e => exact ensures_pure (.inr ⟨e, _, [], rfl, .stream e items, [], [], .nil, rfl, by simp⟩)
    | @batch batch kept hkept =>
      apply ensures_get_bind
      split
      · apply ensures_modify_bind
        refine ih.mono (fun result calls' hresult => ?_) fun _ _ h => h
        rcases hresult with ⟨rfl, htaken⟩ | ⟨e, rest, last, rfl, hstuck, htaken⟩
        · exact .inl ⟨rfl, htaken.cons hkept⟩
        · exact .inr ⟨e, rest, last, rfl, hstuck, htaken.cons hkept⟩
      · rename_i e _
        apply ensures_modify_bind
        exact ensures_pure (.inr ⟨e, _, _, rfl, .sink hkept items, [], [], .nil, rfl, by simp⟩)

theorem FileOutputFailure.new_outputs (primary : Error) (cleanup : List Error) :
    (FileOutputFailure.new primary [] cleanup : FileOutputFailure J).report.outputs = [] := by
  simp [FileOutputFailure.new, FileOutputReport.new]

/-- How an output fails: before a sink is open, on an item of the stream, or
when the whole file was written and the sink does not finish. -/
inductive Unfinished (excluded : List String) (schema : Schema) (items : List (Except Error (RecordBatch α))) :
    List (SinkCall α) → Prop
  | unopened : Unfinished excluded schema items []
  | aborted (hstuck : Stuck excluded rest last) (htaken : Taken excluded items rest [.opened schema] calls last) :
      Unfinished excluded schema items (calls ++ [.aborted result])
  | finish (htaken : Taken excluded items [] [.opened schema] calls []) :
      Unfinished excluded schema items (calls ++ [.finished (.error e)])

/-- Every output that was bound and every stream of its schema: no sink is left
open. The write succeeds when the sink finishes behind the last batch of a
stream without error, and then the file has every row of the stream, in order,
without the excluded columns, which are columns of the stream, and is the one
output of the report. Otherwise the sink was aborted behind the first batch
that was not written or refused to finish, and no output is reported. -/
theorem exact_output_settles {binder : FileOutputBinder L T B α} {stream : SendableRecordBatchStream α}
    (hbound : binder.bindExact stream.schema reference excluded = .ok output)
    (hbatches : ∀ batch, .ok batch ∈ stream.batches → batch.schema = stream.schema) :
    (∀ column ∈ excluded, ∃ field ∈ stream.schema, field.name = column) ∧
    Ensures (output.writeExact binder.debug stream : ExactWrite α J _) []
      (fun report calls => ∃ batches written completion, stream.batches = batches.map .ok ∧
        List.Forall₂ (WithoutColumns excluded) batches written ∧
        calls = .opened (fileSchema excluded stream.schema) :: written.map .wrote ++ [.finished (.ok completion)] ∧
        report.outputs = [sortLocations (completedOutput completion [])])
      (fun failure calls => failure.report.outputs = [] ∧
        Unfinished excluded (fileSchema excluded stream.schema) stream.batches calls) := by
  obtain ⟨⟨⟩, hvalid, hrest⟩ := Lists.bind_eq_ok.mp hbound
  have hexcluded : output.excludeColumns = excluded := by
    obtain ⟨_, -, hrest⟩ := Lists.bind_eq_ok.mp hrest
    obtain ⟨_, -, hrest⟩ := Lists.bind_eq_ok.mp hrest
    obtain ⟨_, -, hrest⟩ := Lists.bind_eq_ok.mp hrest
    obtain ⟨_, -, hrest⟩ := Lists.bind_eq_ok.mp hrest
    obtain rfl := Except.ok.inj hrest
    rfl
  refine ⟨validateExcludedColumns_ok hvalid, ?_⟩
  subst hexcluded
  obtain ⟨kept, hkept, hschema, hitems⟩ := projected_kept output hbatches
  unfold ExactOutput.writeExact
  rw [hkept, ← hschema]
  dsimp only
  split
  · exact ensures_throw ⟨FileOutputFailure.new_outputs .., .unopened⟩
  · apply ensures_modify_bind
    apply ((ensures_writeStream hitems).mono (fun _ _ h => h) fun _ _ h => h.elim).bind
    rintro _ calls (⟨rfl, htaken⟩ | ⟨e, rest, last, rfl, hstuck, htaken⟩)
    · apply ensures_get_bind
      apply ensures_modify_bind
      split
      · rename_i e he
        rw [he]
        exact ensures_throw ⟨FileOutputFailure.new_outputs .., .finish htaken⟩
      · rename_i completion hcompletion
        rw [hcompletion]
        obtain ⟨batches, written, hall, hbatches, rfl⟩ := htaken
        refine ensures_pure ⟨batches, written, completion, by simpa using hbatches, hall, by simp, ?_⟩
        simp [FileOutputReport.new]
    · apply ensures_get_bind
      apply ensures_modify_bind
      exact ensures_throw ⟨FileOutputFailure.new_outputs .., .aborted hstuck htaken⟩

def SinkCall.rowsTaken : SinkCall α → Nat
  | wrote batch => batch.rows.length
  | _ => 0

def countingSink : SinkBinding String Nat where
  openSink _ _ := .ok ()
  writeBatch _ _ := .ok ()
  finish calls := .ok ⟨"regions.arrow", [], (calls.map SinkCall.rowsTaken).sum⟩
  abort _ := .ok ()

def countingBinder : FileOutputBinder String String Unit Nat where
  debug := regionWriter.rendering.debug
  parse := .ok
  prepareOutputTarget := .ok
  extension _ := some "arrow"
  get _ := none
  byExtension _ := some ()
  bindSink _ := .ok countingSink
  explicitFormat := none

theorem latestStream_schema : ∀ batch, .ok batch ∈ latestStream.batches → batch.schema = latestStream.schema := by
  simp [latestStream]

theorem exact_output_settles_latest :
    ∃ (report : FileOutputReport String) (calls : List (SinkCall Nat)) (completion : SinkCompletion),
      ExactOutput.writeExact ⟨"regions.arrow", "regions.arrow", countingSink, ["region"]⟩ countingBinder.debug
        latestStream [] = .ok report calls ∧
      .finished (.ok completion) ∈ calls ∧ report.outputs = [sortLocations (completedOutput completion [])] := by
  have hbound : countingBinder.bindExact latestStream.schema "regions.arrow" ["region"] =
      .ok ⟨"regions.arrow", "regions.arrow", countingSink, ["region"]⟩ := rfl
  obtain ⟨_, _, completion, -, -, hcalls, houtputs⟩ := (exact_output_settles hbound latestStream_schema).2.ok rfl
  exact ⟨_, _, completion, rfl, hcalls ▸ List.mem_append_right _ (List.mem_singleton_self _), houtputs⟩

end SilkChiffon.FileOutput
