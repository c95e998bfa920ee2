import SilkChiffon.Arrow.FieldEquality
import SilkChiffon.BigQuery.Delivery

/-!
# Projection

A scan asks for columns by position. The session is asked for fields by name,
answers with them in the order of the table, and the batches it sends are
projected to what the scan asked for.
-/

namespace SilkChiffon.BigQuery

open Arrow

inductive ProjectionError
  | arrow (index : Nat)
  | plan (index : Nat)
  | executionSchema
  deriving DecidableEq

structure ProjectionRequest where
  selectedFields : List String
  outputSchema : Schema

def distinctNames (names : List String) : List String :=
  names.foldl (fun fields field => if field ∈ fields then fields else fields ++ [field]) []

def projectionRequest (schema : Schema) :
    Option (List Nat) → Except ProjectionError ProjectionRequest
  | none => .ok { selectedFields := [], outputSchema := schema }
  | some indices =>
    match schema.outOfBounds indices with
    | some index => .error (.arrow index)
    | none => do
      let names ← indices.mapM fun index =>
        match schema[index]? with
        | some field => .ok field.name
        | none => .error (.plan index)
      let selectedFields := distinctNames names
      let selectedFields :=
        if selectedFields.isEmpty then (schema.head?.map Field.name).toList else selectedFields
      pure { selectedFields, outputSchema := schema.project indices }

def validateExecutionSchema (returned discovered : Schema) (selectedFields : List String) :
    Except ProjectionError Unit :=
  let expected :=
    if selectedFields.isEmpty then discovered
    else discovered.filter fun field => selectedFields.contains field.name
  if returned.length ≠ expected.length ∨
      (returned.zip expected).any fun (returned, expected) => returned ≠ expected then
    .error .executionSchema
  else .ok ()

def batchProjection (returned output : Schema) : Except ProjectionError (List Nat) :=
  output.mapM fun expected =>
    match returned.columnIndex expected.name with
    | none => .error .executionSchema
    | some index => if returned[index]? = some expected then .ok index else .error .executionSchema

/-- What `plan_scan` makes of a projection, when the session that selects these
fields has the schema `returned` of them. -/
def planScan (discovered : Schema) (returned : List String → Schema)
    (projection : Option (List Nat)) : Except ProjectionError (Schema × List Nat) := do
  let request ← projectionRequest discovered projection
  let returned := returned request.selectedFields
  validateExecutionSchema returned discovered request.selectedFields
  let indices ← batchProjection returned request.outputSchema
  pure (request.outputSchema, indices)

-- ---------------------------------------------------------------------------
-- What a scan asks for
-- ---------------------------------------------------------------------------

def requested (discovered : Schema) (projection : Option (List Nat)) : List Nat :=
  projection.getD (List.range discovered.length)

/-- The columns it has to read, in the order of the table: to count rows it
reads the first. -/
def fetched (discovered : Schema) (projection : Option (List Nat)) : List Nat :=
  let indices := requested discovered projection
  (List.range discovered.length).filter fun i => i ∈ if indices = [] then [0] else indices

variable {discovered returned schema : Schema} {projection : Option (List Nat)}

theorem mem_distinctNames : name ∈ distinctNames names ↔ name ∈ names := by
  have hfold : ∀ fields : List String, name ∈ names.foldl (fun fields field =>
      if field ∈ fields then fields else fields ++ [field]) fields ↔
        name ∈ fields ∨ name ∈ names := by
    induction names with
    | nil => simp
    | cons field names ih =>
      intro fields
      rw [List.foldl_cons, ih, List.mem_cons]
      split
      · rename_i hmem
        constructor
        · rintro (h | h)
          · exact .inl h
          · exact .inr (.inr h)
        · rintro (h | rfl | h)
          · exact .inl h
          · exact .inl hmem
          · exact .inr h
      · simp [or_assoc]
  simpa [distinctNames] using hfold []

theorem validateExecutionSchema_ok {selected : List String} :
    validateExecutionSchema returned discovered selected = .ok () ↔
      returned = if selected.isEmpty then discovered
        else discovered.filter fun field => selected.contains field.name := by
  unfold validateExecutionSchema
  generalize (if selected.isEmpty then discovered
    else discovered.filter fun field => selected.contains field.name) = expected
  simp only [List.any_eq_true, decide_eq_true_eq]
  constructor
  · intro h
    split at h
    · cases h
    · rename_i hsame
      rw [not_or, not_not, not_exists] at hsame
      refine List.ext_getElem hsame.1 fun i hi hi' => ?_
      by_contra hne
      refine hsame.2 (returned[i], expected[i]) ⟨?_, hne⟩
      exact List.mem_iff_getElem.mpr ⟨i, by simp [hi, hi'], by simp⟩
  · rintro rfl
    rw [if_neg]
    rintro (h | ⟨⟨a, b⟩, hmem, hne⟩)
    · exact h rfl
    · obtain ⟨i, hi, heq⟩ := List.mem_iff_getElem.mp hmem
      rw [List.getElem_zip] at heq
      obtain ⟨rfl, rfl⟩ := Prod.mk.inj heq
      exact hne rfl

-- ---------------------------------------------------------------------------
-- Positions and names
-- ---------------------------------------------------------------------------

theorem inBounds_iff : schema.outOfBounds indices = none ↔ ∀ i ∈ indices, i < schema.length := by
  simp [Schema.outOfBounds]

theorem project_range : schema.project (List.range schema.length) = schema := by
  have hall := Lists.filterMap_range_filter (fun _ => true) schema
  rw [List.filter_true, List.filter_eq_self.mpr] at hall
  · exact hall
  · intro i hi
    simpa using List.mem_range.mp hi

theorem fetched_lt (h : i ∈ fetched discovered projection) : i < discovered.length :=
  List.mem_range.mp ((List.mem_filter.mp h).1)

theorem fetched_nodup : (fetched discovered projection).Nodup :=
  List.nodup_range.filter _

/-- Fields are selected by position just as by name, when names are distinct. -/
theorem filter_names (hnames : discovered.names.Nodup)
    {indices : List Nat} (hindices : ∀ i ∈ indices, i < discovered.length) {names : List String}
    (hselected : ∀ name, name ∈ names ↔
      ∃ i ∈ indices, (discovered[i]?).map Field.name = some name) :
    (discovered.filter fun field => names.contains field.name) =
      discovered.project ((List.range discovered.length).filter fun i => i ∈ indices) := by
  rw [← Lists.filterMap_range_filter, Schema.project]
  congr 1
  refine List.filter_congr fun i hi => ?_
  have hi := List.mem_range.mp hi
  rw [List.getElem?_eq_getElem hi, Option.any_some, Bool.eq_iff_iff, List.contains_iff_mem,
    hselected, decide_eq_true_eq]
  constructor
  · rintro ⟨j, hj, hname⟩
    have hj' := hindices j hj
    have hjname : j < discovered.names.length := by simpa [Schema.names] using hj'
    have hiname : i < discovered.names.length := by simpa [Schema.names] using hi
    have heq : discovered.names[j] = discovered.names[i] := by
      simpa [Schema.names, hj'] using hname
    exact (List.getElem_inj hnames).mp heq ▸ hj
  · exact fun hmem => ⟨i, hmem, by simp [hi]⟩

theorem columnIndex_eq (hnames : schema.names.Nodup) (h : schema[j]? = some field) :
    schema.columnIndex field.name = some j := by
  obtain ⟨hj, rfl⟩ := List.getElem?_eq_some_iff.mp h
  refine List.findIdx?_eq_some_iff_getElem.mpr ⟨hj, by simp, fun k hk => ?_⟩
  have hk' : k < schema.names.length := by simpa [Schema.names] using hk.trans hj
  have hj' : j < schema.names.length := by simpa [Schema.names] using hj
  have hne : schema.names[k] ≠ schema.names[j] := fun heq =>
    absurd ((List.getElem_inj hnames).mp heq) hk.ne
  simpa [Schema.names] using hne

theorem project_names_nodup (hnames : discovered.names.Nodup) :
    (discovered.project (fetched discovered projection)).names.Nodup := by
  have hsub : (discovered.project (fetched discovered projection)).Sublist discovered := by
    conv_rhs => rw [← @project_range discovered]
    exact List.filter_sublist.filterMap _
  exact hnames.sublist (hsub.map _)

theorem project_getElem? {j : Nat} (hindices : ∀ i ∈ indices, i < schema.length) :
    (schema.project indices)[j]? = indices[j]?.bind (schema[·]?) := by
  induction indices generalizing j with
  | nil => rfl
  | cons i indices ih =>
    have hi := hindices i List.mem_cons_self
    have ih := fun j => @ih j fun k hk => hindices k (List.mem_cons_of_mem _ hk)
    simp only [Schema.project] at ih ⊢
    rw [List.filterMap_cons, List.getElem?_eq_getElem hi]
    cases j with
    | zero => simp [hi]
    | succ j => simpa using ih j

-- ---------------------------------------------------------------------------
-- The request
-- ---------------------------------------------------------------------------

theorem fetched_none : fetched discovered none = List.range discovered.length := by
  refine List.filter_eq_self.mpr fun i hi => ?_
  have hne : List.range discovered.length ≠ [] := List.ne_nil_of_mem hi
  simpa [requested, hne] using List.mem_range.mp hi

theorem projectionRequest_ok (hnames : discovered.names.Nodup)
    (hbounds : discovered.outOfBounds (requested discovered projection) = none) :
    ∃ request, projectionRequest discovered projection = .ok request ∧
      request.outputSchema = discovered.project (requested discovered projection) ∧
      (if request.selectedFields.isEmpty then discovered
        else discovered.filter fun field => request.selectedFields.contains field.name) =
        discovered.project (fetched discovered projection) := by
  cases projection with
  | none =>
    refine ⟨_, rfl, project_range.symm, ?_⟩
    rw [fetched_none]
    exact project_range.symm
  | some indices =>
    have hindices : ∀ i ∈ indices, i < discovered.length := inBounds_iff.mp hbounds
    let name (i : Nat) : String := ((discovered[i]?).map Field.name).getD ""
    have hmapM : indices.mapM (m := Except ProjectionError) (fun index =>
        match discovered[index]? with
        | some field => .ok field.name
        | none => .error (.plan index)) = .ok (indices.map name) := by
      refine Lists.mapM_eq_ok_map.mpr fun i hi => ?_
      simp [name, hindices i hi]
    have hname : ∀ n, n ∈ distinctNames (indices.map name) ↔
        ∃ i ∈ indices, (discovered[i]?).map Field.name = some n := by
      intro n
      rw [mem_distinctNames, List.mem_map]
      refine exists_congr fun i => and_congr_right fun hi => ?_
      simp [name, hindices i hi]
    have hrequest : projectionRequest discovered (some indices) = .ok {
        selectedFields :=
          if (distinctNames (indices.map name)).isEmpty then
            (discovered.head?.map Field.name).toList
          else distinctNames (indices.map name)
        outputSchema := discovered.project indices } := by
      have hnone : discovered.outOfBounds indices = none := hbounds
      unfold projectionRequest
      simp only [hnone]
      rw [hmapM]
      rfl
    refine ⟨_, hrequest, rfl, ?_⟩
    cases indices with
    | nil =>
      cases discovered with
      | nil => rfl
      | cons field fields =>
        have hfilter := @filter_names (field :: fields) hnames [0] (by simp) [field.name]
          (by simp [eq_comm])
        exact hfilter
    | cons i rest =>
      have hmem : name i ∈ distinctNames ((i :: rest).map name) :=
        mem_distinctNames.mpr (List.mem_map_of_mem List.mem_cons_self)
      have hne : (distinctNames ((i :: rest).map name)).isEmpty = false := by
        rw [List.isEmpty_eq_false_iff]
        exact List.ne_nil_of_mem hmem
      simp only [hne, Bool.false_eq_true, if_false]
      rw [filter_names hnames hindices hname]
      simp [fetched, requested]

-- ---------------------------------------------------------------------------
-- Projecting what was fetched
-- ---------------------------------------------------------------------------

def Locates (fetched asked indices : List Nat) : Prop :=
  List.Forall₂ (fun i j => fetched[j]? = some i) asked indices

variable {table fetching asked indices : List Nat}

theorem batchProjection_ok (hnames : discovered.names.Nodup)
    (hasked : ∀ i ∈ asked, i ∈ fetched discovered projection) :
    ∃ indices, batchProjection (discovered.project (fetched discovered projection))
        (discovered.project asked) = .ok indices ∧
      Locates (fetched discovered projection) asked indices := by
  induction asked with
  | nil => exact ⟨[], rfl, .nil⟩
  | cons i asked ih =>
    obtain ⟨indices, hok, hlocates⟩ := ih fun j hj => hasked j (List.mem_cons_of_mem _ hj)
    have hi := hasked i List.mem_cons_self
    obtain ⟨j, hj⟩ := List.mem_iff_getElem?.mp hi
    have hlt : i < discovered.length := fetched_lt hi
    have hget : (discovered.project (fetched discovered projection))[j]? = some discovered[i] := by
      rw [project_getElem? fun _ => fetched_lt, hj]
      simp [hlt]
    refine ⟨j :: indices, ?_, .cons hj hlocates⟩
    have hcons : discovered.project (i :: asked) = discovered[i] :: discovered.project asked := by
      simp [Schema.project, hlt]
    rw [hcons, batchProjection, List.mapM_cons, columnIndex_eq (project_names_nodup hnames) hget]
    simp only [hget, if_true]
    unfold batchProjection at hok
    rw [hok]
    rfl

theorem Locates.project_row (h : Locates fetching asked indices) (row : Row α) :
    (row.project fetching).project indices = row.project asked := by
  induction h with
  | nil => rfl
  | @cons i j asked indices hj _ ih =>
    simp only [Row.project, List.map_cons] at ih ⊢
    rw [ih]
    simp [hj]

theorem Locates.project_schema (h : Locates fetching asked indices)
    (hfetching : ∀ i ∈ fetching, i < schema.length) :
    (schema.project fetching).project indices = schema.project asked := by
  induction h with
  | nil => rfl
  | @cons i j asked indices hj _ ih =>
    have hget : (schema.project fetching)[j]? = schema[i]? := by
      rw [project_getElem? hfetching, hj]
      rfl
    have hi := hfetching i (List.mem_of_getElem? hj)
    simp only [Schema.project, List.filterMap_cons] at ih hget ⊢
    rw [hget, ih]

theorem Locates.inBounds (h : Locates fetching asked indices) :
    ∀ j ∈ indices, j < fetching.length := by
  induction h with
  | nil => simp
  | cons hj _ ih =>
    refine List.forall_mem_cons.mpr ⟨?_, ih⟩
    exact (List.getElem?_eq_some_iff.mp hj).1

theorem project_eq_ok {batch projected : RecordBatch α} :
    batch.project indices = .ok projected ↔
      batch.schema.outOfBounds indices = none ∧ projected.schema = batch.schema.project indices ∧
        projected.rows = batch.rows.map (Row.project indices) := by
  obtain ⟨schema', rows', width'⟩ := projected
  unfold RecordBatch.project
  split
  · rename_i i hbounds
    simp [hbounds]
  · rename_i hbounds
    simp [hbounds, eq_comm]

theorem exists_table (batch : RecordBatch α)
    (hschema : batch.schema = discovered.project (fetched discovered projection)) :
    ∃ table : RecordBatch α, table.schema = discovered ∧
      table.project (fetched discovered projection) = .ok batch := by
  have hbounds : discovered.outOfBounds (fetched discovered projection) = none :=
    inBounds_iff.mpr fun _ => fetched_lt
  let whole (row : Row α) : Row α := (List.range discovered.length).map fun i =>
    row.getD ((fetched discovered projection).idxOf i) none
  have hwhole : ∀ row ∈ batch.rows, (whole row).project (fetched discovered projection) = row := by
    intro row hrow
    have hwidth := batch.width row hrow
    rw [hschema, Schema.project_length hbounds] at hwidth
    refine List.ext_getElem (by simp [Row.project, hwidth]) fun k hk hk' => ?_
    have hk'' : k < (fetched discovered projection).length := hwidth ▸ hk'
    have hlt := fetched_lt (List.getElem_mem hk'')
    simp [Row.project, whole, hlt, fetched_nodup.idxOf_getElem, hk']
  refine ⟨⟨discovered, batch.rows.map whole, ?_⟩, rfl, ?_⟩
  · intro row hrow
    obtain ⟨row, _, rfl⟩ := List.mem_map.mp hrow
    simp [whole]
  · refine project_eq_ok.mpr ⟨hbounds, hschema, ?_⟩
    rw [List.map_map]
    exact (List.map_id _).symm.trans (List.map_congr_left fun row hrow => (hwhole row hrow).symm)

/-- What is emitted has as many rows as the batch that was fetched, whatever the
columns; and of any table that batch is a view of, it shows the columns that the
scan asked for. -/
structure EmitsRequested (discovered : Schema) (projection : Option (List Nat))
    (batch output : RecordBatch α) : Prop where
  counted : output.rows.length = batch.rows.length
  viewed : ∃ table : RecordBatch α, table.schema = discovered ∧
    table.project (fetched discovered projection) = .ok batch
  projected : ∀ table : RecordBatch α, table.schema = discovered →
    table.project (fetched discovered projection) = .ok batch →
    table.project (requested discovered projection) = .ok output

variable {M : Type} {reader : Reader α M} {partition : ReadPartition}

theorem accept_requested {s : ReadRowsStreamState} {decoded : DecodedBatch α}
    (haccepts : ∀ batch : RecordBatch α, reader.accepts batch.schema batch = true)
    (hbounds : discovered.outOfBounds (requested discovered projection) = none)
    (hlocates : Locates (fetched discovered projection) (requested discovered projection)
      partition.batchProjection)
    (houtput : partition.outputSchema = discovered.project (requested discovered projection))
    (hschema : decoded.batch.schema = discovered.project (fetched discovered projection))
    (hadvance : s.acceptedOffset.checkedAdvance decoded.rowCount = some next) :
    ∃ output s', s.accept reader partition decoded now = .ok (output, s') ∧
      EmitsRequested discovered projection decoded.batch output := by
  have hfetched : ∀ i ∈ fetched discovered projection, i < discovered.length :=
    fun _ => fetched_lt
  have hinBounds : decoded.batch.schema.outOfBounds partition.batchProjection = none := by
    rw [hschema, inBounds_iff, Schema.project_length (inBounds_iff.mpr hfetched)]
    exact hlocates.inBounds
  have hfields : decoded.batch.schema.project partition.batchProjection =
      partition.outputSchema := by
    rw [hschema, hlocates.project_schema hfetched, houtput]
  obtain ⟨projected, hprojected⟩ : ∃ projected,
      decoded.batch.project partition.batchProjection = .ok projected := by
    unfold RecordBatch.project
    split
    · rename_i i hsome
      rw [hinBounds] at hsome
      cases hsome
    · exact ⟨_, rfl⟩
  obtain ⟨-, hsame, hrows⟩ := project_eq_ok.mp hprojected
  have hsame := hsame.trans hfields
  obtain ⟨output, hout⟩ : ∃ output,
      ReadRowsStreamState.withOutputSchema reader partition.outputSchema projected =
        some output := by
    unfold ReadRowsStreamState.withOutputSchema
    rw [dif_pos (congrArg List.length hsame), if_pos (hsame ▸ haccepts projected)]
    exact ⟨_, rfl⟩
  have houtRows := (withOutputSchema_some hout).trans hrows
  have houtSchema : output.schema = partition.outputSchema := by
    unfold ReadRowsStreamState.withOutputSchema at hout
    split at hout
    · split at hout
      · obtain rfl := Option.some.inj hout
        rfl
      · cases hout
    · cases hout
  have haccept : ∃ s', s.accept reader partition decoded now = .ok (output, s') := by
    unfold ReadRowsStreamState.accept
    rw [hadvance, hprojected]
    simp only [bind, Except.bind, Except.mapError, orFail, hout]
    by_cases hpos : 0 < decoded.rowCount
    · simp only [hpos, if_true]
      exact ⟨_, rfl⟩
    · simp only [hpos, if_false]
      exact ⟨_, rfl⟩
  obtain ⟨s', haccept⟩ := haccept
  refine ⟨output, s', haccept, ?_, exists_table _ hschema, fun table htable hview => ?_⟩
  · rw [houtRows, List.length_map]
  · obtain ⟨-, -, hviewRows⟩ := project_eq_ok.mp hview
    refine project_eq_ok.mpr ⟨htable ▸ hbounds, ?_, ?_⟩
    · rw [houtSchema, houtput, htable]
    · rw [houtRows, hviewRows, List.map_map]
      exact List.map_congr_left fun row _ => hlocates.project_row row

theorem requested_fetched
    (hbounds : discovered.outOfBounds (requested discovered projection) = none)
    (h : i ∈ requested discovered projection) : i ∈ fetched discovered projection := by
  have hne := List.ne_nil_of_mem h
  have hlt := inBounds_iff.mp hbounds i h
  simpa [fetched, hne, hlt] using h

/-- For distinct names and any projection: one that is out of bounds is refused
before a session is opened. Otherwise the session's schema is accepted exactly
when it has the fields to be read, none missing, more, moved or of another type;
then the scan is planned, and every batch of that schema is emitted as it was
asked for, unless the offset overflows. -/
theorem projection_is_faithful (reader : Reader α M)
    (haccepts : ∀ batch : RecordBatch α, reader.accepts batch.schema batch = true)
    (discovered : Schema) (hnames : discovered.names.Nodup) (returned : List String → Schema)
    (projection : Option (List Nat)) :
    (∀ index, discovered.outOfBounds (requested discovered projection) = some index →
      planScan discovered returned projection = .error (.arrow index)) ∧
    (discovered.outOfBounds (requested discovered projection) = none →
      ∃ request, projectionRequest discovered projection = .ok request ∧
        (validateExecutionSchema (returned request.selectedFields) discovered
            request.selectedFields = .ok () ↔
          returned request.selectedFields =
            discovered.project (fetched discovered projection)) ∧
        (validateExecutionSchema (returned request.selectedFields) discovered
            request.selectedFields = .ok () →
          ∃ indices, batchProjection (returned request.selectedFields) request.outputSchema =
              .ok indices ∧
            planScan discovered returned projection = .ok (request.outputSchema, indices) ∧
            ∀ partition (s : ReadRowsStreamState) (decoded : DecodedBatch α) now next,
              partition.outputSchema = request.outputSchema →
              partition.batchProjection = indices →
              decoded.batch.schema = returned request.selectedFields →
              s.acceptedOffset.checkedAdvance decoded.rowCount = some next →
              ∃ output s', s.accept reader partition decoded now = .ok (output, s') ∧
                EmitsRequested discovered projection decoded.batch output)) := by
  constructor
  · intro index hbounds
    cases projection with
    | none =>
      have hin : discovered.outOfBounds (requested discovered none) = none :=
        inBounds_iff.mpr fun i hi => List.mem_range.mp hi
      rw [hin] at hbounds
      cases hbounds
    | some indices =>
      have hbounds : discovered.outOfBounds indices = some index := hbounds
      unfold planScan projectionRequest
      simp only [hbounds]
      rfl
  · intro hbounds
    obtain ⟨request, hrequest, houtput, hexpected⟩ := projectionRequest_ok hnames hbounds
    have hvalidate : ∀ schema, validateExecutionSchema schema discovered
        request.selectedFields = .ok () ↔
          schema = discovered.project (fetched discovered projection) := by
      intro schema
      rw [validateExecutionSchema_ok, hexpected]
    refine ⟨request, hrequest, hvalidate _, fun hvalid => ?_⟩
    have hreturned := (hvalidate _).mp hvalid
    obtain ⟨indices, hindices, hlocates⟩ := batchProjection_ok hnames
      fun i hi => @requested_fetched discovered projection i hbounds hi
    rw [← houtput, ← hreturned] at hindices
    refine ⟨indices, hindices, ?_, ?_⟩
    · unfold planScan
      rw [hrequest]
      simp only [bind, Except.bind, hvalid, hindices]
      rfl
    · rintro partition s decoded now next hpartition rfl hschema hadvance
      exact accept_requested haccepts hbounds hlocates (hpartition.trans houtput)
        (hschema.trans hreturned) hadvance

def eventSchema : Schema := [.mk "id" .int64 false, .mk "name" .utf8 true]

def repeatedPartition : ReadPartition :=
  { idPartition with
    sessionSchema := eventSchema
    outputSchema := [.mk "name" .utf8 true, .mk "name" .utf8 true, .mk "id" .int64 false]
    batchProjection := [1, 1, 0] }

def eventState : ReadRowsStreamState where
  current := none
  acceptedOffset := .default
  rpcAttempt := 1
  failureStreak := 0
  acceptedProgressStarted := none
  acceptedProgressRows := 0
  previousObservation := secs 0
  backoff := .createReadSession
  retryBudget := ⟨.readRows, secs 0, secs 3600, 1, secs 60, none⟩
  reservation := 0

theorem event_width : ∀ row ∈ ([[some 7, none]] : List (Row Nat)),
    row.length = eventSchema.length := by decide

def eventBatch : DecodedBatch Nat := ⟨⟨eventSchema, [[some 7, none]], event_width⟩, 1, 0, rfl⟩

/-- The name twice and then the id. -/
theorem projection_is_faithful_repeated :
    ∃ output s', eventState.accept byteReader repeatedPartition eventBatch (secs 1) =
        .ok (output, s') ∧
      EmitsRequested eventSchema (some [1, 1, 0]) eventBatch.batch output := by
  obtain ⟨request, hrequest, -, hscan⟩ := (projection_is_faithful byteReader (fun _ => rfl)
    eventSchema (by decide) (fun _ => eventSchema) (some [1, 1, 0])).2 (by decide)
  obtain rfl : ⟨["name", "id"], repeatedPartition.outputSchema⟩ = request :=
    Except.ok.inj hrequest
  obtain ⟨indices, hindices, -, haccept⟩ := hscan (by decide)
  obtain rfl : [1, 1, 0] = indices := Except.ok.inj hindices
  exact haccept repeatedPartition eventState eventBatch (secs 1)
    ⟨1, by decide, by decide⟩ rfl rfl rfl rfl

end SilkChiffon.BigQuery
