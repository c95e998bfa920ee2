import Mathlib.Data.List.Flatten
import SilkChiffon.Lib.Lexicographic
import SilkChiffon.Transform.ColumnReference
import SilkChiffon.FileOutput.Guarantees
import SilkChiffon.FileOutput.Selection

/-!
# Sorted files

A file is a selection of the stream's rows in their order, so what orders the
stream orders the file. Partition columns may be dropped from the order:
`sort-single` puts rows of equal values only into a file, and the other
strategies do not sort by them in the first place.
-/

namespace SilkChiffon.FileOutput

open Arrow FileOutput.History Effects Lexicographic
open ColumnReference (SortColumn SortSpec PartitionStrategy fullSortSpec uniqueBy sortColumn)

-- ---------------------------------------------------------------------------
-- The order of rows
-- ---------------------------------------------------------------------------

section

variable (order : α → α → Ordering)

/-- Nulls stand where the column says, in either direction. -/
def compareCells (column : SortColumn) : Cell α → Cell α → Ordering
  | none, none => .eq
  | none, some _ => if column.nullPlacement = .first then .lt else .gt
  | some _, none => if column.nullPlacement = .first then .gt else .lt
  | some a, some b =>
    match column.direction with
    | .ascending => order a b
    | .descending => (order a b).swap

def compareRows (schema : Schema) (column : SortColumn) (a b : Row α) : Ordering :=
  compareCells order column ((schema.cell column.name a).getD none)
    ((schema.cell column.name b).getD none)

def Sorted (schema : Schema) (spec : SortSpec) (rows : List (Row α)) : Prop :=
  SortedBy (compareRows order schema) spec rows

end

def outputOrdering (partitionColumns : List String) (sortBy : Option SortSpec) : SortSpec :=
  (sortBy.getD []).withoutColumnsNamed partitionColumns

def Strategy.partitionStrategy : Strategy → PartitionStrategy
  | .sortSingle => .sortSingle
  | .nosortMulti => .nosortMulti
  | .nosortEvict _ => .nosortEvict

-- ---------------------------------------------------------------------------
-- The specification
-- ---------------------------------------------------------------------------

variable {order : α → α → Ordering} {schema : Schema} {a b : Row α}

theorem compareCells_eq (column' : SortColumn) {x y : Cell α}
    (h : compareCells order column x y = .eq) : compareCells order column' x y = .eq := by
  cases x with
  | none =>
    cases y with
    | none => rfl
    | some y =>
      simp only [compareCells] at h
      split at h <;> cases h
  | some x =>
    cases y with
    | none =>
      simp only [compareCells] at h
      split at h <;> cases h
    | some y =>
      have heq : order x y = .eq := by
        simp only [compareCells] at h
        split at h
        · exact h
        · exact Ordering.swap_eq_eq.mp h
      simp only [compareCells, heq]
      cases column'.direction <;> rfl

theorem compareCells_self (horder : ∀ x, order x x = .eq) (column : SortColumn) (x : Cell α) :
    compareCells order column x x = .eq := by
  cases x with
  | none => rfl
  | some x =>
    simp only [compareCells, horder x]
    cases column.direction <;> rfl

theorem compareRows_eq_of_name (hname : column'.name = column.name)
    (h : compareRows order schema column a b = .eq) :
    compareRows order schema column' a b = .eq := by
  unfold compareRows at h ⊢
  rw [hname]
  exact compareCells_eq column' h

theorem lexCompare_uniqueBy {spec : SortSpec} (seen : List String)
    (hseen : ∀ column : SortColumn, column.name ∈ seen →
      compareRows order schema column a b = .eq) :
    lexCompare (compareRows order schema) (uniqueBy SortColumn.name spec seen) a b =
      lexCompare (compareRows order schema) spec a b := by
  induction spec generalizing seen with
  | nil => rfl
  | cons column spec ih =>
    rw [uniqueBy]
    split
    · rename_i hmem
      rw [ih seen hseen, lexCompare, hseen column hmem]
      rfl
    · rw [lexCompare, lexCompare]
      cases hcmp : compareRows order schema column a b with
      | eq =>
        rw [ih (column.name :: seen)]
        intro column' hmem
        rcases List.mem_cons.mp hmem with hname | hmem
        · exact compareRows_eq_of_name hname hcmp
        · exact hseen column' hmem
      | lt => rfl
      | gt => rfl

theorem compare_fromNames {names : List String}
    (h : ∀ name ∈ names, ∀ column : SortColumn, column.name = name →
      compareRows order schema column a b = .eq) :
    ∀ column ∈ SortSpec.fromNames names, compareRows order schema column a b = .eq := by
  intro column hcolumn
  obtain ⟨name, hname, rfl⟩ := List.mem_map.mp hcolumn
  have hmem : name ∈ (uniqueBy id names []).map id := by simpa using hname
  rw [ColumnReference.mem_uniqueBy_names] at hmem
  exact h name (by simpa using hmem.1) _ rfl

/-- The full specification orders rows like the output ordering does, for rows
the partition columns do not tell apart where they come first. -/
theorem compare_fullSortSpec (strategy : PartitionStrategy) (columns : List String)
    (sortBy : Option SortSpec)
    (h : strategy = .sortSingle → ∀ name ∈ columns, ∀ column : SortColumn, column.name = name →
      compareRows order schema column a b = .eq) :
    lexCompare (compareRows order schema) (fullSortSpec strategy columns sortBy) a b =
      lexCompare (compareRows order schema) (outputOrdering columns sortBy) a b := by
  unfold fullSortSpec SortSpec.extend
  rw [lexCompare_uniqueBy [] (by simp)]
  cases strategy with
  | sortSingle => exact lexCompare_drop_prefix (compare_fromNames (h rfl))
  | nosortMulti => rfl
  | nosortEvict => rfl

-- ---------------------------------------------------------------------------
-- Projection
-- ---------------------------------------------------------------------------

def PartitionedOutputWriter.projectedSchema (w : PartitionedOutputWriter α J) (schema : Schema) :
    Schema :=
  match projectionIndicesExcluding schema w.excludeColumns with
  | some indices => schema.project indices
  | none => schema

variable {w : PartitionedOutputWriter α J}

theorem keep_eq {excluded : List String} {row : Row α} (hwidth : row.length = schema.length) :
    (List.range schema.length).filter (fun index =>
        !excluded.contains ((schema.names[index]?).getD "")) =
      (List.range (schema.zip row).length).filter fun index =>
        ((schema.zip row)[index]?).any fun p => !excluded.contains p.1.name := by
  rw [List.length_zip, hwidth, min_self]
  refine List.filter_congr fun index hindex => ?_
  have hlt : index < schema.length := List.mem_range.mp hindex
  have hpair : (schema.zip row)[index]? = some (schema[index], row[index]) :=
    List.getElem?_zip_eq_some.mpr
      ⟨List.getElem?_eq_getElem hlt, List.getElem?_eq_getElem (hwidth ▸ hlt)⟩
  simp [hpair, Schema.names, hlt]

theorem indices_excluding (h : projectionIndicesExcluding schema excluded = some indices) :
    indices = (List.range schema.length).filter fun index =>
      !excluded.contains ((schema.names[index]?).getD "") := by
  unfold projectionIndicesExcluding at h
  split at h
  · cases h
  · exact (Option.some.inj h).symm

theorem lt_of_excluding (h : projectionIndicesExcluding schema excluded = some indices) :
    ∀ index ∈ indices, index < schema.length := by
  rw [indices_excluding h]
  exact fun index hindex => List.mem_range.mp (List.mem_of_mem_filter hindex)

theorem outOfBounds_excluding (h : projectionIndicesExcluding schema excluded = some indices) :
    schema.outOfBounds indices = none := by
  rw [Schema.outOfBounds, List.find?_eq_none]
  exact fun index hindex => by simpa using lt_of_excluding h index hindex

theorem zip_project_excluding (h : projectionIndicesExcluding schema excluded = some indices) {row : Row α}
    (hwidth : row.length = schema.length) :
    (schema.project indices).zip (row.project indices) =
      (schema.zip row).filter fun p => !excluded.contains p.1.name := by
  rw [Schema.zip_project hwidth (lt_of_excluding h), indices_excluding h, keep_eq hwidth,
    Lists.filterMap_range_filter]

theorem cell_projectRow {row : Row α} (hwidth : row.length = schema.length)
    (hname : name ∉ w.excludeColumns) :
    (w.projectedSchema schema).cell name (w.projectRow schema row) = schema.cell name row := by
  unfold PartitionedOutputWriter.projectedSchema PartitionedOutputWriter.projectRow
  cases hkeep : projectionIndicesExcluding schema w.excludeColumns with
  | none => rfl
  | some keep =>
    dsimp only
    have hsame : (fun p : Field × Cell α => decide
          ((!w.excludeColumns.contains p.1.name) = true ∧ (p.1.name == name) = true)) =
        fun p => p.1.name == name := by
      funext p
      by_cases hp : p.1.name = name
      · simp [hp, hname]
      · simp [hp]
    have hwidth' : (row.project keep).length = (schema.project keep).length := by
      rw [Schema.project_length (outOfBounds_excluding hkeep), Row.project, List.length_map]
    rw [Schema.cell_eq_find hwidth', Schema.cell_eq_find hwidth, zip_project_excluding hkeep hwidth, List.find?_filter,
      hsame]

-- ---------------------------------------------------------------------------
-- Files
-- ---------------------------------------------------------------------------

/-- A file's rows are a selection of the stream's in their order. The rows they
were selected from are sorted, and so are they themselves where the file keeps
the columns it is sorted by. -/
structure FileSorted (w : PartitionedOutputWriter α J) (order : α → α → Ordering) (schema : Schema)
    (ordering : SortSpec) (received file : List (Row α)) : Prop where
  selection : ∃ source, source.Sublist received ∧ file = source.map (w.projectRow schema) ∧
    Sorted order schema ordering source
  kept : (∀ column ∈ ordering, column.name ∉ w.excludeColumns) →
    Sorted order (w.projectedSchema schema) ordering file

theorem lexCompare_projectRow {ordering : SortSpec} (ha : a.length = schema.length)
    (hb : b.length = schema.length)
    (hkept : ∀ column ∈ ordering, column.name ∉ w.excludeColumns) :
    lexCompare (compareRows order (w.projectedSchema schema)) ordering (w.projectRow schema a)
        (w.projectRow schema b) =
      lexCompare (compareRows order schema) ordering a b := by
  induction ordering with
  | nil => rfl
  | cons column ordering ih =>
    obtain ⟨hcolumn, hrest⟩ := List.forall_mem_cons.mp hkept
    rw [lexCompare, lexCompare, ih hrest, compareRows, compareRows, cell_projectRow ha hcolumn,
      cell_projectRow hb hcolumn]

theorem FileSorted.of_source {ordering : SortSpec} {received source : List (Row α)}
    (hsub : source.Sublist received) (hsorted : Sorted order schema ordering source)
    (hwidth : ∀ row ∈ source, row.length = schema.length) :
    FileSorted w order schema ordering received (source.map (w.projectRow schema)) := by
  refine ⟨⟨source, hsub, rfl, hsorted⟩, fun hkept => ?_⟩
  refine List.pairwise_map.mpr (List.Pairwise.imp_of_mem (fun ha hb hab => ?_) hsorted)
  rwa [lexCompare_projectRow (hwidth _ ha) (hwidth _ hb) hkept]

def sourceRows (h : History α J) (sink : SinkId) : List (Row α) :=
  ((written h).filter (·.2 == sink)).flatMap (·.1.batch.rows)

theorem contents_eq_source (hl : Legal (w.policy schema strategy) h) (sink : SinkId) :
    contents h sink = (sourceRows h sink).map (w.projectRow schema) := by
  have hd := hl.delivered (w.policy_exclusive schema strategy)
  rw [w.policy_keying schema strategy] at hd
  rw [hd.contents sink, sourceRows, List.map_flatMap]
  exact List.flatMap_congr fun p _ => keying_rows w schema p.1

theorem mem_sourceRows {h : History α J} (hrow : row ∈ sourceRows h sink) :
    ∃ run, (run, sink) ∈ written h ∧ row ∈ run.batch.rows := by
  obtain ⟨⟨run, s⟩, hrun, hmem⟩ := List.mem_flatMap.mp hrow
  obtain ⟨hwritten, hsink⟩ := List.mem_filter.mp hrun
  have hsink : s = sink := by simpa using hsink
  exact ⟨run, hsink ▸ hwritten, hmem⟩

theorem sourceRows_agree {columns : List String} (hl : Legal (w.policy schema strategy) h)
    (hv : ValuesKept columns h)
    (hruns : ∀ p ∈ written h, p.1.Uniform columns ∧ p.1.batch.schema = schema)
    (ha : a ∈ sourceRows h sink) (hb : b ∈ sourceRows h sink) (hname : name ∈ columns) :
    (schema.cell name a).getD none = (schema.cell name b).getD none := by
  obtain ⟨run, hrun, ha⟩ := mem_sourceRows ha
  obtain ⟨run', hrun', hb⟩ := mem_sourceRows hb
  obtain ⟨s, hs, hsink, hvalues⟩ := hv _ hrun
  obtain ⟨s', hs', hsink', hvalues'⟩ := hv _ hrun'
  obtain rfl := hl.sink_inj hs hs' (hsink.trans hsink'.symm)
  have hcell : ∀ {run : PartitionRun α} {row : Row α}, (run, sink) ∈ written h →
      row ∈ run.batch.rows → run.values.get name = some ((schema.cell name row).getD none) := by
    intro run row hrun hrow
    obtain ⟨huniform, hschema⟩ := hruns _ hrun
    rw [huniform row hrow, rowValues_get, if_pos hname, hschema]
  have hsame := (hvalues name hname).symm.trans (hvalues' name hname)
  rw [hcell hrun ha, hcell hrun' hb] at hsame
  exact Option.some.inj hsame

/-- What one moment of a write needs of the end it leads to. -/
theorem file_sorted {columns : List String} {sortBy : Option SortSpec} {strategy : Strategy}
    {received : List (Row α)} (horder : ∀ x, order x x = .eq) (hl : Legal (w.policy schema strategy) h)
    (hv : strategy = .sortSingle → ValuesKept columns h)
    (hruns : ∀ p ∈ written h, p.1.Uniform columns ∧ p.1.batch.schema = schema)
    (hrows : ((written h).flatMap (·.1.batch.rows)) <+: received)
    (hsorted : Sorted order schema (fullSortSpec strategy.partitionStrategy columns sortBy) received)
    (hp : p <+: h) (sink : SinkId) :
    FileSorted w order schema (outputOrdering columns sortBy) received (contents p sink) := by
  rw [contents_eq_source (hl.of_prefix hp)]
  have hwritten : written p <+: written h := hp.filterMap _
  have hsub : (sourceRows p sink).Sublist (sourceRows h sink) :=
    (hwritten.sublist.filter _).flatMap _
  have hreceived : (sourceRows h sink).Sublist received :=
    (List.filter_sublist.flatMap _).trans hrows.sublist
  refine .of_source (hsub.trans hreceived) (SortedBy.sublist ?_ hsub) fun row hrow => ?_
  · refine (hsorted.sublist hreceived).congr fun a ha b hb => compare_fullSortSpec _ _ _ ?_
    intro hstrategy name hname column hcolumn
    have hsingle : strategy = .sortSingle := by
      cases strategy with
      | sortSingle => rfl
      | nosortMulti => cases hstrategy
      | nosortEvict => cases hstrategy
    have hagree := sourceRows_agree hl (hv hsingle) hruns ha hb hname
    rw [compareRows, hcolumn, hagree]
    exact compareCells_self horder column _
  · obtain ⟨run, hrun, hmem⟩ := mem_sourceRows (hsub.subset hrow)
    rw [run.batch.width row hmem, (hruns _ hrun).2]

/-- For every strategy and sort specification: when the stream is sorted by the
full specification, then at every moment of a write, however it ends, every
file is sorted by the ordering its sink was given. -/
theorem every_file_sorted [DecidableEq α] (w : PartitionedOutputWriter α J) (strategy : Strategy)
    (stream : SendableRecordBatchStream α) (order : α → α → Ordering) (sortBy : Option SortSpec)
    (hK : w.rendering.kernel.Lawful) (hfields : w.partitionFields ≠ [])
    (hschema : ∀ batch, .ok batch ∈ stream.batches → batch.schema = stream.schema)
    (horder : ∀ x, order x x = .eq)
    (hsorted : Sorted order stream.schema
      (fullSortSpec strategy.partitionStrategy w.partitionFields sortBy)
      (receivedRows stream.batches)) :
    Ensures (w.write strategy stream) []
      (fun _ h => ∀ p, p <+: h → ∀ sink, FileSorted w order stream.schema
        (outputOrdering w.partitionFields sortBy) (receivedRows stream.batches) (contents p sink))
      (fun _ h => ∀ p, p <+: h → ∀ sink, FileSorted w order stream.schema
        (outputOrdering w.partitionFields sortBy) (receivedRows stream.batches)
          (contents p sink)) := by
  have hfiles : ∀ h, Legal (w.policy stream.schema strategy) h → Begins (w.runs stream) h ∧
      (strategy = .sortSingle → ValuesKept w.partitionFields h) → ∀ p, p <+: h → ∀ sink,
      FileSorted w order stream.schema (outputOrdering w.partitionFields sortBy)
        (receivedRows stream.batches) (contents p sink) := by
    rintro h hl ⟨hbegins, hv⟩ p hp sink
    have hmap : ((written h).map (·.1)).map Except.ok <+: w.runs stream := by
      rw [List.map_map]
      exact hbegins
    rw [runs_eq_batchItems] at hmap
    obtain ⟨hrows, hruns⟩ := items_prefix hK hfields hmap
    rw [List.flatMap_map] at hrows
    refine file_sorted horder hl hv (fun q hq => ?_) hrows hsorted hp sink
    obtain ⟨huniform, batch, hbatch, heq⟩ := hruns q.1 (List.mem_map_of_mem hq)
    exact ⟨huniform, heq.trans (hschema batch hbatch)⟩
  refine ((ensures_write w strategy stream).and (ensures_write_selected w strategy stream)).mono ?_ ?_
  · rintro report h ⟨⟨runs, _, hs⟩, hselected⟩
    exact hfiles h hs.legal hselected
  · rintro halt h ⟨hf, hselected⟩
    cases halt with
    | panic message => exact hf.elim
    | failure failure => exact hfiles h hf.legal hselected

theorem regionRow_width (region id : Cell Nat) : [region, id].length = regionSchema.length := rfl

def latestStream : SendableRecordBatchStream Nat :=
  ⟨regionSchema,
    [.ok ⟨regionSchema, [[some 1, some 30]], List.forall_mem_singleton.mpr (regionRow_width _ _)⟩,
      .ok ⟨regionSchema, [[some 1, some 20]], List.forall_mem_singleton.mpr (regionRow_width _ _)⟩,
      .ok ⟨regionSchema, [[none, some 40]], List.forall_mem_singleton.mpr (regionRow_width _ _)⟩]⟩

theorem every_file_sorted_latest :
    ∃ report h, regionWriter.write .sortSingle latestStream [] = .ok report h ∧
      ∀ p, p <+: h → ∀ sink, FileSorted regionWriter compare regionSchema
        [sortColumn "id" .descending]
        [[some 1, some 30], [some 1, some 20], [none, some 40]] (contents p sink) := by
  refine ⟨_, _, rfl, (every_file_sorted regionWriter .sortSingle latestStream compare
    (some [sortColumn "region" .descending, sortColumn "id" .descending]) runsKernel_lawful
    (by decide) (by simp [latestStream]) (fun _ => compare_eq_iff_eq.mpr rfl) ?_).ok rfl⟩
  simp only [Sorted, SortedBy]
  decide

end SilkChiffon.FileOutput
