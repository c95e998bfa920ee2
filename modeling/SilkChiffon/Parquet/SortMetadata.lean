import SilkChiffon.Parquet.BaseProperties

/-!
# Sorting columns

The file format counts sorting columns in leaves, the sink in the fields of the
schema. The two agree on a column as long as the fields before it have as many
leaves as there are fields.
-/

namespace SilkChiffon.Parquet

open Arrow
open ColumnReference (SortColumn SortDirection NullPlacement sortColumn)

def leavesBefore (schema : Schema) (index : Nat) : Nat :=
  (enumerateLeafColumns (schema.take index)).length

def leafIndex (schema : Schema) (name : String) : Option Nat :=
  (schema.columnIndex name).map (leavesBefore schema)

def IsLeafColumn (schema : Schema) (name : String) : Prop :=
  ∃ field, schema.fieldWithName name = some field ∧ children field.dataType = none

/-- A sorting column that points at the leaf of a column and sorts like it. -/
structure Designates (schema : Schema) (column : SortColumn) (written : SortingColumn) : Prop where
  leaf : leafIndex schema column.name = some written.columnIdx
  descending : written.descending = decide (column.direction = .descending)
  nullsFirst : written.nullsFirst = decide (column.nullPlacement = .first)

variable {schema : Schema} {name : String}

theorem columnIndex_some (h : schema.fieldWithName name = some field) :
    ∃ index, schema.columnIndex name = some index ∧ schema[index]? = some field := by
  rw [Schema.fieldWithName, List.find?_eq_bind_findIdx?_getElem?] at h
  exact Option.bind_eq_some_iff.mp h

theorem enumerateLeafColumns_split (h : schema[index]? = some field) :
    ∃ after, enumerateLeafColumns schema =
      enumerateLeafColumns (schema.take index) ++ (fieldLeaves field ++ after) := by
  obtain ⟨hlt, rfl⟩ := List.getElem?_eq_some_iff.mp h
  refine ⟨enumerateLeafColumns (schema.drop (index + 1)), ?_⟩
  have hschema : schema = schema.take index ++ schema[index] :: schema.drop (index + 1) := by
    rw [← List.drop_eq_getElem_cons hlt, List.take_append_drop]
  conv_lhs => rw [hschema]
  simp only [enumerateLeafColumns, List.flatMap_append, List.flatMap_cons]

theorem leafIndex_leaf (h : IsLeafColumn schema name) :
    ∃ index dataType, leafIndex schema name = some index ∧
      (enumerateLeafColumns schema)[index]? = some ⟨[name], name, dataType⟩ := by
  obtain ⟨field, hfield, hleaf⟩ := h
  obtain ⟨index, hindex, hat⟩ := columnIndex_some hfield
  obtain ⟨after, hsplit⟩ := enumerateLeafColumns_split hat
  refine ⟨leavesBefore schema index, field.dataType, by simp [leafIndex, hindex], ?_⟩
  have hname := Schema.fieldWithName_name hfield
  rw [hsplit, leavesBefore, List.getElem?_append_right le_rfl, Nat.sub_self, fieldLeaves,
    enumerateField_leaf hleaf, hname]
  rfl

theorem sortingColumn_ok {column : SortColumn} (h : sortingColumn schema column = .ok written) :
    ∃ index, schema.columnIndex column.name = some index ∧
      written = ⟨index, decide (column.direction = .descending),
        decide (column.nullPlacement = .first)⟩ := by
  unfold sortingColumn at h
  split at h
  · cases h
  · rename_i index hindex
    obtain ⟨columnIdx, hidx, h⟩ := Lists.bind_eq_ok.mp h
    obtain rfl : index = columnIdx := by
      unfold sortingColumnIdx at hidx
      split at hidx
      · exact Except.ok.inj hidx
      · cases hidx
    exact ⟨index, hindex, (Except.ok.inj h).symm⟩

theorem sortingColumn_designates {column : SortColumn}
    (h : sortingColumn schema column = .ok written) : Designates schema column written ↔
      ∀ index, schema.columnIndex column.name = some index →
        leavesBefore schema index = index := by
  obtain ⟨index, hindex, rfl⟩ := sortingColumn_ok h
  constructor
  · intro hd index' hindex'
    obtain rfl := Option.some.inj (hindex.symm.trans hindex')
    simpa [leafIndex, hindex] using hd.leaf
  · exact fun hall => ⟨by simp [leafIndex, hindex, hall index hindex], rfl, rfl⟩

/-- The sorting columns point at the leaves of the columns they are for exactly
when the fields before each of them have as many leaves as there are fields. -/
theorem sorting_columns_designate (ordering : List SortColumn) (builder props : WriterProperties)
    (hleaves : ∀ column ∈ ordering, IsLeafColumn schema column.name)
    (h : applySortMetadata ordering builder schema = .ok props) :
    (∀ column ∈ ordering, ∃ index dataType, leafIndex schema column.name = some index ∧
      (enumerateLeafColumns schema)[index]? = some ⟨[column.name], column.name, dataType⟩) ∧
    ((ordering = [] ∨ ∃ columns, props.sortingColumns = some columns ∧
        List.Forall₂ (Designates schema) ordering columns) ↔
      ∀ column ∈ ordering, ∀ index, schema.columnIndex column.name = some index →
        leavesBefore schema index = index) := by
  refine ⟨fun column hcolumn => leafIndex_leaf (hleaves column hcolumn), ?_⟩
  unfold applySortMetadata at h
  split at h
  · rename_i hnil
    simp [hnil]
  rename_i hne
  obtain ⟨columns, hcolumns, rfl⟩ : ∃ columns, ordering.mapM (sortingColumn schema) = .ok columns ∧
      { builder with sortingColumns := some columns } = props := by
    cases hmap : ordering.mapM (sortingColumn schema) with
    | error e => rw [hmap] at h; cases h
    | ok columns => rw [hmap] at h; exact ⟨columns, rfl, Except.ok.inj h⟩
  have hall := Lists.mapM_eq_ok_iff_forall₂.mp hcolumns
  simp only [hne, false_or, Option.some.injEq, exists_eq_left']
  clear hcolumns hleaves hne h
  induction hall with
  | nil => simp
  | cons hcolumn _ ih =>
    rw [List.forall₂_cons, List.forall_mem_cons]
    exact and_congr (sortingColumn_designates hcolumn) ih

def nestedSchema : Schema :=
  [.mk "position" (.struct [.mk "x" .float64 true, .mk "y" .float64 true]) true,
    .mk "id" .int64 true]

/-- The same columns with the structure behind them. -/
def trackSchema : Schema :=
  [.mk "id" .int64 true, .mk "time" .int64 true,
    .mk "position" (.struct [.mk "x" .float64 true, .mk "y" .float64 true]) true]

def trackOrdering : List SortColumn := [sortColumn "time" .descending, sortColumn "id" .ascending]

theorem sorting_columns_designate_track :
    (∀ column ∈ trackOrdering, ∃ index dataType, leafIndex trackSchema column.name = some index ∧
      (enumerateLeafColumns trackSchema)[index]? = some ⟨[column.name], column.name, dataType⟩) ∧
    ((trackOrdering = [] ∨ ∃ columns, some [⟨1, true, true⟩, ⟨0, false, false⟩] = some columns ∧
        List.Forall₂ (Designates trackSchema) trackOrdering columns) ↔
      ∀ column ∈ trackOrdering, ∀ index, trackSchema.columnIndex column.name = some index →
        leavesBefore trackSchema index = index) :=
  sorting_columns_designate trackOrdering emptyProperties
    { emptyProperties with sortingColumns := some [⟨1, true, true⟩, ⟨0, false, false⟩] }
    (by simp [trackOrdering, trackSchema, sortColumn, IsLeafColumn, Schema.fieldWithName, Field.name, Field.dataType,
      children])
    rfl

/-- A file sorted by `id`, its third leaf, says that it is sorted by its second
one, `position.y`. -/
theorem sorting_columns_misplaced :
    (∀ column ∈ [sortColumn "id" .ascending], IsLeafColumn nestedSchema column.name) ∧
    applySortMetadata [sortColumn "id" .ascending] emptyProperties nestedSchema =
      .ok { emptyProperties with sortingColumns := some [⟨1, false, false⟩] } ∧
    (enumerateLeafColumns nestedSchema).map LeafColumn.parquetPath =
      ["position.x", "position.y", "id"] ∧
    ¬ List.Forall₂ (Designates nestedSchema) [sortColumn "id" .ascending] [⟨1, false, false⟩] := by
  refine ⟨?_, rfl, by decide, ?_⟩
  · simp [sortColumn, IsLeafColumn, nestedSchema, Schema.fieldWithName, Field.name, Field.dataType,
      children]
  · rw [List.forall₂_cons]
    rintro ⟨hd, _⟩
    have hleaf := hd.leaf
    have hindex : leafIndex nestedSchema "id" = some 2 := by decide
    cases hindex.symm.trans hleaf

end SilkChiffon.Parquet
