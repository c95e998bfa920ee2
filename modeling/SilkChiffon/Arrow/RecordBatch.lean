import SilkChiffon.Arrow.Schema
import Mathlib.Tactic.Common

/-!
# Record batches

A batch holds its rows, each as wide as its schema. A cell is `none` when it
is null.
-/

namespace SilkChiffon.Arrow

abbrev Cell (α : Type) := Option α

abbrev Row (α : Type) := List (Cell α)

structure RecordBatch (α : Type) where
  schema : Schema
  rows : List (Row α)
  width : ∀ row ∈ rows, row.length = schema.length

namespace Schema

def columnIndex (schema : Schema) (name : String) : Option Nat :=
  schema.findIdx? (·.name == name)

def cell (schema : Schema) (name : String) (row : Row α) : Option (Cell α) :=
  (schema.columnIndex name).map fun i => row.getD i none

def outOfBounds (schema : Schema) (indices : List Nat) : Option Nat :=
  indices.find? (schema.length ≤ ·)

def project (schema : Schema) (indices : List Nat) : Schema :=
  indices.filterMap (schema[·]?)

theorem project_length {schema : Schema} (h : schema.outOfBounds indices = none) :
    (schema.project indices).length = indices.length := by
  rw [outOfBounds, List.find?_eq_none] at h
  induction indices with
  | nil => rfl
  | cons i rest ih =>
    have hi : i < schema.length := by simpa using h i (by simp)
    have := ih fun j hj => h j (List.mem_cons_of_mem _ hj)
    simpa [project, List.filterMap_cons, hi] using this

end Schema

def Row.project (indices : List Nat) (row : Row α) : Row α := indices.map (row.getD · none)

theorem Schema.cell_eq_find {schema : Schema} {row : Row α} (hwidth : row.length = schema.length)
    (name : String) :
    schema.cell name row = ((schema.zip row).find? (·.1.name == name)).map (·.2) := by
  induction schema generalizing row with
  | nil => rfl
  | cons field fields ih =>
    cases row with
    | nil => cases hwidth
    | cons value values =>
      have ih := ih (Nat.succ.inj hwidth : values.length = fields.length)
      simp only [Schema.cell, Schema.columnIndex, List.findIdx?_cons, List.zip_cons_cons, List.find?_cons] at ih ⊢
      cases field.name == name with
      | true => rfl
      | false => simpa [Function.comp_def] using ih

theorem Schema.zip_project {schema : Schema} {row : Row α} (hwidth : row.length = schema.length)
    (hindices : ∀ i ∈ indices, i < schema.length) :
    (schema.project indices).zip (row.project indices) =
      indices.filterMap ((schema.zip row)[·]?) := by
  induction indices with
  | nil => rfl
  | cons i indices ih =>
    have hi := hindices i (by simp)
    have ih := ih fun j hj => hindices j (List.mem_cons_of_mem _ hj)
    have hrow : i < row.length := hwidth ▸ hi
    have hpair : (schema.zip row)[i]? = some (schema[i], row[i]) :=
      List.getElem?_zip_eq_some.mpr
        ⟨List.getElem?_eq_getElem hi, List.getElem?_eq_getElem hrow⟩
    simp only [Schema.project, Row.project] at ih ⊢
    rw [List.filterMap_cons, List.filterMap_cons, hpair, List.getElem?_eq_getElem hi, List.map_cons,
      List.getD_eq_getElem?_getD, List.getElem?_eq_getElem hrow, List.zip_cons_cons, ih]
    rfl

namespace RecordBatch

def columnByName (batch : RecordBatch α) (name : String) : Option (List (Cell α)) :=
  (batch.schema.columnIndex name).map fun i => batch.rows.map (·.getD i none)

def slice (batch : RecordBatch α) (offset length : Nat) : RecordBatch α where
  schema := batch.schema
  rows := (batch.rows.drop offset).take length
  width row hrow := batch.width row (List.mem_of_mem_drop (List.mem_of_mem_take hrow))

def project (batch : RecordBatch α) (indices : List Nat) : Except Nat (RecordBatch α) :=
  match h : batch.schema.outOfBounds indices with
  | some i => .error i
  | none => .ok {
      schema := batch.schema.project indices
      rows := batch.rows.map (Row.project indices)
      width := by
        intro row hrow
        obtain ⟨r, _, rfl⟩ := List.mem_map.mp hrow
        rw [Schema.project_length h, Row.project, List.length_map] }

theorem project_ok {batch : RecordBatch α} (h : batch.project indices = .ok projected) :
    projected.rows = batch.rows.map (Row.project indices) := by
  unfold project at h
  split at h
  · cases h
  · obtain rfl := Except.ok.inj h
    rfl

end RecordBatch

end SilkChiffon.Arrow
