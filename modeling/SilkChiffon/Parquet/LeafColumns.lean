import SilkChiffon.Arrow.Schema
import Mathlib.Tactic.Common

/-!
# Leaf columns

A Parquet file has a column for each leaf of the schema's tree. A leaf is
known by the segments on its way down: the name of a top-level field or of a
struct field, `list.element` for a list and `key_value.key` and
`key_value.value` for a map. Options name leaves by the segments joined with
dots.
-/

namespace SilkChiffon.Parquet

open Arrow

structure LeafColumn where
  path : List String
  topLevel : String
  dataType : DataType

def LeafColumn.parquetPath (leaf : LeafColumn) : String := ".".intercalate leaf.path

def LeafColumn.matchesPrefix (leaf : LeafColumn) (segments : List String) : Bool :=
  segments.isPrefixOf leaf.path

def parseCliPath (s : String) : List String := (s.toList.splitOn '.').map String.ofList

mutual

def enumerateField (topLevel : String) : DataType → List String → List LeafColumn
  | .list (.mk _ element _), path | .listView (.mk _ element _), path
  | .largeList (.mk _ element _), path | .largeListView (.mk _ element _), path
  | .fixedSizeList (.mk _ element _) _, path =>
    enumerateField topLevel element (path ++ ["list", "element"])
  | .struct fields, path => enumerateFields topLevel fields path
  -- The entries of a map are its first two fields, whatever they are called.
  | .map (.mk _ (.struct (.mk _ key _ :: .mk _ value _ :: _)) _) _, path =>
    enumerateField topLevel key (path ++ ["key_value", "key"]) ++
      enumerateField topLevel value (path ++ ["key_value", "value"])
  | .map (.mk _ (.struct [.mk _ key _]) _) _, path =>
    enumerateField topLevel key (path ++ ["key_value", "key"])
  | .map _ _, _ => []
  | .dictionary _ value, path => enumerateField topLevel value path
  | dataType, path => [⟨path, topLevel, dataType⟩]

def enumerateFields (topLevel : String) : List Field → List String → List LeafColumn
  | [], _ => []
  | .mk name dataType _ :: fields, path =>
    enumerateField topLevel dataType (path ++ [name]) ++ enumerateFields topLevel fields path

end

def fieldLeaves (field : Field) : List LeafColumn :=
  enumerateField field.name field.dataType [field.name]

def enumerateLeafColumns (schema : Schema) : List LeafColumn := schema.flatMap fieldLeaves

-- ---------------------------------------------------------------------------
-- The tree of a type
-- ---------------------------------------------------------------------------

/-- What a type branches into and the segments on the way there, or nothing
for a leaf. -/
def children : DataType → Option (List (List String × DataType))
  | .list (.mk _ element _) | .listView (.mk _ element _) | .largeList (.mk _ element _)
  | .largeListView (.mk _ element _) | .fixedSizeList (.mk _ element _) _ =>
    some [(["list", "element"], element)]
  | .struct fields => some (fields.map fun field => ([field.name], field.dataType))
  | .map (.mk _ (.struct (.mk _ key _ :: .mk _ value _ :: _)) _) _ =>
    some [(["key_value", "key"], key), (["key_value", "value"], value)]
  | .map (.mk _ (.struct [.mk _ key _]) _) _ => some [(["key_value", "key"], key)]
  | .map _ _ => some []
  | .dictionary _ value => some [([], value)]
  | _ => none

theorem branch_nil (h : children t = some branches) (hp : p ∈ branches) (hnil : p.1 = []) :
    ∃ key value, t = .dictionary key value := by
  revert h
  fun_cases children t <;> intro h <;> simp only [Option.some.injEq, reduceCtorEq] at h <;>
    subst h
  case case10 key value => exact ⟨key, value, rfl⟩
  all_goals
    exfalso
    aesop

theorem enumerateFields_eq (fields : List Field) :
    enumerateFields topLevel fields path =
      fields.flatMap fun field => enumerateField topLevel field.dataType (path ++ [field.name]) := by
  induction fields with
  | nil => rfl
  | cons field fields ih =>
    obtain ⟨name, dataType, nullable⟩ := field
    rw [enumerateFields, ih]
    rfl

theorem enumerateField_eq (dataType : DataType) :
    enumerateField topLevel dataType path =
      match children dataType with
      | none => [⟨path, topLevel, dataType⟩]
      | some branches => branches.flatMap fun p => enumerateField topLevel p.2 (path ++ p.1) := by
  fun_cases children dataType <;> simp [enumerateField, enumerateFields_eq, List.flatMap_map, *]

theorem enumerateField_leaf (h : children dataType = none) :
    enumerateField topLevel dataType path = [⟨path, topLevel, dataType⟩] := by
  rw [enumerateField_eq, h]

theorem enumerateField_branches (h : children dataType = some branches) :
    enumerateField topLevel dataType path =
      branches.flatMap fun p => enumerateField topLevel p.2 (path ++ p.1) := by
  rw [enumerateField_eq, h]

theorem children_induct {P : DataType → Prop} (leaf : ∀ t, children t = none → P t)
    (branch : ∀ t branches, children t = some branches → (∀ p ∈ branches, P p.2) → P t) :
    ∀ t, P t := by
  have hlist : ∀ {t element}, children t = some [(["list", "element"], element)] → P element → P t :=
    fun ht he => branch _ _ ht (by simpa using he)
  have hboth := enumerateField.mutual_induct (fun t _ => P t)
    (fun fields _ => ∀ field ∈ fields, P field.dataType)
    (fun _ _ _ _ => hlist rfl) (fun _ _ _ _ => hlist rfl) (fun _ _ _ _ => hlist rfl)
    (fun _ _ _ _ => hlist rfl) (fun _ _ _ _ _ => hlist rfl)
    (fun fields _ ih => branch _ _ rfl (by simpa using ih))
    (fun _ _ key _ _ value _ _ _ _ _ hkey hvalue => branch _ _ rfl (by simp [hkey, hvalue]))
    (fun _ _ key _ _ _ _ hkey => branch _ _ rfl (by simp [hkey]))
    (fun entries sorted _ htwo hone => branch _ [] (by rw [children] <;> assumption) (by simp))
    (fun _ value _ ih => branch _ _ rfl (by simp [ih]))
    (fun t _ _ _ _ _ _ _ _ _ _ _ => leaf t (by rw [children] <;> assumption))
    (fun _ => by simp)
    (fun name t _ fields _ ht hfields => by
      rw [List.forall_mem_cons]
      exact ⟨ht, hfields⟩)
  exact fun t => hboth.1 t []

-- ---------------------------------------------------------------------------
-- Where leaves lie
-- ---------------------------------------------------------------------------

theorem mem_enumerateField (h : leaf ∈ enumerateField topLevel t path) :
    leaf.topLevel = topLevel ∧ path <+: leaf.path := by
  induction t using children_induct generalizing path with
  | leaf t ht =>
    rw [enumerateField_leaf ht, List.mem_singleton] at h
    subst h
    exact ⟨rfl, List.prefix_rfl⟩
  | branch t branches ht ih =>
    rw [enumerateField_branches ht] at h
    obtain ⟨p, hp, hleaf⟩ := List.mem_flatMap.mp h
    obtain ⟨htop, hpath⟩ := ih p hp hleaf
    exact ⟨htop, (List.prefix_append _ _).trans hpath⟩

theorem mem_fieldLeaves (h : leaf ∈ fieldLeaves field) :
    leaf.topLevel = field.name ∧ ∃ rest, leaf.path = field.name :: rest := by
  obtain ⟨htop, rest, hrest⟩ := mem_enumerateField h
  exact ⟨htop, rest, hrest.symm⟩

theorem mem_enumerateLeafColumns {schema : Schema} :
    leaf ∈ enumerateLeafColumns schema ↔ ∃ field ∈ schema, leaf ∈ fieldLeaves field :=
  List.mem_flatMap

-- ---------------------------------------------------------------------------
-- Dotted paths
-- ---------------------------------------------------------------------------

variable {leaf leaf' : LeafColumn}

theorem toList_parquetPath (leaf : LeafColumn) :
    leaf.parquetPath.toList = ['.'].intercalate (leaf.path.map String.toList) :=
  String.toList_intercalate

theorem parquetPath_topLevel (h : leaf.path = [name]) : leaf.parquetPath = name := by
  rw [LeafColumn.parquetPath, h, String.intercalate_singleton]

theorem parquetPath_nested (h : leaf.path = first :: second :: rest) :
    leaf.parquetPath.toList =
      first.toList ++ '.' :: (".".intercalate (second :: rest)).toList := by
  rw [LeafColumn.parquetPath, h, String.intercalate_cons_cons]
  simp

/-- Without dots in the segments the dotted path tells the segments. -/
theorem path_eq_of_parquetPath (hne : leaf.path ≠ []) (hne' : leaf'.path ≠ [])
    (hdots : ∀ segment ∈ leaf.path, '.' ∉ segment.toList)
    (hdots' : ∀ segment ∈ leaf'.path, '.' ∉ segment.toList)
    (h : leaf.parquetPath = leaf'.parquetPath) : leaf.path = leaf'.path := by
  have hsplit : ∀ {l : LeafColumn}, l.path ≠ [] → (∀ segment ∈ l.path, '.' ∉ segment.toList) →
      l.parquetPath.toList.splitOn '.' = l.path.map String.toList := by
    intro l hne hdots
    rw [toList_parquetPath]
    refine List.splitOn_intercalate '.' ?_ (by simpa using hne)
    simpa using hdots
  have hmap := (hsplit hne hdots).symm.trans ((congrArg (·.toList.splitOn '.') h).trans
    (hsplit hne' hdots'))
  exact List.map_injective_iff.mpr (fun _ _ => String.toList_inj.mp) hmap

end SilkChiffon.Parquet
