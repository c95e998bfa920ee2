import SilkChiffon.BigQuery.Framing
import SilkChiffon.Lib.Worklist

/-!
# Session schemas

A serialized schema is checked field by field before Arrow converts it. The
conversion recurses into the children of lists and structs, so the check walks
the same children with a list of pending fields and their depths.
-/

namespace SilkChiffon.BigQuery

open Worklist (Branching)

/-- Arrow conversion remains recursive after the check. -/
def maxSchemaNestingDepth : Nat := 16

-- ---------------------------------------------------------------------------
-- Serialized schemas
-- ---------------------------------------------------------------------------

inductive Precision
  | half | single | double | other
  deriving DecidableEq

inductive DateUnit
  | day | millisecond | other
  deriving DecidableEq

inductive TimeUnit
  | second | millisecond | microsecond | nanosecond | other
  deriving DecidableEq

structure IntType where
  bitWidth : Int
  isSigned : Bool

structure TimeType where
  bitWidth : Int
  unit : TimeUnit

structure TimestampType where
  unit : TimeUnit
  timezone : Option String

structure DecimalType where
  precision : Int
  scale : Int
  bitWidth : Int

inductive FieldType
  | bool (table : Option Unit)
  | int (table : Option IntType)
  | floatingPoint (table : Option Precision)
  | binary (table : Option Unit)
  | utf8 (table : Option Unit)
  | date (table : Option DateUnit)
  | time (table : Option TimeType)
  | timestamp (table : Option TimestampType)
  | decimal (table : Option DecimalType)
  | list (table : Option Unit)
  | struct (table : Option Unit)
  | other

/-- Any field may carry children, whatever its type. -/
inductive IpcField
  | mk (dictionary : Bool) (type : FieldType) (children : Option (List IpcField))

namespace IpcField

def dictionary : IpcField → Bool
  | mk dictionary _ _ => dictionary

def type : IpcField → FieldType
  | mk _ type _ => type

def children : IpcField → Option (List IpcField)
  | mk _ _ children => children

end IpcField

inductive Endianness
  | little | big | other
  deriving DecidableEq

structure IpcSchema where
  endianness : Endianness
  fields : Option (List IpcField)

-- ---------------------------------------------------------------------------
-- The check
-- ---------------------------------------------------------------------------

def validDecimal (value : DecimalType) : Bool :=
  (if value.bitWidth = 128 then
      (1 ≤ value.precision ∧ value.precision ≤ 38) ∧ 0 ≤ value.scale ∧ value.scale ≤ 9
    else if value.bitWidth = 256 then
      (1 ≤ value.precision ∧ value.precision ≤ 76) ∧ 0 ≤ value.scale ∧ value.scale ≤ 38
    else False) ∧ value.scale ≤ value.precision

def FieldType.validLeaf : FieldType → Bool
  | .bool table => table.isSome
  | .int table => table.any fun value => value.bitWidth = 64 ∧ value.isSigned
  | .floatingPoint table => table.any fun precision => precision = .double
  | .binary table => table.isSome
  | .utf8 table => table.isSome
  | .date table => table.any fun unit => unit = .day
  | .time table => table.any fun value => value.bitWidth = 64 ∧ value.unit = .microsecond
  | .timestamp table => table.any fun value =>
    (value.unit = .microsecond ∨ value.unit = .nanosecond) ∧ value.timezone.all fun timezone => timezone = "UTC"
  | .decimal table => table.any validDecimal
  | .list _ => false
  | .struct _ => false
  | .other => false

abbrev PendingFields := List (IpcField × Nat)

/-- The pending fields after a field has passed. -/
def validateField (field : IpcField) (depth : Nat) (pending : PendingFields) :
    Except DecodeErrorKind PendingFields :=
  if maxSchemaNestingDepth < depth then .error .invalidArrowSchema
  else if field.dictionary then .error .dictionaryBatchUnsupported
  else
    match field.type with
    | .list table =>
      match field.children with
      | none => .error .invalidArrowSchema
      | some children =>
        if table.isNone then .error .invalidArrowSchema
        else
          match children with
          | [child] => .ok (pending ++ [(child, depth + 1)])
          | _ => .error .invalidArrowSchema
    | .struct table =>
      if table.isNone then .error .invalidArrowSchema
      else .ok (pending ++ (field.children.getD []).map fun child => (child, depth + 1))
    | type => if type.validLeaf then .ok pending else .error .invalidArrowSchema

def IpcField.nested (field : IpcField) : List IpcField :=
  match field.type with
  | .list _ => field.children.getD []
  | .struct _ => field.children.getD []
  | _ => []

mutual

def IpcField.size : IpcField → Nat
  | .mk _ _ none => 1
  | .mk _ _ (some children) => fieldSizes children + 1

def fieldSizes : List IpcField → Nat
  | [] => 0
  | field :: rest => field.size + fieldSizes rest

end

theorem fieldSizes_eq (fields : List IpcField) : fieldSizes fields = (fields.map IpcField.size).sum := by
  induction fields with
  | nil => rfl
  | cons field rest ih => rw [fieldSizes, ih, List.map_cons, List.sum_cons]

theorem IpcField.sum_size_nested (field : IpcField) : (field.nested.map size).sum < field.size := by
  obtain ⟨dictionary, type, children⟩ := field
  have hchildren : ((children.getD []).map size).sum < (mk dictionary type children).size := by
    cases children with
    | none => simp [size]
    | some fields =>
      rw [size, fieldSizes_eq, Option.getD_some]
      exact Nat.lt_succ_self _
  have hpos : 0 < (mk dictionary type children).size := Nat.lt_of_le_of_lt (Nat.zero_le _) hchildren
  cases type <;> first | exact hchildren | exact hpos

def fieldTree : Branching (IpcField × Nat) where
  children entry := entry.1.nested.map fun child => (child, entry.2 + 1)
  size entry := entry.1.size
  shrinks entry := by
    rw [List.map_map]
    exact entry.1.sum_size_nested

def checkField (entry : IpcField × Nat) : Except DecodeErrorKind Unit :=
  (validateField entry.1 entry.2 []).map fun _ => ()

/-- A field that passes leaves exactly its nested children. -/
theorem validateField_eq (field : IpcField) (depth : Nat) (pending : PendingFields) :
    validateField field depth pending =
      (checkField (field, depth)).map fun _ => pending ++ fieldTree.children (field, depth) := by
  obtain ⟨dictionary, type, children⟩ := field
  unfold checkField validateField fieldTree IpcField.nested
  dsimp only [IpcField.dictionary, IpcField.type, IpcField.children]
  split
  · rfl
  cases dictionary
  case true => rfl
  cases type
  case list table =>
    cases children with
    | none => rfl
    | some children =>
      cases table with
      | none => rfl
      | some table =>
        match children with
        | [] => rfl
        | [child] => rfl
        | _ :: _ :: _ => rfl
  case struct table => cases table <;> rfl
  all_goals
    simp only [Bool.false_eq_true, if_false, List.map_nil, List.append_nil]
    split <;> rfl

theorem validateField_ok (h : validateField field depth pending = .ok after) :
    after = pending ++ fieldTree.children (field, depth) := by
  rw [validateField_eq] at h
  obtain ⟨_, -, rfl⟩ := Lists.map_eq_ok.mp h
  rfl

/-- The `while` of `validateSchema`. -/
def validatePending (pending : PendingFields) : Except DecodeErrorKind Unit :=
  match _h : pending.getLast? with
  | none => .ok ()
  | some (field, depth) =>
    match _hvalid : validateField field depth pending.dropLast with
    | .error kind => .error kind
    | .ok pending' => validatePending pending'
termination_by fieldTree.weight pending
decreasing_by
  rw [validateField_ok _hvalid]
  exact fieldTree.weight_visit (Worklist.Branching.perm_of_getLast? _h)

def validateSchema (schema : IpcSchema) : Except DecodeErrorKind Unit :=
  if schema.endianness ≠ .little then .error .invalidArrowSchema
  else
    match schema.fields with
    | none => .error .invalidArrowSchema
    | some fields => validatePending (fields.map fun field => (field, 1))

/-- What is read of a message and of its schema; `fbToSchema` is Arrow's. -/
structure SchemaReader (N S : Type) where
  flatbuffers : Framing.Flatbuffers N
  isSchema : Message N → Bool
  headerAsSchema : Message N → Option IpcSchema
  fbToSchema : IpcSchema → S

def SessionSchema.fromSerialized {N S : Type} (reader : SchemaReader N S) (bytes : Bytes) (limit : DecodeLimit) :
    Except Framing.Stop S := do
  if limit.1 < bytes.length then
    throw (.refused .serializedPayloadLimit)
  let envelope ← Framing.parseEncapsulated reader.flatbuffers bytes limit
  if ¬ reader.isSchema envelope.message then
    throw (.refused .wrongSchemaMessageHeader)
  if envelope.body ≠ [] then
    throw (.refused .invalidIpcFraming)
  match reader.headerAsSchema envelope.message with
  | none => throw (.refused .invalidFlatbuffer)
  | some schema =>
    (validateSchema schema).mapError .refused
    pure (reader.fbToSchema schema)

theorem validatePending_eq_run (pending : PendingFields) :
    validatePending pending = fieldTree.run (fun _ entry => checkField entry) ⟨⟩ pending := by
  induction pending using Worklist.Branching.order.induct fieldTree with
  | case1 pending h =>
    obtain rfl := List.getLast?_eq_none_iff.mp h
    rw [validatePending, Worklist.Branching.run_nil]
    rfl
  | case2 pending entry h ih =>
    rw [fieldTree.run_some h, validatePending]
    split
    · rename_i hnone
      cases h.symm.trans hnone
    · rename_i field depth hsome
      obtain rfl := Option.some.inj (h.symm.trans hsome)
      split
      · rename_i kind hvalid
        rw [validateField_eq] at hvalid
        cases hcheck : checkField (field, depth) with
        | error e =>
          rw [hcheck] at hvalid
          cases hvalid
          rfl
        | ok _ =>
          rw [hcheck] at hvalid
          cases hvalid
      · rename_i after hvalid
        rw [validateField_ok hvalid, ih]
        rw [validateField_eq] at hvalid
        obtain ⟨_, hcheck, -⟩ := Lists.map_eq_ok.mp hvalid
        rw [hcheck]
        rfl

-- ---------------------------------------------------------------------------
-- Supported schemas
-- ---------------------------------------------------------------------------

/-- No dictionary, and a type in order: a list has one child. -/
structure IpcField.Supported (field : IpcField) : Prop where
  dictionary : field.dictionary = false
  type : match field.type with
    | .list table => table.isSome ∧ ∃ child, field.children = some [child]
    | .struct table => table.isSome
    | type => type.validLeaf

inductive FieldAt (below : IpcField → List IpcField) (fields : List IpcField) : IpcField → Nat → Prop
  | top : field ∈ fields → FieldAt below fields field 1
  | child : FieldAt below fields field depth → child ∈ below field → FieldAt below fields child (depth + 1)

def IpcField.allChildren (field : IpcField) : List IpcField := field.children.getD []

/-- The conversion of a field takes at most so many nested calls. -/
inductive ConvertsWithin : Nat → IpcField → Prop
  | call {field : IpcField} : (∀ child ∈ field.nested, ConvertsWithin n child) → ConvertsWithin (n + 1) field

theorem checkField_ok :
    checkField (field, depth) = .ok () ↔ IpcField.Supported field ∧ depth ≤ maxSchemaNestingDepth := by
  obtain ⟨dictionary, type, children⟩ := field
  unfold checkField validateField
  dsimp only [IpcField.dictionary, IpcField.type, IpcField.children]
  split
  · rename_i hdeep
    exact ⟨nofun, fun h => absurd h.2 (Nat.not_le.mpr hdeep)⟩
  rename_i hdepth
  cases dictionary
  case true => exact ⟨nofun, fun h => absurd h.1.dictionary nofun⟩
  have hsupported : IpcField.Supported (.mk false type children) ∧ depth ≤ maxSchemaNestingDepth ↔
      match type with
      | .list table => table.isSome ∧ ∃ child, children = some [child]
      | .struct table => table.isSome
      | type => type.validLeaf := by
    refine ⟨fun h => h.1.type, fun h => ⟨⟨rfl, h⟩, Nat.not_lt.mp hdepth⟩⟩
  rw [hsupported]
  cases type
  case list table =>
    cases children with
    | none => simp [Except.map]
    | some children =>
      cases table with
      | none => simp [Except.map]
      | some table =>
        match children with
        | [] => simp [Except.map]
        | [child] => simp [Except.map]
        | _ :: _ :: _ => simp [Except.map]
  case struct table => cases table <;> simp [Except.map]
  all_goals
    simp only [Bool.false_eq_true, if_false]
    split <;> simp_all [Except.map]

theorem reached_iff_fieldAt {fields : List IpcField} :
    fieldTree.Reached (fields.map fun field => (field, 1)) (field, depth) ↔
      FieldAt IpcField.nested fields field depth := by
  constructor
  · generalize hentry : (field, depth) = entry
    intro h
    induction h generalizing field depth with
    | first hmem =>
      obtain ⟨top, htop, rfl⟩ := List.mem_map.mp hmem
      obtain ⟨rfl, rfl⟩ := Prod.mk.inj hentry
      exact .top htop
    | @child parent entry _ hmem ih =>
      obtain ⟨child, hchild, rfl⟩ := List.mem_map.mp hmem
      obtain ⟨rfl, rfl⟩ := Prod.mk.inj hentry
      exact .child (ih rfl) hchild
  · intro h
    induction h with
    | top hmem => exact .first (List.mem_map.mpr ⟨_, hmem, rfl⟩)
    | child _ hmem ih => exact .child ih (List.mem_map.mpr ⟨_, hmem, rfl⟩)

/-- Everything a check of the fields looks at, in any order. -/
theorem runs_checkField {fields : List IpcField}
    (h : fieldTree.Runs (fun _ entry => checkField entry) ⟨⟩ (fields.map fun field => (field, 1)) outcome) :
    outcome = .ok ⟨⟩ ↔ ∀ field depth, FieldAt IpcField.nested fields field depth →
      field.Supported ∧ depth ≤ maxSchemaNestingDepth := by
  rw [h.check_ok]
  constructor
  · intro hall field depth hat
    exact checkField_ok.mp (hall _ (fieldTree.mem_nodes.mpr (reached_iff_fieldAt.mpr hat)))
  · rintro hall ⟨field, depth⟩ hmem
    exact checkField_ok.mpr (hall field depth (reached_iff_fieldAt.mp (fieldTree.mem_nodes.mp hmem)))

theorem validateSchema_ok {schema : IpcSchema} :
    validateSchema schema = .ok () ↔
      schema.endianness = .little ∧ ∃ fields, schema.fields = some fields ∧
        ∀ field depth, FieldAt IpcField.nested fields field depth →
          field.Supported ∧ depth ≤ maxSchemaNestingDepth := by
  unfold validateSchema
  split
  · rename_i hbig
    simp [hbig]
  rename_i hlittle
  rw [not_not] at hlittle
  cases schema.fields with
  | none => simp
  | some fields =>
    dsimp only
    rw [validatePending_eq_run, runs_checkField (fieldTree.run_runs ..)]
    simp [hlittle]

/-- The deepest field has a call of its own, and none below it. -/
theorem FieldAt.convertsWithin {fields : List IpcField} (h : FieldAt IpcField.nested fields field depth)
    (hshallow : ∀ field depth, FieldAt IpcField.nested fields field depth → depth ≤ limit)
    (hroom : depth + room = limit + 1) : ConvertsWithin room field := by
  induction room generalizing field depth with
  | zero => exact absurd (hshallow field depth h) (by omega)
  | succ room ih => exact .call fun child hchild => ih (.child h hchild) (by omega)

theorem validateSchema_converts {schema : IpcSchema} (h : validateSchema schema = .ok ())
    (hfields : schema.fields = some fields) : ∀ field ∈ fields, ConvertsWithin maxSchemaNestingDepth field := by
  obtain ⟨-, fields', hfields', hall⟩ := validateSchema_ok.mp h
  obtain rfl := Option.some.inj (hfields.symm.trans hfields')
  exact fun field hmem => FieldAt.convertsWithin (.top hmem) (fun field depth hat => (hall field depth hat).2) rfl

/-- A schema is accepted, in whatever order its fields are checked, when all
fields that the conversion will meet are supported and none lies too deep. -/
theorem validateSchema_exact (schema : IpcSchema) :
    (validateSchema schema = .ok () ↔
      schema.endianness = .little ∧ ∃ fields, schema.fields = some fields ∧
        ∀ field depth, FieldAt IpcField.nested fields field depth → field.Supported ∧ depth ≤ 16) ∧
    (∀ fields outcome, schema.endianness = .little → schema.fields = some fields →
      fieldTree.Runs (fun _ entry => checkField entry) ⟨⟩ (fields.map fun field => (field, 1)) outcome →
      (outcome = .ok ⟨⟩ ↔ validateSchema schema = .ok ())) ∧
    WellFounded fieldTree.Round ∧
    ∀ fields, validateSchema schema = .ok () → schema.fields = some fields →
      ∀ field ∈ fields, ConvertsWithin 16 field := by
  refine ⟨validateSchema_ok, ?_, fieldTree.wellFounded_round, fun _ hvalid hfields => ?_⟩
  · intro fields outcome hlittle hfields hruns
    rw [runs_checkField hruns, validateSchema_ok]
    constructor
    · exact fun hall => ⟨hlittle, fields, hfields, hall⟩
    · rintro ⟨-, fields', hfields', hall⟩
      obtain rfl := Option.some.inj (hfields.symm.trans hfields')
      exact hall
  · exact validateSchema_converts hvalid hfields

/-- Children that a type does not have are not looked at, and a schema without
a list of fields is refused. -/
theorem hidden_child_accepted :
    let field := IpcField.mk false (.bool (some ())) (some [.mk false .other none])
    validateSchema ⟨.little, some [field]⟩ = .ok () ∧
      (∃ child, FieldAt IpcField.allChildren [field] child 2 ∧ ¬ child.Supported) ∧
      validateSchema ⟨.little, none⟩ = .error .invalidArrowSchema := by
  intro field
  refine ⟨?_, ⟨.mk false .other none, .child (.top List.mem_cons_self) List.mem_cons_self, ?_⟩, rfl⟩
  · have honly : ∀ other depth, FieldAt IpcField.nested [field] other depth → other = field ∧ depth = 1 := by
      intro other depth hat
      induction hat with
      | top hmem => exact ⟨List.mem_singleton.mp hmem, rfl⟩
      | child _ hmem ih =>
        rw [ih.1] at hmem
        cases hmem
    refine validateSchema_ok.mpr ⟨rfl, [field], rfl, fun other depth hat => ?_⟩
    obtain ⟨rfl, rfl⟩ := honly other depth hat
    exact ⟨⟨rfl, rfl⟩, by decide⟩
  · exact fun h => absurd h.type Bool.false_ne_true

end SilkChiffon.BigQuery
