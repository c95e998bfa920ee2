import Mathlib.Data.List.Basic

/-!
# Arrow schemas

The logical types, with the parameters they are told apart by, and schemas as
the list of their top-level fields. Looking a field up by name is exact.
-/

namespace SilkChiffon.Arrow

inductive TimeUnit
  | second | millisecond | microsecond | nanosecond
  deriving DecidableEq, Repr

inductive IntervalUnit
  | yearMonth | dayTime | monthDayNano
  deriving DecidableEq, Repr

mutual

inductive DataType
  | null | boolean
  | int8 | int16 | int32 | int64
  | uint8 | uint16 | uint32 | uint64
  | float16 | float32 | float64
  | timestamp (unit : TimeUnit) (timezone : Option String)
  | date32 | date64
  | time32 (unit : TimeUnit)
  | time64 (unit : TimeUnit)
  | duration (unit : TimeUnit)
  | interval (unit : IntervalUnit)
  | binary
  | fixedSizeBinary (size : Int)
  | largeBinary | binaryView
  | utf8 | largeUtf8 | utf8View
  | list (item : Field)
  | listView (item : Field)
  | fixedSizeList (item : Field) (size : Int)
  | largeList (item : Field)
  | largeListView (item : Field)
  | struct (fields : List Field)
  | union (variants : List Field)
  | dictionary (key value : DataType)
  | decimal32 (precision : Nat) (scale : Int)
  | decimal64 (precision : Nat) (scale : Int)
  | decimal128 (precision : Nat) (scale : Int)
  | decimal256 (precision : Nat) (scale : Int)
  | map (entries : Field) (sorted : Bool)
  | runEndEncoded (runEnds values : Field)

inductive Field
  | mk (name : String) (dataType : DataType) (nullable : Bool)

end

namespace Field

def name : Field → String
  | mk name _ _ => name

def dataType : Field → DataType
  | mk _ dataType _ => dataType

end Field

abbrev Schema := List Field

namespace Schema

def names (schema : Schema) : List String := schema.map Field.name

def fieldWithName (schema : Schema) (name : String) : Option Field :=
  schema.find? (·.name == name)

theorem fieldWithName_name {schema : Schema} (h : schema.fieldWithName name = some field) :
    field.name = name := by
  simpa using List.find?_some h

theorem fieldWithName_mem {schema : Schema} (h : schema.fieldWithName name = some field) :
    field ∈ schema := List.mem_of_find?_eq_some h

theorem fieldWithName_isSome {schema : Schema} :
    (∃ field, schema.fieldWithName name = some field) ↔ name ∈ schema.names := by
  rw [← Option.isSome_iff_exists, fieldWithName, List.find?_isSome]
  simp [names]

end Schema

end SilkChiffon.Arrow
