import Mathlib.Algebra.BigOperators.Group.List.Basic
import Mathlib.Order.Defs.Unbundled
import Mathlib.Tactic.Ring
import SilkChiffon.Arrow.Schema
import SilkChiffon.Lib.Lists

/-!
# Comparing schemas

Two schemas are compared by a list of pairs still to compare, since nested types
come from input files and may be deep. What the list decides is compatibility as
it is defined on the types: field by field, with one relation between nullable
fields, and without their metadata.
-/

namespace SilkChiffon.SchemaComparison

open Arrow (TimeUnit IntervalUnit)

abbrev Metadata := List (String × String)

inductive Primitive
  | null | boolean
  | int8 | int16 | int32 | int64
  | uint8 | uint16 | uint32 | uint64
  | float16 | float32 | float64
  | timestamp (unit : TimeUnit) (timezone : Option String)
  | date32 | date64
  | time32 (unit : TimeUnit)
  | time64 (unit : TimeUnit)
  | duration (unit : TimeUnit)
  | interval (unit : IntervalUnit)
  | binary
  | fixedSizeBinary (size : Int)
  | largeBinary | binaryView
  | utf8 | largeUtf8 | utf8View
  | decimal32 (precision : Nat) (scale : Int)
  | decimal64 (precision : Nat) (scale : Int)
  | decimal128 (precision : Nat) (scale : Int)
  | decimal256 (precision : Nat) (scale : Int)
  deriving DecidableEq, Repr

inductive UnionMode
  | sparse | dense
  deriving DecidableEq, Repr

mutual

inductive DataType
  | primitive (type : Primitive)
  | list (item : Field)
  | listView (item : Field)
  | fixedSizeList (item : Field) (size : Int)
  | largeList (item : Field)
  | largeListView (item : Field)
  | struct (fields : List Field)
  | union (fields : List UnionField) (mode : UnionMode)
  | dictionary (key value : DataType)
  | map (entries : Field) (sorted : Bool)
  | runEndEncoded (runEnds values : Field)

inductive Field
  | mk (name : String) (dataType : DataType) (nullable : Bool) (metadata : Metadata)

inductive UnionField
  | mk (typeId : Int) (field : Field)

end

namespace Field

def name : Field → String
  | mk name _ _ _ => name

def dataType : Field → DataType
  | mk _ dataType _ _ => dataType

def nullable : Field → Bool
  | mk _ _ nullable _ => nullable

end Field

structure Schema where
  fields : List Field
  metadata : Metadata

-- ---------------------------------------------------------------------------
-- The comparison
-- ---------------------------------------------------------------------------

inductive Comparison
  | field (left right : Field)
  | dataType (left right : DataType)

inductive Nullability
  | exact | actualMayRefine

def Nullability.matches : Nullability → Bool → Bool → Bool
  | exact, left, right => left == right
  | actualMayRefine, left, right => left || !right

/-- The fields of two unions in pairs, unless two type ids differ. -/
def unionFields : List UnionField → List UnionField → Option (List Comparison)
  | .mk leftId left :: lefts, .mk rightId right :: rights =>
    if leftId ≠ rightId then none else (unionFields lefts rights).map (.field left right :: ·)
  | _, _ => some []

/-- What a comparison leaves to compare, in the order it is pushed; nothing if
it fails. The last case is of two types that are built differently. -/
def Comparison.step (nullability : Nullability) : Comparison → Option (List Comparison)
  | .field left right =>
    if left.name ≠ right.name ∨ nullability.matches left.nullable right.nullable = false then none
    else some [.dataType left.dataType right.dataType]
  | .dataType left right =>
    match left, right with
    | .list left, .list right => some [.field left right]
    | .listView left, .listView right => some [.field left right]
    | .largeList left, .largeList right => some [.field left right]
    | .largeListView left, .largeListView right => some [.field left right]
    | .fixedSizeList left leftSize, .fixedSizeList right rightSize =>
      if leftSize ≠ rightSize then none else some [.field left right]
    | .struct left, .struct right =>
      if left.length ≠ right.length then none else some (List.zipWith .field left right)
    | .union left leftMode, .union right rightMode =>
      if leftMode ≠ rightMode ∨ left.length ≠ right.length then none else unionFields left right
    | .dictionary leftKey leftValue, .dictionary rightKey rightValue =>
      some [.dataType leftKey rightKey, .dataType leftValue rightValue]
    | .map left leftSorted, .map right rightSorted =>
      if leftSorted ≠ rightSorted then none else some [.field left right]
    | .runEndEncoded leftEnds leftValues, .runEndEncoded rightEnds rightValues =>
      some [.field leftEnds rightEnds, .field leftValues rightValues]
    | .primitive left, .primitive right => if left ≠ right then none else some []
    | _, _ => none

noncomputable def Comparison.weight : Comparison → Nat
  | .field left _ => sizeOf left
  | .dataType left _ => sizeOf left

noncomputable def totalWeight (pending : List Comparison) : Nat := (pending.map Comparison.weight).sum

@[simp] theorem totalWeight_nil : totalWeight [] = 0 := rfl

@[simp] theorem totalWeight_cons (c : Comparison) (pending : List Comparison) :
    totalWeight (c :: pending) = c.weight + totalWeight pending := by
  simp [totalWeight]

@[simp] theorem totalWeight_append (pending pending' : List Comparison) :
    totalWeight (pending ++ pending') = totalWeight pending + totalWeight pending' := by
  simp [totalWeight]

@[simp] theorem totalWeight_reverse (pending : List Comparison) :
    totalWeight pending.reverse = totalWeight pending := by
  simp [totalWeight, List.sum_reverse]

theorem totalWeight_zipWith (lefts rights : List Field) :
    totalWeight (List.zipWith .field lefts rights) < sizeOf lefts := by
  induction lefts generalizing rights with
  | nil => simp
  | cons left lefts ih =>
    cases rights with
    | nil =>
      simp only [List.zipWith_nil_right, totalWeight_nil, List.cons.sizeOf_spec]
      omega
    | cons right rights =>
      have ih := ih rights
      simp only [List.zipWith_cons_cons, totalWeight_cons, Comparison.weight, List.cons.sizeOf_spec]
      omega

theorem totalWeight_unionFields {pushed : List Comparison} (h : unionFields lefts rights = some pushed) :
    totalWeight pushed < sizeOf lefts := by
  induction lefts generalizing rights pushed with
  | nil =>
    obtain rfl := Option.some.inj h
    simp
  | cons left lefts ih =>
    obtain ⟨leftId, left⟩ := left
    cases rights with
    | nil =>
      obtain rfl := Option.some.inj h
      simp only [totalWeight_nil, List.cons.sizeOf_spec]
      omega
    | cons right rights =>
      obtain ⟨rightId, right⟩ := right
      rw [unionFields] at h
      split at h
      · cases h
      · obtain ⟨rest, hrest, rfl⟩ := Option.map_eq_some_iff.mp h
        have ih := ih hrest
        simp only [totalWeight_cons, Comparison.weight, List.cons.sizeOf_spec, UnionField.mk.sizeOf_spec]
        omega

/-- What is left to compare is smaller than what is compared. -/
theorem Comparison.step_smaller {c : Comparison} (h : c.step nullability = some pushed) :
    totalWeight pushed < c.weight := by
  cases c with
  | field left right =>
    obtain ⟨name, dataType, nullable, metadata⟩ := left
    rw [step] at h
    split at h
    · cases h
    · obtain rfl := Option.some.inj h
      simp only [totalWeight_cons, totalWeight_nil, weight, Field.dataType, Field.mk.sizeOf_spec]
      omega
  | dataType left right =>
    unfold step at h
    dsimp only at h
    split at h
    case h_7 left leftMode right rightMode =>
      split at h
      · cases h
      · have hsmaller := totalWeight_unionFields h
        simp only [weight, DataType.union.sizeOf_spec]
        omega
    case h_6 left right =>
      split at h
      · cases h
      · obtain rfl := Option.some.inj h
        have hsmaller := totalWeight_zipWith left right
        simp only [weight, DataType.struct.sizeOf_spec]
        omega
    case h_12 => cases h
    all_goals first
      | (obtain rfl := Option.some.inj h
         simp only [totalWeight_cons, totalWeight_nil, weight, DataType.list.sizeOf_spec, DataType.listView.sizeOf_spec,
           DataType.largeList.sizeOf_spec, DataType.largeListView.sizeOf_spec, DataType.dictionary.sizeOf_spec,
           DataType.runEndEncoded.sizeOf_spec]
         omega)
      | (split at h
         · cases h
         · obtain rfl := Option.some.inj h
           simp only [totalWeight_cons, totalWeight_nil, weight, DataType.fixedSizeList.sizeOf_spec,
             DataType.map.sizeOf_spec, DataType.primitive.sizeOf_spec]
           omega)

/-- The loop over what is pending, the last pushed first. -/
def compareAll (nullability : Nullability) (pending : List Comparison) : Bool :=
  match pending with
  | [] => true
  | comparison :: pending =>
    match _h : comparison.step nullability with
    | none => false
    | some pushed => compareAll nullability (pushed.reverse ++ pending)
termination_by totalWeight pending
decreasing_by
  have hsmaller := Comparison.step_smaller _h
  simp only [totalWeight_append, totalWeight_reverse, totalWeight_cons]
  omega

def schemasHaveCompatibleStructure (left right : Schema) (nullability : Nullability) : Bool :=
  if left.fields.length ≠ right.fields.length then false
  else compareAll nullability (List.zipWith .field left.fields right.fields).reverse

def schemasMatchIgnoringMetadata (left right : Schema) : Bool :=
  schemasHaveCompatibleStructure left right .exact

/-- `debug` is how a schema prints. -/
def validateBatchSchema (debug : Schema → String) (expected actual : Schema) : Except String Unit :=
  if schemasHaveCompatibleStructure expected actual .actualMayRefine then .ok ()
  else .error s!"record batch schema does not match sink schema: expected {debug expected}, got {debug actual}"

-- ---------------------------------------------------------------------------
-- Compatible types
-- ---------------------------------------------------------------------------

mutual

/-- The same structure, where `allows` relates the nullability of two fields. -/
inductive DataType.Compatible (allows : Bool → Bool → Prop) : DataType → DataType → Prop
  | primitive : DataType.Compatible allows (.primitive p) (.primitive p)
  | list : Field.Compatible allows l r → DataType.Compatible allows (.list l) (.list r)
  | listView : Field.Compatible allows l r → DataType.Compatible allows (.listView l) (.listView r)
  | fixedSizeList : Field.Compatible allows l r →
      DataType.Compatible allows (.fixedSizeList l size) (.fixedSizeList r size)
  | largeList : Field.Compatible allows l r → DataType.Compatible allows (.largeList l) (.largeList r)
  | largeListView : Field.Compatible allows l r → DataType.Compatible allows (.largeListView l) (.largeListView r)
  | struct : FieldsCompatible allows ls rs → DataType.Compatible allows (.struct ls) (.struct rs)
  | union : UnionFieldsCompatible allows ls rs → DataType.Compatible allows (.union ls mode) (.union rs mode)
  | dictionary : DataType.Compatible allows lk rk → DataType.Compatible allows lv rv →
      DataType.Compatible allows (.dictionary lk lv) (.dictionary rk rv)
  | map : Field.Compatible allows l r → DataType.Compatible allows (.map l sorted) (.map r sorted)
  | runEndEncoded : Field.Compatible allows le re → Field.Compatible allows lv rv →
      DataType.Compatible allows (.runEndEncoded le lv) (.runEndEncoded re rv)

inductive Field.Compatible (allows : Bool → Bool → Prop) : Field → Field → Prop
  | mk : DataType.Compatible allows l r → allows leftNullable rightNullable →
      Field.Compatible allows (.mk name l leftNullable leftMetadata) (.mk name r rightNullable rightMetadata)

inductive FieldsCompatible (allows : Bool → Bool → Prop) : List Field → List Field → Prop
  | nil : FieldsCompatible allows [] []
  | cons : Field.Compatible allows l r → FieldsCompatible allows ls rs →
      FieldsCompatible allows (l :: ls) (r :: rs)

inductive UnionFieldsCompatible (allows : Bool → Bool → Prop) : List UnionField → List UnionField → Prop
  | nil : UnionFieldsCompatible allows [] []
  | cons : Field.Compatible allows l r → UnionFieldsCompatible allows ls rs →
      UnionFieldsCompatible allows (.mk typeId l :: ls) (.mk typeId r :: rs)

end

def Schema.Compatible (allows : Bool → Bool → Prop) (left right : Schema) : Prop :=
  FieldsCompatible allows left.fields right.fields

mutual

theorem DataType.Compatible.refl {allows : Bool → Bool → Prop} (hrefl : ∀ b, allows b b) :
    ∀ t : DataType, t.Compatible allows t
  | .primitive _ => .primitive
  | .list item => .list (Field.Compatible.refl hrefl item)
  | .listView item => .listView (Field.Compatible.refl hrefl item)
  | .fixedSizeList item _ => .fixedSizeList (Field.Compatible.refl hrefl item)
  | .largeList item => .largeList (Field.Compatible.refl hrefl item)
  | .largeListView item => .largeListView (Field.Compatible.refl hrefl item)
  | .struct fields => .struct (FieldsCompatible.refl hrefl fields)
  | .union fields _ => .union (UnionFieldsCompatible.refl hrefl fields)
  | .dictionary key value => .dictionary (DataType.Compatible.refl hrefl key) (DataType.Compatible.refl hrefl value)
  | .map entries _ => .map (Field.Compatible.refl hrefl entries)
  | .runEndEncoded runEnds values =>
    .runEndEncoded (Field.Compatible.refl hrefl runEnds) (Field.Compatible.refl hrefl values)

theorem Field.Compatible.refl {allows : Bool → Bool → Prop} (hrefl : ∀ b, allows b b) :
    ∀ f : Field, f.Compatible allows f
  | .mk _ dataType nullable _ => .mk (DataType.Compatible.refl hrefl dataType) (hrefl nullable)

theorem FieldsCompatible.refl {allows : Bool → Bool → Prop} (hrefl : ∀ b, allows b b) :
    ∀ fields : List Field, FieldsCompatible allows fields fields
  | [] => .nil
  | field :: fields => .cons (Field.Compatible.refl hrefl field) (FieldsCompatible.refl hrefl fields)

theorem UnionFieldsCompatible.refl {allows : Bool → Bool → Prop} (hrefl : ∀ b, allows b b) :
    ∀ fields : List UnionField, UnionFieldsCompatible allows fields fields
  | [] => .nil
  | .mk _ field :: fields => .cons (Field.Compatible.refl hrefl field) (UnionFieldsCompatible.refl hrefl fields)

end

mutual

theorem DataType.Compatible.trans {allows : Bool → Bool → Prop} (htrans : ∀ a b c, allows a b → allows b c → allows a c) :
    ∀ {a b c : DataType}, a.Compatible allows b → b.Compatible allows c → a.Compatible allows c
  | _, _, _, .primitive, .primitive => .primitive
  | _, _, _, .list h, .list h' => .list (Field.Compatible.trans htrans h h')
  | _, _, _, .listView h, .listView h' => .listView (Field.Compatible.trans htrans h h')
  | _, _, _, .fixedSizeList h, .fixedSizeList h' => .fixedSizeList (Field.Compatible.trans htrans h h')
  | _, _, _, .largeList h, .largeList h' => .largeList (Field.Compatible.trans htrans h h')
  | _, _, _, .largeListView h, .largeListView h' => .largeListView (Field.Compatible.trans htrans h h')
  | _, _, _, .struct h, .struct h' => .struct (FieldsCompatible.trans htrans h h')
  | _, _, _, .union h, .union h' => .union (UnionFieldsCompatible.trans htrans h h')
  | _, _, _, .dictionary hk hv, .dictionary hk' hv' =>
    .dictionary (DataType.Compatible.trans htrans hk hk') (DataType.Compatible.trans htrans hv hv')
  | _, _, _, .map h, .map h' => .map (Field.Compatible.trans htrans h h')
  | _, _, _, .runEndEncoded he hv, .runEndEncoded he' hv' =>
    .runEndEncoded (Field.Compatible.trans htrans he he') (Field.Compatible.trans htrans hv hv')

theorem Field.Compatible.trans {allows : Bool → Bool → Prop} (htrans : ∀ a b c, allows a b → allows b c → allows a c) :
    ∀ {a b c : Field}, a.Compatible allows b → b.Compatible allows c → a.Compatible allows c
  | _, _, _, .mk h hallows, .mk h' hallows' =>
    .mk (DataType.Compatible.trans htrans h h') (htrans _ _ _ hallows hallows')

theorem FieldsCompatible.trans {allows : Bool → Bool → Prop} (htrans : ∀ a b c, allows a b → allows b c → allows a c) :
    ∀ {a b c : List Field}, FieldsCompatible allows a b → FieldsCompatible allows b c → FieldsCompatible allows a c
  | _, _, _, .nil, .nil => .nil
  | _, _, _, .cons h hs, .cons h' hs' => .cons (Field.Compatible.trans htrans h h') (FieldsCompatible.trans htrans hs hs')

theorem UnionFieldsCompatible.trans {allows : Bool → Bool → Prop}
    (htrans : ∀ a b c, allows a b → allows b c → allows a c) : ∀ {a b c : List UnionField},
    UnionFieldsCompatible allows a b → UnionFieldsCompatible allows b c → UnionFieldsCompatible allows a c
  | _, _, _, .nil, .nil => .nil
  | _, _, _, .cons h hs, .cons h' hs' =>
    .cons (Field.Compatible.trans htrans h h') (UnionFieldsCompatible.trans htrans hs hs')

end

mutual

theorem DataType.Compatible.symm {allows : Bool → Bool → Prop} (hsymm : ∀ a b, allows a b → allows b a) :
    ∀ {a b : DataType}, a.Compatible allows b → b.Compatible allows a
  | _, _, .primitive => .primitive
  | _, _, .list h => .list (Field.Compatible.symm hsymm h)
  | _, _, .listView h => .listView (Field.Compatible.symm hsymm h)
  | _, _, .fixedSizeList h => .fixedSizeList (Field.Compatible.symm hsymm h)
  | _, _, .largeList h => .largeList (Field.Compatible.symm hsymm h)
  | _, _, .largeListView h => .largeListView (Field.Compatible.symm hsymm h)
  | _, _, .struct h => .struct (FieldsCompatible.symm hsymm h)
  | _, _, .union h => .union (UnionFieldsCompatible.symm hsymm h)
  | _, _, .dictionary hk hv => .dictionary (DataType.Compatible.symm hsymm hk) (DataType.Compatible.symm hsymm hv)
  | _, _, .map h => .map (Field.Compatible.symm hsymm h)
  | _, _, .runEndEncoded he hv => .runEndEncoded (Field.Compatible.symm hsymm he) (Field.Compatible.symm hsymm hv)

theorem Field.Compatible.symm {allows : Bool → Bool → Prop} (hsymm : ∀ a b, allows a b → allows b a) :
    ∀ {a b : Field}, a.Compatible allows b → b.Compatible allows a
  | _, _, .mk h hallows => .mk (DataType.Compatible.symm hsymm h) (hsymm _ _ hallows)

theorem FieldsCompatible.symm {allows : Bool → Bool → Prop} (hsymm : ∀ a b, allows a b → allows b a) :
    ∀ {a b : List Field}, FieldsCompatible allows a b → FieldsCompatible allows b a
  | _, _, .nil => .nil
  | _, _, .cons h hs => .cons (Field.Compatible.symm hsymm h) (FieldsCompatible.symm hsymm hs)

theorem UnionFieldsCompatible.symm {allows : Bool → Bool → Prop} (hsymm : ∀ a b, allows a b → allows b a) :
    ∀ {a b : List UnionField}, UnionFieldsCompatible allows a b → UnionFieldsCompatible allows b a
  | _, _, .nil => .nil
  | _, _, .cons h hs => .cons (Field.Compatible.symm hsymm h) (UnionFieldsCompatible.symm hsymm hs)

end

-- ---------------------------------------------------------------------------
-- Without metadata
-- ---------------------------------------------------------------------------

mutual

def DataType.erase : DataType → DataType
  | .primitive type => .primitive type
  | .list item => .list item.erase
  | .listView item => .listView item.erase
  | .fixedSizeList item size => .fixedSizeList item.erase size
  | .largeList item => .largeList item.erase
  | .largeListView item => .largeListView item.erase
  | .struct fields => .struct (eraseFields fields)
  | .union fields mode => .union (eraseUnionFields fields) mode
  | .dictionary key value => .dictionary key.erase value.erase
  | .map entries sorted => .map entries.erase sorted
  | .runEndEncoded runEnds values => .runEndEncoded runEnds.erase values.erase

def Field.erase : Field → Field
  | .mk name dataType nullable _ => .mk name dataType.erase nullable []

def eraseFields : List Field → List Field
  | [] => []
  | field :: fields => field.erase :: eraseFields fields

def eraseUnionFields : List UnionField → List UnionField
  | [] => []
  | .mk typeId field :: fields => .mk typeId field.erase :: eraseUnionFields fields

end

def Schema.erase (schema : Schema) : Schema := ⟨eraseFields schema.fields, []⟩

mutual

theorem DataType.compatible_erase : ∀ t : DataType, t.Compatible Eq t.erase
  | .primitive _ => .primitive
  | .list item => .list item.compatible_erase
  | .listView item => .listView item.compatible_erase
  | .fixedSizeList item _ => .fixedSizeList item.compatible_erase
  | .largeList item => .largeList item.compatible_erase
  | .largeListView item => .largeListView item.compatible_erase
  | .struct fields => .struct (fields_compatible_erase fields)
  | .union fields _ => .union (unionFields_compatible_erase fields)
  | .dictionary key value => .dictionary key.compatible_erase value.compatible_erase
  | .map entries _ => .map entries.compatible_erase
  | .runEndEncoded runEnds values => .runEndEncoded runEnds.compatible_erase values.compatible_erase

theorem Field.compatible_erase : ∀ f : Field, f.Compatible Eq f.erase
  | .mk _ dataType _ _ => .mk dataType.compatible_erase rfl

theorem fields_compatible_erase : ∀ fields : List Field, FieldsCompatible Eq fields (eraseFields fields)
  | [] => .nil
  | field :: fields => .cons field.compatible_erase (fields_compatible_erase fields)

theorem unionFields_compatible_erase :
    ∀ fields : List UnionField, UnionFieldsCompatible Eq fields (eraseUnionFields fields)
  | [] => .nil
  | .mk _ field :: fields => .cons field.compatible_erase (unionFields_compatible_erase fields)

end

mutual

theorem DataType.Compatible.erase_eq : ∀ {a b : DataType}, a.Compatible Eq b → a.erase = b.erase
  | _, _, .primitive => rfl
  | _, _, .list h => congrArg DataType.list h.erase_eq
  | _, _, .listView h => congrArg DataType.listView h.erase_eq
  | _, _, .fixedSizeList h => congrArg (DataType.fixedSizeList · _) h.erase_eq
  | _, _, .largeList h => congrArg DataType.largeList h.erase_eq
  | _, _, .largeListView h => congrArg DataType.largeListView h.erase_eq
  | _, _, .struct h => congrArg DataType.struct h.erase_eq
  | _, _, .union h => congrArg (DataType.union · _) h.erase_eq
  | _, _, .dictionary hk hv => congrArg₂ DataType.dictionary hk.erase_eq hv.erase_eq
  | _, _, .map h => congrArg (DataType.map · _) h.erase_eq
  | _, _, .runEndEncoded he hv => congrArg₂ DataType.runEndEncoded he.erase_eq hv.erase_eq

theorem Field.Compatible.erase_eq : ∀ {a b : Field}, a.Compatible Eq b → a.erase = b.erase
  | _, _, .mk h rfl => congrArg (Field.mk _ · _ []) h.erase_eq

theorem FieldsCompatible.erase_eq :
    ∀ {a b : List Field}, FieldsCompatible Eq a b → eraseFields a = eraseFields b
  | _, _, .nil => rfl
  | _, _, .cons h hs => congrArg₂ List.cons h.erase_eq hs.erase_eq

theorem UnionFieldsCompatible.erase_eq :
    ∀ {a b : List UnionField}, UnionFieldsCompatible Eq a b → eraseUnionFields a = eraseUnionFields b
  | _, _, .nil => rfl
  | _, _, .cons h hs => congrArg₂ List.cons (congrArg (UnionField.mk _) h.erase_eq) hs.erase_eq

end

theorem Schema.compatible_iff_erase {left right : Schema} :
    left.Compatible Eq right ↔ left.erase = right.erase := by
  constructor
  · intro h
    rw [Schema.erase, Schema.erase, FieldsCompatible.erase_eq h]
  · intro h
    have hfields : eraseFields left.fields = eraseFields right.fields := congrArg Schema.fields h
    have htrans : ∀ a b c : Bool, a = b → b = c → a = c := fun _ _ _ => Eq.trans
    have hright := (fields_compatible_erase right.fields).symm fun _ _ => Eq.symm
    exact (hfields ▸ fields_compatible_erase left.fields).trans htrans hright

-- ---------------------------------------------------------------------------
-- What the comparison decides
-- ---------------------------------------------------------------------------

def Comparison.Holds (allows : Bool → Bool → Prop) : Comparison → Prop
  | .field left right => left.Compatible allows right
  | .dataType left right => left.Compatible allows right

theorem fieldsCompatible_iff : FieldsCompatible allows lefts rights ↔
    lefts.length = rights.length ∧ ∀ c ∈ List.zipWith Comparison.field lefts rights, c.Holds allows := by
  constructor
  · intro h
    induction lefts generalizing rights with
    | nil =>
      cases h
      simp
    | cons left lefts ih =>
      cases h with
      | cons hleft hlefts =>
        obtain ⟨hlength, hall⟩ := ih hlefts
        exact ⟨congrArg (· + 1) hlength, List.forall_mem_cons.mpr ⟨hleft, hall⟩⟩
  · rintro ⟨hlength, hall⟩
    induction lefts generalizing rights with
    | nil =>
      obtain rfl := List.length_eq_zero_iff.mp hlength.symm
      exact .nil
    | cons left lefts ih =>
      cases rights with
      | nil => cases hlength
      | cons right rights =>
        obtain ⟨hleft, hall⟩ := List.forall_mem_cons.mp hall
        exact .cons hleft (ih (Nat.succ.inj hlength) hall)

theorem unionFieldsCompatible_iff : UnionFieldsCompatible allows lefts rights ↔
    lefts.length = rights.length ∧
      ∃ pushed, unionFields lefts rights = some pushed ∧ ∀ c ∈ pushed, c.Holds allows := by
  constructor
  · intro h
    induction lefts generalizing rights with
    | nil =>
      cases h
      exact ⟨rfl, [], rfl, by simp⟩
    | cons left lefts ih =>
      cases h with
      | cons hleft hlefts =>
        obtain ⟨hlength, pushed, hpushed, hall⟩ := ih hlefts
        refine ⟨congrArg (· + 1) hlength, .field _ _ :: pushed, ?_, List.forall_mem_cons.mpr ⟨hleft, hall⟩⟩
        simp [unionFields, hpushed]
  · rintro ⟨hlength, pushed, hpushed, hall⟩
    induction lefts generalizing rights pushed with
    | nil =>
      obtain rfl := List.length_eq_zero_iff.mp hlength.symm
      exact .nil
    | cons left lefts ih =>
      obtain ⟨leftId, left⟩ := left
      cases rights with
      | nil => cases hlength
      | cons right rights =>
        obtain ⟨rightId, right⟩ := right
        rw [unionFields] at hpushed
        split at hpushed
        · cases hpushed
        · rename_i hid
          obtain ⟨rest, hrest, rfl⟩ := Option.map_eq_some_iff.mp hpushed
          obtain ⟨hleft, hall⟩ := List.forall_mem_cons.mp hall
          obtain rfl := not_ne_iff.mp hid
          exact .cons hleft (ih (Nat.succ.inj hlength) _ hrest hall)

def Nullability.Allows (nullability : Nullability) (left right : Bool) : Prop :=
  nullability.matches left right = true

theorem Comparison.holds_iff {c : Comparison} : c.Holds nullability.Allows ↔
    ∃ pushed, c.step nullability = some pushed ∧ ∀ p ∈ pushed, p.Holds nullability.Allows := by
  constructor
  · intro h
    cases c with
    | field left right =>
      obtain ⟨hdata, hallows⟩ := h
      refine ⟨_, if_neg ?_, List.forall_mem_singleton.mpr hdata⟩
      rintro (hname | hnullable)
      · exact hname rfl
      · exact Bool.false_ne_true (hnullable.symm.trans hallows)
    | dataType left right =>
      cases h with
      | primitive => exact ⟨[], if_neg (fun h => h rfl), by simp⟩
      | list h => exact ⟨_, rfl, List.forall_mem_singleton.mpr h⟩
      | listView h => exact ⟨_, rfl, List.forall_mem_singleton.mpr h⟩
      | fixedSizeList h => exact ⟨_, if_neg (fun h => h rfl), List.forall_mem_singleton.mpr h⟩
      | largeList h => exact ⟨_, rfl, List.forall_mem_singleton.mpr h⟩
      | largeListView h => exact ⟨_, rfl, List.forall_mem_singleton.mpr h⟩
      | struct h =>
        obtain ⟨hlength, hall⟩ := fieldsCompatible_iff.mp h
        exact ⟨_, if_neg (not_ne_iff.mpr hlength), hall⟩
      | union h =>
        obtain ⟨hlength, pushed, hpushed, hall⟩ := unionFieldsCompatible_iff.mp h
        refine ⟨pushed, (if_neg ?_).trans hpushed, hall⟩
        simp [hlength]
      | dictionary hk hv => exact ⟨_, rfl, List.forall_mem_cons.mpr ⟨hk, List.forall_mem_singleton.mpr hv⟩⟩
      | map h => exact ⟨_, if_neg (fun h => h rfl), List.forall_mem_singleton.mpr h⟩
      | runEndEncoded he hv => exact ⟨_, rfl, List.forall_mem_cons.mpr ⟨he, List.forall_mem_singleton.mpr hv⟩⟩
  · rintro ⟨pushed, hstep, hall⟩
    cases c with
    | field left right =>
      obtain ⟨name, leftType, leftNullable, leftMetadata⟩ := left
      obtain ⟨rightName, rightType, rightNullable, rightMetadata⟩ := right
      rw [step] at hstep
      split at hstep
      · cases hstep
      · rename_i hpasses
        obtain rfl := Option.some.inj hstep
        obtain ⟨hname, hnullable⟩ := not_or.mp hpasses
        obtain rfl : name = rightName := not_ne_iff.mp hname
        have hdata : leftType.Compatible nullability.Allows rightType := hall _ List.mem_cons_self
        have hallows : nullability.Allows leftNullable rightNullable := Bool.not_eq_false _ |>.mp hnullable
        exact .mk hdata hallows
    | dataType left right =>
      unfold step at hstep
      dsimp only at hstep
      split at hstep
      case h_1 =>
        obtain rfl := Option.some.inj hstep
        exact .list (hall _ List.mem_cons_self)
      case h_2 =>
        obtain rfl := Option.some.inj hstep
        exact .listView (hall _ List.mem_cons_self)
      case h_3 =>
        obtain rfl := Option.some.inj hstep
        exact .largeList (hall _ List.mem_cons_self)
      case h_4 =>
        obtain rfl := Option.some.inj hstep
        exact .largeListView (hall _ List.mem_cons_self)
      case h_5 =>
        split at hstep
        · cases hstep
        · rename_i hsize
          obtain rfl := Option.some.inj hstep
          obtain rfl := not_ne_iff.mp hsize
          exact .fixedSizeList (hall _ List.mem_cons_self)
      case h_6 =>
        split at hstep
        · cases hstep
        · rename_i hlength
          obtain rfl := Option.some.inj hstep
          exact .struct (fieldsCompatible_iff.mpr ⟨not_ne_iff.mp hlength, hall⟩)
      case h_7 =>
        split at hstep
        · cases hstep
        · rename_i hsame
          obtain ⟨hmode, hlength⟩ := not_or.mp hsame
          obtain rfl := not_ne_iff.mp hmode
          exact .union (unionFieldsCompatible_iff.mpr ⟨not_ne_iff.mp hlength, pushed, hstep, hall⟩)
      case h_8 =>
        obtain rfl := Option.some.inj hstep
        exact .dictionary (hall _ List.mem_cons_self) (hall _ (List.mem_cons_of_mem _ List.mem_cons_self))
      case h_9 =>
        split at hstep
        · cases hstep
        · rename_i hsorted
          obtain rfl := Option.some.inj hstep
          obtain rfl := not_ne_iff.mp hsorted
          exact .map (hall _ List.mem_cons_self)
      case h_10 =>
        obtain rfl := Option.some.inj hstep
        exact .runEndEncoded (hall _ List.mem_cons_self) (hall _ (List.mem_cons_of_mem _ List.mem_cons_self))
      case h_11 =>
        split at hstep
        · cases hstep
        · rename_i hsame
          obtain rfl := not_ne_iff.mp hsame
          exact .primitive
      case h_12 => cases hstep

theorem compareAll_iff :
    compareAll nullability pending = true ↔ ∀ c ∈ pending, c.Holds nullability.Allows := by
  fun_induction compareAll nullability pending with
  | case1 => simp
  | case2 c pending hstep =>
    -- a comparison that fails does not hold
    have hfails : ¬ c.Holds nullability.Allows := by
      rw [Comparison.holds_iff]
      rintro ⟨pushed, hpushed, -⟩
      cases hstep.symm.trans hpushed
    simp [hfails]
  | case3 c pending pushed hstep ih =>
    have hc : c.Holds nullability.Allows ↔ ∀ p ∈ pushed, p.Holds nullability.Allows := by
      rw [Comparison.holds_iff, hstep]
      exact ⟨fun ⟨_, rfl, h⟩ => h, fun h => ⟨_, rfl, h⟩⟩
    rw [ih, List.forall_mem_append, List.forall_mem_cons, hc]
    simp only [List.mem_reverse]

theorem schemasHaveCompatibleStructure_iff : schemasHaveCompatibleStructure left right nullability = true ↔
    left.Compatible nullability.Allows right := by
  rw [Schema.Compatible, fieldsCompatible_iff, schemasHaveCompatibleStructure]
  split
  · rename_i hlength
    exact ⟨nofun, fun h => absurd h.1 hlength⟩
  · rename_i hlength
    rw [compareAll_iff, and_iff_right (not_ne_iff.mp hlength)]
    simp only [List.mem_reverse]

theorem exact_allows : Nullability.exact.Allows = Eq := by
  funext left right
  exact propext beq_iff_eq

def Refines (expected actual : Bool) : Prop := actual = true → expected = true

theorem actualMayRefine_allows : Nullability.actualMayRefine.Allows = Refines := by
  funext expected actual
  cases expected <;> cases actual <;> simp [Nullability.Allows, Nullability.matches, Refines]

theorem schemasMatch_iff :
    schemasMatchIgnoringMetadata left right = true ↔ left.erase = right.erase := by
  rw [schemasMatchIgnoringMetadata, schemasHaveCompatibleStructure_iff, exact_allows, Schema.compatible_iff_erase]

theorem validateBatchSchema_iff :
    validateBatchSchema debug expected actual = .ok () ↔ expected.Compatible Refines actual := by
  rw [← actualMayRefine_allows, ← schemasHaveCompatibleStructure_iff, validateBatchSchema]
  split
  · rename_i h
    simp [h]
  · rename_i h
    exact ⟨nofun, fun h' => absurd h' h⟩

/-- The loop decides equality of the schemas without their metadata, which is
an equivalence, and whether a batch refines what a sink expects, which is
reflexive and transitive. -/
theorem comparisons_decide (debug : Schema → String) :
    (∀ left right, schemasMatchIgnoringMetadata left right = true ↔ left.erase = right.erase) ∧
    Equivalence (fun left right => schemasMatchIgnoringMetadata left right = true) ∧
    (∀ expected actual,
      validateBatchSchema debug expected actual = .ok () ↔ expected.Compatible Refines actual) ∧
    (∀ schema, validateBatchSchema debug schema schema = .ok ()) ∧
    (∀ a b c, validateBatchSchema debug a b = .ok () → validateBatchSchema debug b c = .ok () →
      validateBatchSchema debug a c = .ok ()) := by
  refine ⟨fun _ _ => schemasMatch_iff, ⟨?_, ?_, ?_⟩, fun _ _ => validateBatchSchema_iff, ?_, ?_⟩
  · intro schema
    exact schemasMatch_iff.mpr rfl
  · intro left right h
    exact schemasMatch_iff.mpr (schemasMatch_iff.mp h).symm
  · intro a b c hab hbc
    exact schemasMatch_iff.mpr ((schemasMatch_iff.mp hab).trans (schemasMatch_iff.mp hbc))
  · intro schema
    exact validateBatchSchema_iff.mpr (FieldsCompatible.refl (fun _ => id) schema.fields)
  · intro a b c hab hbc
    have htrans : ∀ x y z, Refines x y → Refines y z → Refines x z := fun _ _ _ hxy hyz h => hxy (hyz h)
    exact validateBatchSchema_iff.mpr ((validateBatchSchema_iff.mp hab).trans htrans (validateBatchSchema_iff.mp hbc))

end SilkChiffon.SchemaComparison
