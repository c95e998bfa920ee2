import SilkChiffon.Arrow.Schema

/-!
# Equality of fields

Two fields are the same when their names, types and nullabilities are; types
that have fields are compared field by field.
-/

namespace SilkChiffon.Arrow

mutual

def DataType.same : DataType → DataType → Bool
  | .null, .null | .boolean, .boolean | .int8, .int8 | .int16, .int16 | .int32, .int32
  | .int64, .int64 | .uint8, .uint8 | .uint16, .uint16 | .uint32, .uint32 | .uint64, .uint64
  | .float16, .float16 | .float32, .float32 | .float64, .float64 | .date32, .date32
  | .date64, .date64 | .binary, .binary | .largeBinary, .largeBinary | .binaryView, .binaryView
  | .utf8, .utf8 | .largeUtf8, .largeUtf8 | .utf8View, .utf8View => true
  | .timestamp unit timezone, .timestamp unit' timezone' => unit = unit' ∧ timezone = timezone'
  | .time32 unit, .time32 unit' | .time64 unit, .time64 unit'
  | .duration unit, .duration unit' => unit = unit'
  | .interval unit, .interval unit' => unit = unit'
  | .fixedSizeBinary size, .fixedSizeBinary size' => size = size'
  | .list item, .list item' | .listView item, .listView item'
  | .largeList item, .largeList item' | .largeListView item, .largeListView item' =>
    item.same item'
  | .fixedSizeList item size, .fixedSizeList item' size' => item.same item' && size = size'
  | .struct fields, .struct fields' | .union fields, .union fields' =>
    sameFields fields fields'
  | .dictionary key value, .dictionary key' value' => key.same key' && value.same value'
  | .decimal32 precision scale, .decimal32 precision' scale'
  | .decimal64 precision scale, .decimal64 precision' scale'
  | .decimal128 precision scale, .decimal128 precision' scale'
  | .decimal256 precision scale, .decimal256 precision' scale' =>
    precision = precision' ∧ scale = scale'
  | .map entries sorted, .map entries' sorted' => entries.same entries' && sorted == sorted'
  | .runEndEncoded runEnds values, .runEndEncoded runEnds' values' =>
    runEnds.same runEnds' && values.same values'
  | _, _ => false

def Field.same : Field → Field → Bool
  | .mk name dataType nullable, .mk name' dataType' nullable' =>
    name = name' && dataType.same dataType' && nullable == nullable'

def sameFields : List Field → List Field → Bool
  | [], [] => true
  | field :: fields, field' :: fields' => field.same field' && sameFields fields fields'
  | _, _ => false

end

mutual

theorem DataType.eq_of_same {a b : DataType} (h : a.same b = true) : a = b := by
  cases a with
  | list item | listView item | largeList item | largeListView item =>
    cases b <;> try cases h
    exact congrArg _ (Field.eq_of_same h)
  | fixedSizeList item size =>
    cases b <;> try cases h
    simp only [DataType.same, Bool.and_eq_true, decide_eq_true_eq] at h
    rw [Field.eq_of_same h.1, h.2]
  | struct fields | union fields =>
    cases b <;> try cases h
    exact congrArg _ (eq_of_sameFields h)
  | dictionary key value =>
    cases b <;> try cases h
    simp only [DataType.same, Bool.and_eq_true] at h
    rw [DataType.eq_of_same h.1, DataType.eq_of_same h.2]
  | map entries sorted =>
    cases b <;> try cases h
    simp only [DataType.same, Bool.and_eq_true, beq_iff_eq] at h
    rw [Field.eq_of_same h.1, h.2]
  | runEndEncoded runEnds values =>
    cases b <;> try cases h
    simp only [DataType.same, Bool.and_eq_true] at h
    rw [Field.eq_of_same h.1, Field.eq_of_same h.2]
  | _ => cases b <;> first | rfl | cases h | simpa [DataType.same] using h

theorem Field.eq_of_same {a b : Field} (h : a.same b = true) : a = b := by
  obtain ⟨name, dataType, nullable⟩ := a
  obtain ⟨name', dataType', nullable'⟩ := b
  simp only [Field.same, Bool.and_eq_true, decide_eq_true_eq, beq_iff_eq] at h
  rw [h.1.1, DataType.eq_of_same h.1.2, h.2]

theorem eq_of_sameFields {as bs : List Field} (h : sameFields as bs = true) : as = bs := by
  match as, bs with
  | [], [] => rfl
  | [], _ :: _ => cases h
  | _ :: _, [] => cases h
  | a :: as, b :: bs =>
    simp only [sameFields, Bool.and_eq_true] at h
    rw [Field.eq_of_same h.1, eq_of_sameFields h.2]

end

mutual

theorem DataType.same_self (a : DataType) : a.same a = true := by
  cases a <;> simp [DataType.same, DataType.same_self, Field.same_self, sameFields_self]

theorem Field.same_self (a : Field) : a.same a = true := by
  obtain ⟨name, dataType, nullable⟩ := a
  simp [Field.same, DataType.same_self]

theorem sameFields_self (as : List Field) : sameFields as as = true := by
  match as with
  | [] => rfl
  | a :: as => simp [sameFields, Field.same_self, sameFields_self]

end

instance : DecidableEq Field := fun a b =>
  decidable_of_iff (a.same b = true) ⟨Field.eq_of_same, fun h => h ▸ a.same_self⟩

end SilkChiffon.Arrow
