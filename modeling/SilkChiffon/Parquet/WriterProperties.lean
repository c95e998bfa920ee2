import SilkChiffon.Lib.Keyed
import SilkChiffon.Lib.Float64
import Mathlib.Data.List.Induction

/-!
# Writer properties

What the Parquet library is told about a file or a row group: settings of the
file, defaults for its columns and settings of single columns. A column's own
setting comes before the default.
-/

namespace SilkChiffon.Parquet

abbrev ColumnPath := List String

inductive FileWriterVersion
  | parquet1 | parquet2
  deriving DecidableEq, Repr

inductive EncodingCodec
  | plain | rle | deltaBinaryPacked | deltaLengthByteArray | deltaByteArray | byteStreamSplit
  deriving DecidableEq, Repr

inductive CompressionCodec
  | uncompressed | snappy | lz4Raw
  | gzip (level : Nat)
  | brotli (level : Nat)
  | zstd (level : Int)
  deriving DecidableEq, Repr

inductive EnabledStatistics
  | none | chunk | page
  deriving DecidableEq, Repr

structure BloomFilterProperties where
  fpp : Float64
  ndv : Nat
  deriving DecidableEq

structure SortingColumn where
  columnIdx : Nat
  descending : Bool
  nullsFirst : Bool
  deriving DecidableEq, Repr

structure ColumnProperties where
  encoding : Option EncodingCodec := none
  codec : Option CompressionCodec := none
  dictionaryEnabled : Option Bool := none
  statisticsEnabled : Option EnabledStatistics := none
  writePageHeaderStatistics : Option Bool := none
  bloomFilterProperties : Option BloomFilterProperties := none
  deriving DecidableEq

structure WriterProperties where
  writerVersion : FileWriterVersion
  dataPageSizeLimit : Nat
  dataPageRowCountLimit : Nat
  dictionaryPageSizeLimit : Nat
  writeBatchSize : Nat
  offsetIndexDisabled : Bool
  coerceTypes : Bool
  createdBy : String
  sortingColumns : Option (List SortingColumn)
  defaults : ColumnProperties
  columns : List (ColumnPath × ColumnProperties)
  deriving DecidableEq

theorem defaultFpp_magnitude : 0x3FA999999999999A < infiniteMagnitude + 1 := by decide

def defaultBloomFilterFpp : Float64 := .number false ⟨0x3FA999999999999A, defaultFpp_magnitude⟩

def BloomFilterProperties.default : BloomFilterProperties := ⟨defaultBloomFilterFpp, 1000000⟩

def emptyProperties : WriterProperties where
  writerVersion := .parquet2
  dataPageSizeLimit := 1024 * 1024
  dataPageRowCountLimit := 20000
  dictionaryPageSizeLimit := 1024 * 1024
  writeBatchSize := 1024
  offsetIndexDisabled := false
  coerceTypes := true
  createdBy := "silk-chiffon"
  sortingColumns := none
  defaults := {}
  columns := []

namespace ColumnProperties

def setBloomFilterEnabled (value : Bool) (c : ColumnProperties) : ColumnProperties :=
  if value then
    { c with bloomFilterProperties := some (c.bloomFilterProperties.getD .default) }
  else { c with bloomFilterProperties := none }

def setBloomFilterFpp (fpp : Float64) (c : ColumnProperties) : ColumnProperties :=
  { c with bloomFilterProperties := some { c.bloomFilterProperties.getD .default with fpp } }

def setBloomFilterNdv (ndv : Nat) (c : ColumnProperties) : ColumnProperties :=
  { c with bloomFilterProperties := some { c.bloomFilterProperties.getD .default with ndv } }

end ColumnProperties

namespace WriterProperties

def column (props : WriterProperties) (path : ColumnPath) : ColumnProperties :=
  (props.columns.lookup path).getD {}

def encoding (props : WriterProperties) (path : ColumnPath) : Option EncodingCodec :=
  (props.column path).encoding.or props.defaults.encoding

def compression (props : WriterProperties) (path : ColumnPath) : CompressionCodec :=
  ((props.column path).codec.or props.defaults.codec).getD .uncompressed

def dictionaryEnabled (props : WriterProperties) (path : ColumnPath) : Bool :=
  ((props.column path).dictionaryEnabled.or props.defaults.dictionaryEnabled).getD true

def statisticsEnabled (props : WriterProperties) (path : ColumnPath) : EnabledStatistics :=
  ((props.column path).statisticsEnabled.or props.defaults.statisticsEnabled).getD .page

def writePageHeaderStatistics (props : WriterProperties) (path : ColumnPath) : Bool :=
  ((props.column path).writePageHeaderStatistics.or
    props.defaults.writePageHeaderStatistics).getD false

def bloomFilterProperties (props : WriterProperties) (path : ColumnPath) :
    Option BloomFilterProperties :=
  (props.column path).bloomFilterProperties.or props.defaults.bloomFilterProperties

/-- The offset index is written wherever page statistics are. -/
def isOffsetIndexDisabled (props : WriterProperties) : Bool :=
  if props.defaults.statisticsEnabled = some .page ∨
      ∃ p ∈ props.columns, p.2.statisticsEnabled = some .page then false
  else props.offsetIndexDisabled

def setColumn (props : WriterProperties) (path : ColumnPath)
    (f : ColumnProperties → ColumnProperties) : WriterProperties :=
  { props with columns := Keyed.modifyKey path {} f props.columns }

def setColumnEncoding (props : WriterProperties) (path : ColumnPath) (value : EncodingCodec) :
    WriterProperties :=
  props.setColumn path fun c => { c with encoding := some value }

def setColumnCompression (props : WriterProperties) (path : ColumnPath)
    (value : CompressionCodec) : WriterProperties :=
  props.setColumn path fun c => { c with codec := some value }

def setColumnDictionaryEnabled (props : WriterProperties) (path : ColumnPath) (value : Bool) :
    WriterProperties :=
  props.setColumn path fun c => { c with dictionaryEnabled := some value }

def setColumnStatisticsEnabled (props : WriterProperties) (path : ColumnPath)
    (value : EnabledStatistics) : WriterProperties :=
  props.setColumn path fun c => { c with statisticsEnabled := some value }

def setColumnWritePageHeaderStatistics (props : WriterProperties) (path : ColumnPath)
    (value : Bool) : WriterProperties :=
  props.setColumn path fun c => { c with writePageHeaderStatistics := some value }

def setColumnBloomFilterEnabled (props : WriterProperties) (path : ColumnPath) (value : Bool) :
    WriterProperties :=
  props.setColumn path (·.setBloomFilterEnabled value)

def setColumnBloomFilterFpp (props : WriterProperties) (path : ColumnPath) (fpp : Float64) :
    WriterProperties :=
  props.setColumn path (·.setBloomFilterFpp fpp)

def setColumnBloomFilterNdv (props : WriterProperties) (path : ColumnPath) (ndv : Nat) :
    WriterProperties :=
  props.setColumn path (·.setBloomFilterNdv ndv)

variable {props : WriterProperties} {path path' : ColumnPath}

@[simp] theorem column_setColumn : (props.setColumn path f).column path' =
    if path = path' then f (props.column path') else props.column path' := by
  simp only [column, setColumn, Keyed.lookup_modifyKey]
  by_cases h : path = path'
  · simp [h]
  · simp [h]

@[simp] theorem defaults_setColumn : (props.setColumn path f).defaults = props.defaults := rfl

theorem setColumn_setColumn : (props.setColumn path f).setColumn path g =
    props.setColumn path (g ∘ f) := by
  simp only [setColumn, Keyed.modifyKey_modifyKey]

/-- Setting one column after the other leaves each with the last setting for
it, where a setting does not depend on those it replaces. -/
theorem column_foldl_setColumn (key : α → ColumnPath)
    (f : α → ColumnProperties → ColumnProperties)
    (hreplace : ∀ a a' c, key a = key a' → f a (f a' c) = f a c) (l : List α)
    (props : WriterProperties) (path : ColumnPath) :
    (l.foldl (fun props a => props.setColumn (key a) (f a)) props).column path =
      match l.reverse.find? (key · == path) with
      | some a => f a (props.column path)
      | none => props.column path := by
  induction l using List.reverseRecOn with
  | nil => rfl
  | append_singleton l a ih =>
    rw [List.foldl_append, List.foldl_cons, List.foldl_nil, column_setColumn, ih,
      List.reverse_append, List.reverse_singleton, List.singleton_append, List.find?_cons]
    by_cases ha : key a = path
    · rw [if_pos ha, beq_iff_eq.mpr ha]
      cases hfind : l.reverse.find? (key · == path) with
      | none => rfl
      | some a' =>
        have ha' : key a' = path := by simpa using List.find?_some hfind
        exact hreplace a a' _ (ha.trans ha'.symm)
    · rw [if_neg ha, beq_false_of_ne ha]

theorem defaults_foldl_setColumn (key : α → ColumnPath)
    (f : α → ColumnProperties → ColumnProperties) (l : List α) (props : WriterProperties) :
    (l.foldl (fun props a => props.setColumn (key a) (f a)) props).defaults = props.defaults := by
  induction l generalizing props with
  | nil => rfl
  | cons a l ih => rw [List.foldl_cons, ih, defaults_setColumn]

end WriterProperties

end SilkChiffon.Parquet
