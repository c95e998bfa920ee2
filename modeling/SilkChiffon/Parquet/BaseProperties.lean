import SilkChiffon.Arrow.RecordBatch
import SilkChiffon.Transform.ColumnReference
import SilkChiffon.Parquet.LeafColumns
import SilkChiffon.Parquet.WriterProperties

/-!
# Base properties

What a sink makes of its options before any data arrives: it checks the columns
they name, and sets the encodings and the sorting columns of the file.
-/

namespace SilkChiffon.Parquet

open Arrow
open ColumnReference (SortColumn SortDirection NullPlacement)

inductive WriterVersion
  | v1 | v2
  deriving DecidableEq, Repr

def WriterVersion.file : WriterVersion → FileWriterVersion
  | .v1 => .parquet1
  | .v2 => .parquet2

inductive Encoding
  | plain | rle | deltaBinaryPacked | deltaLengthByteArray | deltaByteArray | byteStreamSplit
  deriving DecidableEq, Repr

namespace Encoding

def codec : Encoding → EncodingCodec
  | .plain => .plain
  | .rle => .rle
  | .deltaBinaryPacked => .deltaBinaryPacked
  | .deltaLengthByteArray => .deltaLengthByteArray
  | .deltaByteArray => .deltaByteArray
  | .byteStreamSplit => .byteStreamSplit

def display : Encoding → String
  | .plain => "plain"
  | .rle => "rle"
  | .deltaBinaryPacked => "delta-binary-packed"
  | .deltaLengthByteArray => "delta-length-byte-array"
  | .deltaByteArray => "delta-byte-array"
  | .byteStreamSplit => "byte-stream-split"

def supports : Encoding → DataType → Bool
  | .plain, _ => true
  | .rle, .boolean => true
  | .rle, _ => false
  | .deltaBinaryPacked, .int8 | .deltaBinaryPacked, .int16 | .deltaBinaryPacked, .int32
  | .deltaBinaryPacked, .int64 | .deltaBinaryPacked, .uint8 | .deltaBinaryPacked, .uint16
  | .deltaBinaryPacked, .uint32 | .deltaBinaryPacked, .uint64 | .deltaBinaryPacked, .date32
  | .deltaBinaryPacked, .date64 | .deltaBinaryPacked, .time32 _ | .deltaBinaryPacked, .time64 _
  | .deltaBinaryPacked, .timestamp _ _ | .deltaBinaryPacked, .duration _ => true
  | .deltaBinaryPacked, _ => false
  | .deltaLengthByteArray, .utf8 | .deltaLengthByteArray, .largeUtf8
  | .deltaLengthByteArray, .binary | .deltaLengthByteArray, .largeBinary
  | .deltaLengthByteArray, .utf8View | .deltaLengthByteArray, .binaryView
  | .deltaByteArray, .utf8 | .deltaByteArray, .largeUtf8 | .deltaByteArray, .binary
  | .deltaByteArray, .largeBinary | .deltaByteArray, .utf8View | .deltaByteArray, .binaryView =>
    true
  | .deltaLengthByteArray, _ | .deltaByteArray, _ => false
  | .byteStreamSplit, .float16 | .byteStreamSplit, .float32 | .byteStreamSplit, .float64
  | .byteStreamSplit, .int8 | .byteStreamSplit, .int16 | .byteStreamSplit, .int32
  | .byteStreamSplit, .int64 | .byteStreamSplit, .uint8 | .byteStreamSplit, .uint16
  | .byteStreamSplit, .uint32 | .byteStreamSplit, .uint64 | .byteStreamSplit, .fixedSizeBinary _
  | .byteStreamSplit, .decimal128 _ _ | .byteStreamSplit, .decimal256 _ _ => true
  | .byteStreamSplit, _ => false

/-- What an incompatible type is told, where `shown` is how Arrow prints it. -/
def unsupportedMessage (shown : String) : Encoding → String
  | .plain => ""
  | .rle => "RLE encoding only supports Boolean, got " ++ shown
  | .deltaBinaryPacked => "DELTA_BINARY_PACKED encoding only supports integer types, got " ++ shown
  | .deltaLengthByteArray =>
    Encoding.deltaLengthByteArray.display ++
      " encoding only supports byte array types (Utf8, Binary, etc.), got " ++ shown
  | .deltaByteArray =>
    Encoding.deltaByteArray.display ++
      " encoding only supports byte array types (Utf8, Binary, etc.), got " ++ shown
  | .byteStreamSplit =>
    "BYTE_STREAM_SPLIT encoding only supports fixed-width types (floats, integers, decimals), got "
      ++ shown

def validateForType (showType : DataType → String) (encoding : Encoding) (dataType : DataType) :
    Option String :=
  if encoding.supports dataType then none
  else some (encoding.unsupportedMessage (showType dataType))

end Encoding

structure ColumnEncoding where
  name : String
  encoding : Encoding
  deriving DecidableEq, Repr

-- ---------------------------------------------------------------------------
-- Columns that options name
-- ---------------------------------------------------------------------------

def columnPathFromDotNotation (name : String) : ColumnPath :=
  if '.' ∈ name.toList then parseCliPath name else [name]

/-- What lies below a type. Whatever comes after something that is no struct is
not looked at. -/
def resolveNestedType : DataType → List String → Option DataType
  | dataType, [] => some dataType
  | .struct fields, part :: rest =>
    match fields.find? (·.name == part) with
    | some field => resolveNestedType field.dataType rest
    | none => none
  | dataType, _ :: _ => some dataType

def resolveColumnType (schema : Schema) (columnPath : String) : Option DataType :=
  match parseCliPath columnPath with
  | [] => none
  | part :: rest => (schema.fieldWithName part).bind (resolveNestedType ·.dataType rest)

def notFoundMessage (name flag : String) : String :=
  "column '" ++ name ++ "' specified in " ++ flag ++ " not found in schema"

def validateNames (schema : Schema) (flag : String) (names : List String) :
    Except String Unit :=
  names.forM fun name =>
    if (resolveColumnType schema name).isSome then .ok () else .error (notFoundMessage name flag)

/-- The columns in conflict are named in the order of a hash set. -/
def validateColumnDictionary (schema : Schema) (columnDictionary columnNoDictionary : List String) :
    Except String Unit := do
  let conflicts := columnDictionary.eraseDups.filter (· ∈ columnNoDictionary)
  if conflicts ≠ [] then
    throw ("column(s) " ++ ", ".intercalate (conflicts.map fun s => "'" ++ s ++ "'") ++
      " specified in both --parquet-dictionary-column and --parquet-dictionary-column-off")
  validateNames schema "--parquet-dictionary-column" columnDictionary
  validateNames schema "--parquet-dictionary-column-off" columnNoDictionary

def validateColumnEncodings (showType : DataType → String) (schema : Schema)
    (columnEncodings : List ColumnEncoding) : Except String Unit :=
  columnEncodings.forM fun colEncoding =>
    match resolveColumnType schema colEncoding.name with
    | none => .error (notFoundMessage colEncoding.name "--parquet-column-encoding")
    | some dataType =>
      match colEncoding.encoding.validateForType showType dataType with
      | some error =>
        .error ("invalid encoding for column '" ++ colEncoding.name ++ "': " ++ error)
      | none => .ok ()

-- ---------------------------------------------------------------------------
-- Encodings
-- ---------------------------------------------------------------------------

def resolveV2EncodingOverrides : DataType → Option Encoding
  | .boolean => some .plain
  | .float32 | .float64 => some .byteStreamSplit
  | .int8 | .int16 | .int32 | .int64 | .uint8 | .uint16 | .uint32 | .uint64 =>
    some .deltaBinaryPacked
  | .utf8 | .largeUtf8 | .utf8View | .binary | .largeBinary | .binaryView =>
    some .deltaLengthByteArray
  | _ => none

def setEncoding (builder : WriterProperties) (encoding : Encoding) : WriterProperties :=
  { builder with defaults := { builder.defaults with encoding := some encoding.codec } }

def setAutomaticEncoding (builder : WriterProperties) (field : Field) : WriterProperties :=
  match resolveV2EncodingOverrides field.dataType with
  | some encoding => builder.setColumnEncoding [field.name] encoding.codec
  | none => builder

def applyEncodings (builder : WriterProperties) (schema : Schema) (writerVersion : WriterVersion)
    (defaultEncoding : Option Encoding) (columnEncodings : List ColumnEncoding) :
    WriterProperties :=
  let builder :=
    match defaultEncoding with
    | some encoding => setEncoding builder encoding
    | none => builder
  let builder :=
    match writerVersion with
    | .v2 => schema.foldl setAutomaticEncoding builder
    | .v1 => builder
  columnEncodings.foldl (fun builder colEncoding =>
    builder.setColumnEncoding (columnPathFromDotNotation colEncoding.name)
      colEncoding.encoding.codec) builder

-- ---------------------------------------------------------------------------
-- Sorting columns
-- ---------------------------------------------------------------------------

/-- `i32::try_from(column_idx)`. -/
def sortingColumnIdx (columnIdx : Nat) : Except String Nat :=
  if columnIdx < 2 ^ 31 then .ok columnIdx else .error "Column index out of range"

def sortingColumn (schema : Schema) (sortCol : SortColumn) : Except String SortingColumn := do
  match schema.columnIndex sortCol.name with
  | none => .error ("Sort column '" ++ sortCol.name ++ "' not found in schema")
  | some columnIdx =>
    let columnIdx ← sortingColumnIdx columnIdx
    pure ⟨columnIdx, sortCol.direction = .descending, sortCol.nullPlacement = .first⟩

def applySortMetadata (outputOrdering : List SortColumn) (builder : WriterProperties)
    (schema : Schema) : Except String WriterProperties :=
  if outputOrdering = [] then .ok builder
  else
    (outputOrdering.mapM (sortingColumn schema)).map fun sortingColumns =>
      { builder with sortingColumns := some sortingColumns }

-- ---------------------------------------------------------------------------
-- The sink's properties
-- ---------------------------------------------------------------------------

inductive Statistics
  | none | chunk | page
  deriving DecidableEq, Repr

def Statistics.enabled : Statistics → EnabledStatistics
  | .none => .none
  | .chunk => .chunk
  | .page => .page

structure OutputConfig where
  outputOrdering : List SortColumn
  compression : CompressionCodec
  statistics : Statistics
  noDictionary : Bool
  columnDictionaryAlways : List String
  columnDictionaryAnalyze : List String
  columnNoDictionary : List String
  writerVersion : WriterVersion
  encoding : Option Encoding
  columnEncodings : List ColumnEncoding
  dataPageSizeLimit : Nat
  dataPageRowCountLimit : Nat
  dictionaryPageSizeLimit : Nat
  writeBatchSize : Nat
  offsetIndexEnabled : Bool
  pageHeaderStatistics : Bool
  deriving DecidableEq

def parquetCreatedBy : String := "silk-chiffon"

def OutputConfig.settings (options : OutputConfig) : WriterProperties where
  writerVersion := options.writerVersion.file
  dataPageSizeLimit := options.dataPageSizeLimit
  dataPageRowCountLimit := options.dataPageRowCountLimit
  dictionaryPageSizeLimit := options.dictionaryPageSizeLimit
  writeBatchSize := options.writeBatchSize
  offsetIndexDisabled := !options.offsetIndexEnabled
  coerceTypes := true
  createdBy := parquetCreatedBy
  sortingColumns := none
  defaults :=
    { codec := some options.compression
      dictionaryEnabled := some !options.noDictionary
      statisticsEnabled := some options.statistics.enabled
      writePageHeaderStatistics := some options.pageHeaderStatistics }
  columns := []

/-- `props` of a new sink. -/
def baseProperties (showType : DataType → String) (schema : Schema) (options : OutputConfig) :
    Except String WriterProperties := do
  validateColumnDictionary schema
    (options.columnDictionaryAlways ++ options.columnDictionaryAnalyze) options.columnNoDictionary
  validateColumnEncodings showType schema options.columnEncodings
  let builder := applyEncodings options.settings schema options.writerVersion options.encoding
    options.columnEncodings
  applySortMetadata options.outputOrdering builder schema

end SilkChiffon.Parquet
