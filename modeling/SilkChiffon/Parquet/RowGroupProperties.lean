import SilkChiffon.Lib.Rounding
import SilkChiffon.Parquet.ColumnPolicies
import SilkChiffon.Parquet.WriterProperties

/-!
# Row group properties

Every row group has properties of its own. They are built from nothing: the
settings of the file and what the base properties say about each leaf are
copied, and dictionaries and Bloom filters are decided by the leaf's policy and
the analysis of the row group.
-/

namespace SilkChiffon.Parquet

open Arrow Rounding
open ColumnReference (ColumnAnalysis)

-- ---------------------------------------------------------------------------
-- Dictionaries
-- ---------------------------------------------------------------------------

/-- Sizes are machine words, and their products wrap. -/
def usizeMul (a b : Nat) : Nat := a * b % 2 ^ 64

def estimateFixedTypeBytes : DataType → Option Nat
  | .boolean | .int8 | .uint8 => some 1
  | .int16 | .uint16 | .float16 => some 2
  | .int32 | .uint32 | .float32 | .date32 => some 4
  | .int64 | .uint64 | .float64 | .date64 | .time64 _ | .timestamp _ _ | .duration _ => some 8
  | .interval .yearMonth => some 4
  | .interval .dayTime => some 8
  | .interval .monthDayNano => some 16
  | .time32 _ => some 4
  | .decimal128 _ _ => some 16
  | .decimal256 _ _ => some 32
  | .fixedSizeBinary size => some size.toNat
  | .fixedSizeList (.mk _ dataType _) length =>
    (estimateFixedTypeBytes dataType).map fun size => usizeMul size length.toNat
  | _ => none

def estimateDictionarySize (analysis : ColumnAnalysis Float64) : DataType → Nat
  | .dictionary _ value => estimateDictionarySize analysis value
  | dataType =>
    let valueSize :=
      match estimateFixedTypeBytes dataType with
      | some fixed => fixed
      | none =>
        match dataType with
        | .utf8 | .largeUtf8 | .utf8View => (analysis.avgValueSize.map (·.roundToUsize)).getD 32
        | .binary | .largeBinary | .binaryView =>
          (analysis.avgValueSize.map (·.roundToUsize)).getD 64
        | _ => 16
    usizeMul analysis.approxDistinct valueSize

def dictionaryCardinalityThresholdDivisor : Nat := 5

def shouldUseDictionary (analysis : ColumnAnalysis Float64) (rowCount : Nat) (dataType : DataType)
    (dictPageSizeLimit : Nat) : Bool :=
  if rowCount = 0 then false
  else
    let cardinalityRatio :=
      roundToDouble (roundToDouble analysis.approxDistinct / roundToDouble rowCount)
    if roundToDouble (1 / dictionaryCardinalityThresholdDivisor) ≤ cardinalityRatio then false
    else estimateDictionarySize analysis dataType ≤ dictPageSizeLimit

-- ---------------------------------------------------------------------------
-- Properties
-- ---------------------------------------------------------------------------

abbrev Analysis := List (String × ColumnAnalysis Float64)

def useDictionary (mode : ResolvedDictionaryMode) (leafPath : String) (dataType : DataType)
    (analysis : Analysis) (rowCount : Nat) (config : PipelineConfig) : Bool :=
  match mode with
  | .notEligible | .disabled => false
  | .always => true
  | .analyze =>
    match analysis.lookup leafPath with
    | some colAnalysis =>
      shouldUseDictionary colAnalysis rowCount dataType config.dictionaryPageSizeLimit
    | none => false

def setBloomFilter (builder : WriterProperties) (colPath : ColumnPath) (leafPath : String)
    (mode : ResolvedBloomFilterMode) (useDict : Bool) (analysis : Analysis) : WriterProperties :=
  match mode with
  | .disabled => builder.setColumnBloomFilterEnabled colPath false
  | .enabled fpp ndv =>
    let enableBloom := if ndv.isSome then true else useDict
    if enableBloom then
      match ndv.or ((analysis.lookup leafPath).map (·.approxDistinct)) with
      | some n =>
        ((builder.setColumnBloomFilterEnabled colPath true).setColumnBloomFilterFpp colPath
          fpp).setColumnBloomFilterNdv colPath n
      | none => builder.setColumnBloomFilterEnabled colPath false
    else builder.setColumnBloomFilterEnabled colPath false

def configureLeafEncoding (builder : WriterProperties) (colPath : ColumnPath) (leafPath : String)
    (dataType : DataType) (analysis : Analysis) (rowCount : Nat) (config : PipelineConfig)
    (resolved : ColumnPolicies) (baseProps : WriterProperties) : WriterProperties :=
  let resolvedCfg := resolved.get leafPath
  let dictMode := (resolvedCfg.map (·.dictionary)).getD .notEligible
  let useDict := useDictionary dictMode leafPath dataType analysis rowCount config
  let builder := builder.setColumnDictionaryEnabled colPath useDict
  let bloomMode := (resolvedCfg.map (·.bloomFilter)).getD .disabled
  let builder := setBloomFilter builder colPath leafPath bloomMode useDict analysis
  let builder := (builder.setColumnCompression colPath
    (baseProps.compression colPath)).setColumnStatisticsEnabled colPath
      (baseProps.statisticsEnabled colPath)
  let builder :=
    if baseProps.writePageHeaderStatistics colPath then
      builder.setColumnWritePageHeaderStatistics colPath true
    else builder
  match baseProps.encoding colPath with
  | some encoding => builder.setColumnEncoding colPath encoding
  | none => builder

/-- The properties the leaves are configured on. An unset creator stays the
library's own. -/
def newRowGroupProperties (libraryName : String) (baseProps : WriterProperties) :
    WriterProperties where
  writerVersion := baseProps.writerVersion
  dataPageSizeLimit := baseProps.dataPageSizeLimit
  dataPageRowCountLimit := baseProps.dataPageRowCountLimit
  dictionaryPageSizeLimit := baseProps.dictionaryPageSizeLimit
  writeBatchSize := baseProps.writeBatchSize
  offsetIndexDisabled := baseProps.isOffsetIndexDisabled
  coerceTypes := baseProps.coerceTypes
  createdBy := if baseProps.createdBy = "" then libraryName else baseProps.createdBy
  sortingColumns := none
  defaults :=
    { codec := some (baseProps.compression [""]), dictionaryEnabled := some false,
      bloomFilterProperties := none }
  columns := []

def buildRowGroupProperties (libraryName : String) (schema : Schema) (baseProps : WriterProperties)
    (config : PipelineConfig) (resolved : ColumnPolicies) (analysis : Analysis) (rowCount : Nat) :
    WriterProperties :=
  (enumerateLeafColumns schema).foldl (fun builder leaf =>
    configureLeafEncoding builder leaf.path leaf.parquetPath leaf.dataType analysis rowCount config
      resolved baseProps) (newRowGroupProperties libraryName baseProps)

end SilkChiffon.Parquet
