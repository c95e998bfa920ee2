import SilkChiffon.Parquet.BaseProperties
import SilkChiffon.Parquet.EncodingDecisions

/-!
# Column encodings

Which encoding a column has in a row group: the last one that an option names
for its path, or else the automatic one of the writer version, or else the
global one.
-/

namespace SilkChiffon.Parquet

open Arrow

-- ---------------------------------------------------------------------------
-- Paths in options
-- ---------------------------------------------------------------------------

theorem intercalate_parseCliPath (s : String) : ".".intercalate (parseCliPath s) = s := by
  rw [← String.toList_inj, String.toList_intercalate, parseCliPath, List.map_map]
  simp [Function.comp_def]

theorem parseCliPath_eq_single (hdot : '.' ∉ name.toList) : parseCliPath name = [name] := by
  simp [parseCliPath, List.splitOn_eq_singleton hdot]

theorem parseCliPath_eq_single_iff (hdot : '.' ∉ name.toList) :
    parseCliPath s = [name] ↔ s = name := by
  constructor
  · intro h
    rw [← intercalate_parseCliPath s, h, String.intercalate_singleton]
  · rintro rfl
    exact parseCliPath_eq_single hdot

theorem columnPathFromDotNotation_eq (name : String) :
    columnPathFromDotNotation name = parseCliPath name := by
  unfold columnPathFromDotNotation
  split
  · rfl
  · rename_i hdot
    exact (parseCliPath_eq_single hdot).symm

-- ---------------------------------------------------------------------------
-- The layers of encodings
-- ---------------------------------------------------------------------------

def optionEncoding (columnEncodings : List ColumnEncoding) (path : ColumnPath) : Option Encoding :=
  (columnEncodings.reverse.find? fun o => parseCliPath o.name == path).map (·.encoding)

def automaticEncoding (writerVersion : WriterVersion) (dataType : DataType) : Option Encoding :=
  match writerVersion with
  | .v1 => none
  | .v2 => resolveV2EncodingOverrides dataType

def automaticFields (schema : Schema) : List (String × Encoding) :=
  schema.filterMap fun field =>
    (resolveV2EncodingOverrides field.dataType).map fun encoding => (field.name, encoding)

/-- The automatic encoding of the last field of that name that has one. -/
def automaticColumnEncoding (schema : Schema) (writerVersion : WriterVersion) (path : ColumnPath) :
    Option Encoding :=
  match writerVersion with
  | .v1 => none
  | .v2 => ((automaticFields schema).reverse.find? fun p => [p.1] == path).map (·.2)

variable {schema : Schema} {columnEncodings : List ColumnEncoding} {path : ColumnPath}

theorem encoding_foldl_options (builder : WriterProperties) :
    ((columnEncodings.foldl (fun builder colEncoding =>
      builder.setColumnEncoding (columnPathFromDotNotation colEncoding.name)
        colEncoding.encoding.codec) builder).column path).encoding =
      ((optionEncoding columnEncodings path).map (·.codec)).or (builder.column path).encoding := by
  simp only [columnPathFromDotNotation_eq, WriterProperties.setColumnEncoding]
  rw [WriterProperties.column_foldl_setColumn (fun o : ColumnEncoding => parseCliPath o.name)
    (fun o c => { c with encoding := some o.encoding.codec }) fun _ _ _ _ => rfl, optionEncoding]
  cases columnEncodings.reverse.find? fun o => parseCliPath o.name == path <;> rfl

theorem defaults_foldl_options (builder : WriterProperties) :
    (columnEncodings.foldl (fun builder colEncoding =>
      builder.setColumnEncoding (columnPathFromDotNotation colEncoding.name)
        colEncoding.encoding.codec) builder).defaults = builder.defaults :=
  WriterProperties.defaults_foldl_setColumn
    (fun o : ColumnEncoding => columnPathFromDotNotation o.name)
    (fun o c => { c with encoding := some o.encoding.codec }) columnEncodings builder

theorem foldl_automatic (builder : WriterProperties) :
    schema.foldl setAutomaticEncoding builder = (automaticFields schema).foldl (fun builder p =>
      builder.setColumn [p.1] fun c => { c with encoding := some p.2.codec }) builder := by
  rw [automaticFields, List.foldl_filterMap]
  congr 1
  funext builder field
  rw [setAutomaticEncoding]
  cases resolveV2EncodingOverrides field.dataType <;> rfl

theorem encoding_applyEncodings_unset {builder : WriterProperties} {writerVersion : WriterVersion}
    (hcolumns : builder.columns = []) :
    (applyEncodings builder schema writerVersion none columnEncodings).encoding path =
      (((optionEncoding columnEncodings path).or
        (automaticColumnEncoding schema writerVersion path)).map (·.codec)).or
        builder.defaults.encoding := by
  have hcolumn : (builder.column path).encoding = none := by
    simp [WriterProperties.column, hcolumns]
  simp only [applyEncodings]
  rw [WriterProperties.encoding, defaults_foldl_options, encoding_foldl_options]
  cases writerVersion with
  | v1 => simp [automaticColumnEncoding, hcolumn]
  | v2 =>
    simp only [foldl_automatic]
    rw [WriterProperties.defaults_foldl_setColumn,
      WriterProperties.column_foldl_setColumn (fun p : String × Encoding => [p.1])
        (fun p c => { c with encoding := some p.2.codec }) fun _ _ _ _ => rfl,
      automaticColumnEncoding]
    cases (automaticFields schema).reverse.find? fun p => [p.1] == path <;>
      simp [hcolumn]

theorem encoding_applyEncodings {builder : WriterProperties} {writerVersion : WriterVersion}
    {defaultEncoding : Option Encoding} (hcolumns : builder.columns = [])
    (hdefaults : builder.defaults.encoding = none) :
    (applyEncodings builder schema writerVersion defaultEncoding columnEncodings).encoding path =
      (((optionEncoding columnEncodings path).or
        (automaticColumnEncoding schema writerVersion path)).or defaultEncoding).map (·.codec) := by
  cases defaultEncoding with
  | none =>
    rw [encoding_applyEncodings_unset hcolumns, hdefaults]
    simp
  | some encoding =>
    have hset : applyEncodings builder schema writerVersion (some encoding) columnEncodings =
        applyEncodings (setEncoding builder encoding) schema writerVersion none columnEncodings :=
      rfl
    have hcolumns' : (setEncoding builder encoding).columns = [] := hcolumns
    rw [hset, encoding_applyEncodings_unset hcolumns', Option.map_or]
    simp [setEncoding]

-- ---------------------------------------------------------------------------
-- Precedence
-- ---------------------------------------------------------------------------

variable {options : OutputConfig} {showType : DataType → String} {baseProps : WriterProperties}

theorem baseProperties_ok (h : baseProperties showType schema options = .ok baseProps) :
    (∃ sortingColumns, baseProps = { applyEncodings options.settings schema options.writerVersion
        options.encoding options.columnEncodings with sortingColumns }) ∧
      validateColumnEncodings showType schema options.columnEncodings = .ok () := by
  obtain ⟨⟨⟩, _, h⟩ := Lists.bind_eq_ok.mp h
  obtain ⟨⟨⟩, hvalid, h⟩ := Lists.bind_eq_ok.mp h
  refine ⟨?_, hvalid⟩
  unfold applySortMetadata at h
  split at h
  · exact ⟨_, (Except.ok.inj h).symm⟩
  · cases hcolumns : options.outputOrdering.mapM (sortingColumn schema) with
    | error e => rw [hcolumns] at h; cases h
    | ok columns => rw [hcolumns] at h; exact ⟨_, (Except.ok.inj h).symm⟩

theorem encoding_baseProperties (h : baseProperties showType schema options = .ok baseProps) :
    baseProps.encoding path = (((optionEncoding options.columnEncodings path).or
      (automaticColumnEncoding schema options.writerVersion path)).or options.encoding).map
        (·.codec) := by
  obtain ⟨⟨sortingColumns, rfl⟩, _⟩ := baseProperties_ok h
  exact encoding_applyEncodings rfl rfl

theorem encoding_rowGroup (hleaf : leaf ∈ enumerateLeafColumns schema) :
    (buildRowGroupProperties libraryName schema baseProps config resolved analysis
      rowCount).encoding leaf.path = baseProps.encoding leaf.path := by
  obtain ⟨last, hlast⟩ := lastLeafAt_some hleaf
  exact (followsPolicy_last hlast).encoding

def explicitEncoding (columnEncodings : List ColumnEncoding) (name : String) : Option Encoding :=
  (columnEncodings.reverse.find? (·.name == name)).map (·.encoding)

def intendedEncoding (options : OutputConfig) (field : Field) : Option Encoding :=
  ((explicitEncoding options.columnEncodings field.name).or options.encoding).or
    (automaticEncoding options.writerVersion field.dataType)

/-- An option names the column, or the automatic encoding kept under its name
agrees with the global one, or with its own one where there is no global one. -/
def AutomaticYields (schema : Schema) (options : OutputConfig) (field : Field) : Prop :=
  (explicitEncoding options.columnEncodings field.name).isSome = true ∨
    ∀ automatic, automaticColumnEncoding schema options.writerVersion [field.name] = some automatic →
      options.encoding.or (automaticEncoding options.writerVersion field.dataType) = some automatic

theorem codec_inj {a b : Encoding} : a.codec = b.codec ↔ a = b := by
  cases a <;> cases b <;> decide

theorem optionEncoding_topLevel (hdot : '.' ∉ name.toList) :
    optionEncoding columnEncodings [name] = explicitEncoding columnEncodings name := by
  unfold optionEncoding explicitEncoding
  congr 2
  funext o
  rw [Bool.eq_iff_iff, beq_iff_eq, beq_iff_eq, parseCliPath_eq_single_iff hdot]

theorem mem_automaticFields : (name, encoding) ∈ automaticFields schema ↔
    ∃ field ∈ schema, field.name = name ∧ resolveV2EncodingOverrides field.dataType = some encoding := by
  simp only [automaticFields, List.mem_filterMap, Option.map_eq_some_iff, Prod.mk.injEq]
  constructor
  · rintro ⟨field, hfield, _, hresolve, rfl, rfl⟩
    exact ⟨field, hfield, rfl, hresolve⟩
  · rintro ⟨field, hfield, rfl, hresolve⟩
    exact ⟨field, hfield, encoding, hresolve, rfl, rfl⟩

theorem automaticColumnEncoding_some {writerVersion : WriterVersion}
    (h : automaticColumnEncoding schema writerVersion [name] = some encoding) :
    ∃ field ∈ schema, field.name = name ∧
      automaticEncoding writerVersion field.dataType = some encoding := by
  cases writerVersion with
  | v1 => cases h
  | v2 =>
    obtain ⟨p, hp, rfl⟩ := Option.map_eq_some_iff.mp h
    have hname : p.1 = name := by simpa using List.find?_some hp
    obtain ⟨field, hfield, hfieldName, hresolve⟩ :=
      mem_automaticFields.mp (List.mem_reverse.mp (List.mem_of_find?_eq_some hp))
    exact ⟨field, hfield, hfieldName.trans hname, hresolve⟩

theorem automaticColumnEncoding_isSome {writerVersion : WriterVersion} (hfield : field ∈ schema)
    (h : automaticEncoding writerVersion field.dataType = some encoding) :
    (automaticColumnEncoding schema writerVersion [field.name]).isSome = true := by
  cases writerVersion with
  | v1 => cases h
  | v2 =>
    rw [automaticColumnEncoding, Option.isSome_map, List.find?_isSome]
    exact ⟨(field.name, encoding),
      List.mem_reverse.mpr (mem_automaticFields.mpr ⟨field, hfield, rfl, h⟩), by simp⟩

theorem automaticColumnEncoding_distinct {writerVersion : WriterVersion}
    (hnames : schema.names.Nodup) (hfield : field ∈ schema) :
    automaticColumnEncoding schema writerVersion [field.name] =
      automaticEncoding writerVersion field.dataType := by
  cases hkept : automaticColumnEncoding schema writerVersion [field.name] with
  | none =>
    cases hown : automaticEncoding writerVersion field.dataType with
    | none => rfl
    | some encoding =>
      have hsome := automaticColumnEncoding_isSome hfield hown
      rw [hkept] at hsome
      cases hsome
  | some encoding =>
    obtain ⟨other, hother, hname, hresolve⟩ := automaticColumnEncoding_some hkept
    rw [← List.inj_on_of_nodup_map hnames hother hfield hname, hresolve]

theorem automaticYields_distinct (hnames : schema.names.Nodup) (hfield : field ∈ schema) :
    AutomaticYields schema options field ↔
      (explicitEncoding options.columnEncodings field.name).isSome = true ∨
        options.encoding = none ∨
        ∀ automatic, automaticEncoding options.writerVersion field.dataType = some automatic →
          options.encoding = some automatic := by
  unfold AutomaticYields
  rw [automaticColumnEncoding_distinct hnames hfield]
  cases options.encoding with
  | none => simp
  | some encoding => simp

/-- In every row group a top-level column has the encoding of the last option
that names it, or else the global one, or else its automatic one, exactly when
the automatic encoding yields to the others. -/
theorem encoding_precedence_iff (libraryName : String) (config : PipelineConfig)
    (resolved : ColumnPolicies) (analysis : Analysis) (rowCount : Nat)
    (hbase : baseProperties showType schema options = .ok baseProps) (hfield : field ∈ schema)
    (hleaf : leaf ∈ fieldLeaves field) (hpath : leaf.path = [field.name])
    (hdot : '.' ∉ field.name.toList) :
    (buildRowGroupProperties libraryName schema baseProps config resolved analysis
      rowCount).encoding leaf.path = (intendedEncoding options field).map (·.codec) ↔
    AutomaticYields schema options field := by
  rw [encoding_rowGroup (mem_enumerateLeafColumns.mpr ⟨field, hfield, hleaf⟩),
    encoding_baseProperties hbase, hpath, optionEncoding_topLevel hdot,
    Option.map_injective (fun _ _ => codec_inj.mp) |>.eq_iff, intendedEncoding, AutomaticYields]
  cases explicitEncoding options.columnEncodings field.name with
  | some encoding => simp
  | none =>
    cases hkept : automaticColumnEncoding schema options.writerVersion [field.name] with
    | some automatic =>
      simp only [Option.none_or, Option.some_or, Option.isSome_none, Bool.false_eq_true, false_or,
        Option.some.injEq, forall_eq']
      exact eq_comm
    | none =>
      have hown : automaticEncoding options.writerVersion field.dataType = none := by
        cases hown : automaticEncoding options.writerVersion field.dataType with
        | none => rfl
        | some encoding =>
          have hsome := automaticColumnEncoding_isSome hfield hown
          rw [hkept] at hsome
          cases hsome
      simp [hown]

def idSchema : Schema := [.mk "id" .int64 true]

def plainOptions : OutputConfig where
  outputOrdering := []
  compression := .uncompressed
  statistics := .chunk
  noDictionary := false
  columnDictionaryAlways := []
  columnDictionaryAnalyze := []
  columnNoDictionary := []
  writerVersion := .v2
  encoding := some .plain
  columnEncodings := []
  dataPageSizeLimit := 1024 * 1024
  dataPageRowCountLimit := 2 ^ 64 - 1
  dictionaryPageSizeLimit := 1024 * 1024
  writeBatchSize := 1024
  offsetIndexEnabled := false
  pageHeaderStatistics := false

def plainProperties : WriterProperties :=
  applyEncodings plainOptions.settings idSchema .v2 (some .plain) []

theorem plain_ok : baseProperties (fun _ => "") idSchema plainOptions = .ok plainProperties := rfl

theorem encoding_precedence_iff_plain :
    (buildRowGroupProperties "parquet-rs" idSchema plainProperties .default
      (ColumnPolicies.resolve idSchema .default) [] 1000).encoding ["id"] =
        (intendedEncoding plainOptions (.mk "id" .int64 true)).map (·.codec) ↔
    AutomaticYields idSchema plainOptions (.mk "id" .int64 true) :=
  encoding_precedence_iff "parquet-rs" .default (ColumnPolicies.resolve idSchema .default) [] 1000
    plain_ok List.mem_cons_self (List.mem_singleton.mpr rfl) rfl (by decide)

/-- Integers are packed although plain encoding is asked for. -/
theorem global_encoding_overridden :
    baseProperties (fun _ => "") idSchema plainOptions = .ok plainProperties ∧
    (buildRowGroupProperties "parquet-rs" idSchema plainProperties .default
      (ColumnPolicies.resolve idSchema .default) [] 1000).encoding ["id"] =
        some .deltaBinaryPacked ∧
    intendedEncoding plainOptions (.mk "id" .int64 true) = some .plain :=
  ⟨rfl, by decide, by decide⟩

end SilkChiffon.Parquet
