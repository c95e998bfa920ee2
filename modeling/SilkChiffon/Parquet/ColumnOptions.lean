import SilkChiffon.Parquet.ColumnEncodings

/-!
# Column options

Whether an option for a column does what it says: it concerns some leaf, and
exactly the leaves under the path it names.
-/

namespace SilkChiffon.Parquet

open Arrow
open ColumnReference (isAnalyzable)

/-- The leaf is the column of that path or lies below it. -/
def LeafColumn.LiesUnder (leaf : LeafColumn) (name : String) : Prop :=
  leaf.matchesPrefix (parseCliPath name) = true

instance {leaf : LeafColumn} : Decidable (leaf.LiesUnder name) := by
  unfold LeafColumn.LiesUnder
  infer_instance

-- ---------------------------------------------------------------------------
-- Paths that select a leaf
-- ---------------------------------------------------------------------------

/-- A path down the tree of a type, to a branch or part of the way to one, with
a leaf there or below. -/
inductive NamesLeaf : DataType → List String → Prop
  | leaf (h : children t = none) : NamesLeaf t []
  | toward (h : children t = some branches) (hp : p ∈ branches) (hrest : rest <+: p.1)
    (hleaf : NamesLeaf p.2 []) : NamesLeaf t rest
  | through (h : children t = some branches) (hp : p ∈ branches) (hleaf : NamesLeaf p.2 rest) :
    NamesLeaf t (p.1 ++ rest)

theorem namesLeaf_leaf (h : children t = none) : NamesLeaf t rest ↔ rest = [] := by
  constructor
  · intro hnames
    cases hnames with
    | leaf _ => rfl
    | toward h' => exact absurd (h.symm.trans h') (by simp)
    | through h' => exact absurd (h.symm.trans h') (by simp)
  · rintro rfl
    exact .leaf h

theorem namesLeaf_branches (h : children t = some branches) : NamesLeaf t rest ↔
    ∃ p ∈ branches, (rest <+: p.1 ∧ NamesLeaf p.2 []) ∨
      ∃ rest', rest = p.1 ++ rest' ∧ NamesLeaf p.2 rest' := by
  constructor
  · intro hnames
    cases hnames with
    | leaf h' => exact absurd (h.symm.trans h') (by simp)
    | @toward _ _ p _ h' hp hrest hleaf =>
      obtain rfl := Option.some.inj (h.symm.trans h')
      exact ⟨p, hp, .inl ⟨hrest, hleaf⟩⟩
    | @through _ _ p rest' h' hp hleaf =>
      obtain rfl := Option.some.inj (h.symm.trans h')
      exact ⟨p, hp, .inr ⟨rest', rfl, hleaf⟩⟩
  · rintro ⟨p, hp, ⟨hrest, hleaf⟩ | ⟨rest', rfl, hleaf⟩⟩
    · exact .toward h hp hrest hleaf
    · exact .through h hp hleaf

theorem namesLeaf_iff (t : DataType) (path : List String) : NamesLeaf t rest ↔
    ∃ leaf ∈ enumerateField topLevel t path, path ++ rest <+: leaf.path := by
  induction t using children_induct generalizing path rest with
  | leaf t ht =>
    have hself : path ++ rest <+: path ↔ rest = [] := by
      have hinj : path ++ rest <+: path ++ [] ↔ rest <+: [] := List.prefix_append_right_inj path
      simpa using hinj
    simp [namesLeaf_leaf ht, enumerateField_leaf ht, hself]
  | branch t branches ht ih =>
    rw [namesLeaf_branches ht, enumerateField_branches ht]
    constructor
    · rintro ⟨p, hp, ⟨hrest, hnames⟩ | ⟨rest', rfl, hnames⟩⟩
      · obtain ⟨leaf, hleaf, hpath⟩ := (ih p hp (path ++ p.1)).mp hnames
        refine ⟨leaf, List.mem_flatMap.mpr ⟨p, hp, hleaf⟩, ?_⟩
        rw [List.append_nil] at hpath
        exact ((List.prefix_append_right_inj path).mpr hrest).trans hpath
      · obtain ⟨leaf, hleaf, hpath⟩ := (ih p hp (path ++ p.1)).mp hnames
        refine ⟨leaf, List.mem_flatMap.mpr ⟨p, hp, hleaf⟩, ?_⟩
        rwa [← List.append_assoc]
    · rintro ⟨leaf, hmem, hpath⟩
      obtain ⟨p, hp, hleaf⟩ := List.mem_flatMap.mp hmem
      obtain ⟨tail, htail⟩ := (mem_enumerateField hleaf).2
      have hrest : rest <+: p.1 ++ tail := by
        rwa [← htail, List.append_assoc, List.prefix_append_right_inj] at hpath
      refine ⟨p, hp, ?_⟩
      rcases List.prefix_or_prefix_of_prefix hrest (List.prefix_append p.1 tail) with hin | ⟨rest', rfl⟩
      · refine .inl ⟨hin, (ih p hp (path ++ p.1)).mpr ⟨leaf, hleaf, ?_⟩⟩
        rw [List.append_nil, ← htail]
        exact List.prefix_append _ _
      · refine .inr ⟨rest', rfl, (ih p hp (path ++ p.1)).mpr ⟨leaf, hleaf, ?_⟩⟩
        rwa [List.append_assoc]

theorem namesLeaf_struct : NamesLeaf (.struct fields) (part :: rest) ↔
    ∃ field ∈ fields, field.name = part ∧ NamesLeaf field.dataType rest := by
  rw [namesLeaf_branches (t := .struct fields) rfl]
  constructor
  · rintro ⟨p, hp, hcases⟩
    obtain ⟨field, hfield, rfl⟩ := List.mem_map.mp hp
    rcases hcases with ⟨hrest, hnames⟩ | ⟨rest', heq, hnames⟩
    · obtain ⟨rfl, hnil⟩ := List.cons_prefix_cons.mp hrest
      obtain rfl := List.prefix_nil.mp hnil
      exact ⟨field, hfield, rfl, hnames⟩
    · obtain ⟨rfl, rfl⟩ := List.cons.inj heq
      exact ⟨field, hfield, rfl, hnames⟩
  · rintro ⟨field, hfield, rfl, hnames⟩
    exact ⟨_, List.mem_map.mpr ⟨field, hfield, rfl⟩, .inr ⟨rest, rfl, hnames⟩⟩

theorem parseCliPath_ne_nil (name : String) : parseCliPath name ≠ [] := by
  simp [parseCliPath, List.splitOn_ne_nil]

theorem selects_iff {schema : Schema} :
    (∃ leaf ∈ enumerateLeafColumns schema, leaf.LiesUnder name) ↔
      NamesLeaf (.struct schema) (parseCliPath name) := by
  obtain ⟨part, rest, hparts⟩ := List.exists_cons_of_ne_nil (parseCliPath_ne_nil name)
  simp only [LeafColumn.LiesUnder, LeafColumn.matchesPrefix, List.isPrefixOf_iff_prefix, hparts,
    namesLeaf_struct]
  constructor
  · rintro ⟨leaf, hmem, hunder⟩
    obtain ⟨field, hfield, hleaf⟩ := mem_enumerateLeafColumns.mp hmem
    obtain ⟨_, tail, htail⟩ := mem_fieldLeaves hleaf
    rw [htail, List.cons_prefix_cons] at hunder
    obtain ⟨rfl, hunder⟩ := hunder
    refine ⟨field, hfield, rfl, (namesLeaf_iff field.dataType _).mpr ⟨leaf, hleaf, ?_⟩⟩
    rw [htail]
    exact List.cons_prefix_cons.mpr ⟨rfl, hunder⟩
  · rintro ⟨field, hfield, rfl, hnames⟩
    obtain ⟨leaf, hleaf, hpath⟩ := (namesLeaf_iff field.dataType _).mp hnames
    exact ⟨leaf, mem_enumerateLeafColumns.mpr ⟨field, hfield, hleaf⟩, hpath⟩

/-- The types a path leads to through struct fields, each with the part of the
path that `resolveNestedType` does not look at. -/
def unexamined : DataType → List String → List (DataType × List String)
  | dataType, [] => [(dataType, [])]
  | .struct fields, part :: rest =>
    (fields.filter (·.name == part)).flatMap fun field => unexamined field.dataType rest
  | dataType, part :: rest => [(dataType, part :: rest)]

def unexaminedColumn (schema : Schema) (columnPath : String) : List (DataType × List String) :=
  unexamined (.struct schema) (parseCliPath columnPath)

theorem namesLeaf_unexamined (t : DataType) (parts : List String) :
    NamesLeaf t parts ↔ ∃ p ∈ unexamined t parts, NamesLeaf p.1 p.2 := by
  fun_induction unexamined t parts with
  | case1 t => simp
  | case2 fields part rest ih =>
    rw [namesLeaf_struct]
    constructor
    · rintro ⟨field, hfield, rfl, hnames⟩
      obtain ⟨p, hp, hleaf⟩ := (ih field).mp hnames
      exact ⟨p, List.mem_flatMap.mpr ⟨field, by simp [hfield], hp⟩, hleaf⟩
    · rintro ⟨p, hmem, hleaf⟩
      obtain ⟨field, hfield, hp⟩ := List.mem_flatMap.mp hmem
      obtain ⟨hfield, hname⟩ := List.mem_filter.mp hfield
      exact ⟨field, hfield, by simpa using hname, (ih field).mpr ⟨p, hp, hleaf⟩⟩
  | case3 t part rest _ => simp

theorem mem_unexamined_of_resolved (h : resolveNestedType t parts = some resolved) :
    ∃ rest, (resolved, rest) ∈ unexamined t parts := by
  fun_induction resolveNestedType t parts with
  | case1 t => exact ⟨[], by simp_all [unexamined]⟩
  | case2 fields part rest field hfind ih =>
    obtain ⟨rest', hmem⟩ := ih h
    have hname := List.find?_some hfind
    refine ⟨rest', List.mem_flatMap.mpr ⟨field, ?_, hmem⟩⟩
    exact List.mem_filter.mpr ⟨List.mem_of_find?_eq_some hfind, hname⟩
  | case3 => cases h
  | case4 t part rest hstruct =>
    refine ⟨part :: rest, ?_⟩
    rw [unexamined]
    · simp_all
    · exact hstruct

theorem resolveColumnType_eq (schema : Schema) (columnPath : String) :
    resolveColumnType schema columnPath =
      resolveNestedType (.struct schema) (parseCliPath columnPath) := by
  obtain ⟨part, rest, hparts⟩ := List.exists_cons_of_ne_nil (parseCliPath_ne_nil columnPath)
  simp only [resolveColumnType, hparts, resolveNestedType, Schema.fieldWithName]
  cases schema.find? (·.name == part) <;> rfl

/-- An accepted path goes down struct fields to the type that it was resolved
to. It selects a leaf exactly when the part that was not looked at names one
there, unless fields on the way share a name: then any of them can have it. -/
theorem accepted_selects_iff {schema : Schema} (h : resolveColumnType schema name = some resolved) :
    (∃ rest, (resolved, rest) ∈ unexaminedColumn schema name) ∧
      ((∃ leaf ∈ enumerateLeafColumns schema, leaf.LiesUnder name) ↔
        ∃ p ∈ unexaminedColumn schema name, NamesLeaf p.1 p.2) := by
  rw [resolveColumnType_eq] at h
  exact ⟨mem_unexamined_of_resolved h, selects_iff.trans (namesLeaf_unexamined _ _)⟩

-- ---------------------------------------------------------------------------
-- Dictionaries
-- ---------------------------------------------------------------------------

inductive DictionaryOption
  | off | always | analyze
  deriving DecidableEq, Repr

namespace DictionaryOption

def columns : DictionaryOption → PipelineConfig → List String
  | off, config => config.userDisabledDictionary
  | always, config => config.userEnabledDictionaryAlways
  | analyze, config => config.userEnabledDictionaryAnalyze

def without (name : String) : DictionaryOption → PipelineConfig → PipelineConfig
  | off, config =>
    { config with userDisabledDictionary := config.userDisabledDictionary.filter (· ≠ name) }
  | always, config =>
    { config with
      userEnabledDictionaryAlways := config.userEnabledDictionaryAlways.filter (· ≠ name) }
  | analyze, config =>
    { config with
      userEnabledDictionaryAnalyze := config.userEnabledDictionaryAnalyze.filter (· ≠ name) }

/-- An option that comes before concerns the leaf. -/
def overridden : DictionaryOption → PipelineConfig → LeafColumn → Bool
  | off, _, _ => false
  | always, config, leaf => leaf.matchesAny config.userDisabledDictionary
  | analyze, config, leaf =>
    leaf.matchesAny config.userDisabledDictionary ||
      leaf.matchesAny config.userEnabledDictionaryAlways

/-- What the option asks for. Only top-level columns can be analyzed. -/
def mode : DictionaryOption → LeafColumn → ResolvedDictionaryMode
  | off, _ => .disabled
  | always, _ => .always
  | analyze, leaf =>
    if leaf.path.length = 1 ∧ isAnalyzable leaf.dataType then .analyze else .always

end DictionaryOption

structure DictionaryTakesEffect (schema : Schema) (option : DictionaryOption) (name : String) :
    Prop where
  selects : ∃ leaf ∈ enumerateLeafColumns schema, leaf.LiesUnder name
  applies : ∀ config, name ∈ option.columns config → ∀ leaf ∈ enumerateLeafColumns schema,
    leaf.LiesUnder name → isDictionaryEligible leaf.dataType = true →
      option.overridden config leaf = false →
        ColumnPolicies.resolveDictionaryForLeaf leaf config = option.mode leaf
  spares : ∀ config, ∀ leaf ∈ enumerateLeafColumns schema, ¬ leaf.LiesUnder name →
    ColumnPolicies.resolveDictionaryForLeaf leaf (option.without name config) =
      ColumnPolicies.resolveDictionaryForLeaf leaf config

variable {schema : Schema} {leaf : LeafColumn} {name : String}

theorem matchesAny_of_mem {names : List String} (hname : name ∈ names)
    (hleaf : leaf.LiesUnder name) : leaf.matchesAny names = true :=
  List.any_eq_true.mpr ⟨name, hname, hleaf⟩

theorem matchesAny_filter (names : List String) (hleaf : ¬ leaf.LiesUnder name) :
    leaf.matchesAny (names.filter (· ≠ name)) = leaf.matchesAny names := by
  unfold LeafColumn.matchesAny
  induction names with
  | nil => rfl
  | cons s names ih =>
    by_cases hs : s = name
    · subst hs
      have hno : leaf.matchesPrefix (parseCliPath s) = false := by
        simpa [LeafColumn.LiesUnder] using hleaf
      simpa [hno] using ih
    · rw [List.filter_cons_of_pos (by simpa using hs), List.any_cons, List.any_cons, ih]

theorem resolveDictionary_option {option : DictionaryOption} {config : PipelineConfig}
    (hname : name ∈ option.columns config) (hleaf : leaf.LiesUnder name)
    (heligible : isDictionaryEligible leaf.dataType = true)
    (hoverridden : option.overridden config leaf = false) :
    ColumnPolicies.resolveDictionaryForLeaf leaf config = option.mode leaf := by
  have hmatches := matchesAny_of_mem hname hleaf
  unfold ColumnPolicies.resolveDictionaryForLeaf
  cases option with
  | off =>
    simp only [DictionaryOption.columns] at hmatches
    simp [heligible, hmatches, DictionaryOption.mode]
  | always =>
    simp only [DictionaryOption.columns] at hmatches
    simp only [DictionaryOption.overridden] at hoverridden
    simp [heligible, hmatches, hoverridden, DictionaryOption.mode]
  | analyze =>
    simp only [DictionaryOption.columns] at hmatches
    simp only [DictionaryOption.overridden, Bool.or_eq_false_iff] at hoverridden
    simp [heligible, hmatches, hoverridden, DictionaryOption.mode]

theorem resolveDictionary_without {option : DictionaryOption} {config : PipelineConfig}
    (hleaf : ¬ leaf.LiesUnder name) :
    ColumnPolicies.resolveDictionaryForLeaf leaf (option.without name config) =
      ColumnPolicies.resolveDictionaryForLeaf leaf config := by
  cases option <;>
    simp only [ColumnPolicies.resolveDictionaryForLeaf, DictionaryOption.without,
      matchesAny_filter _ hleaf] <;>
    rfl

theorem dictionaryTakesEffect_iff {option : DictionaryOption} :
    DictionaryTakesEffect schema option name ↔
      ∃ leaf ∈ enumerateLeafColumns schema, leaf.LiesUnder name :=
  ⟨fun h => h.selects, fun h =>
    ⟨h, fun _ hname _ _ => resolveDictionary_option hname, fun _ _ _ => resolveDictionary_without⟩⟩

-- Up to the row group: a leaf whose dotted path no other leaf has finds its own
-- policy in the table.

variable {libraryName : String} {baseProps : WriterProperties} {config : PipelineConfig}
  {analysis : Analysis} {rowCount : Nat}

def rowGroupDictionary (libraryName : String) (schema : Schema) (baseProps : WriterProperties)
    (config : PipelineConfig) (analysis : Analysis) (rowCount : Nat) (leaf : LeafColumn) : Bool :=
  (buildRowGroupProperties libraryName schema baseProps config
    (ColumnPolicies.resolve schema config) analysis rowCount).dictionaryEnabled leaf.path

theorem rowGroupDictionary_eq (hleaf : leaf ∈ enumerateLeafColumns schema)
    (halone : ∀ other ∈ enumerateLeafColumns schema,
      other.parquetPath = leaf.parquetPath → other = leaf) :
    rowGroupDictionary libraryName schema baseProps config analysis rowCount leaf =
      useDictionary (ColumnPolicies.resolveDictionaryForLeaf leaf config) leaf.parquetPath
        leaf.dataType analysis rowCount config := by
  obtain ⟨last, hlast⟩ := lastLeafAt_some hleaf
  have hpath : last.path = leaf.path := by simpa using List.find?_some hlast
  obtain rfl : last = leaf :=
    halone last (List.mem_reverse.mp (List.mem_of_find?_eq_some hlast)) (by
      rw [LeafColumn.parquetPath, hpath, LeafColumn.parquetPath])
  obtain ⟨final, hmem, hfinal, hfinalPath⟩ := lastLeaf_some hleaf
  obtain rfl : final = last := halone final hmem hfinalPath
  rw [rowGroupDictionary, (followsPolicy_last hlast).dictionary, usesDictionary, get_resolve, hfinal]
  rfl

/-- What an option for dictionaries asks for a leaf is what its row groups get,
and other leaves keep what they have without it. -/
theorem dictionary_reaches_rowGroup {option : DictionaryOption}
    (hleaf : leaf ∈ enumerateLeafColumns schema)
    (halone : ∀ other ∈ enumerateLeafColumns schema,
      other.parquetPath = leaf.parquetPath → other = leaf) :
    (name ∈ option.columns config → leaf.LiesUnder name → isDictionaryEligible leaf.dataType = true →
      option.overridden config leaf = false →
        rowGroupDictionary libraryName schema baseProps config analysis rowCount leaf =
          useDictionary (option.mode leaf) leaf.parquetPath leaf.dataType analysis rowCount config) ∧
    (¬ leaf.LiesUnder name →
      rowGroupDictionary libraryName schema baseProps (option.without name config) analysis rowCount
          leaf =
        rowGroupDictionary libraryName schema baseProps config analysis rowCount leaf) := by
  rw [rowGroupDictionary_eq hleaf halone, rowGroupDictionary_eq hleaf halone]
  constructor
  · intro hname hunder heligible hoverridden
    rw [resolveDictionary_option hname hunder heligible hoverridden]
  · intro hunder
    rw [resolveDictionary_without hunder]
    cases option <;> rfl

-- ---------------------------------------------------------------------------
-- Encodings
-- ---------------------------------------------------------------------------

structure RowGroupSettings where
  libraryName : String
  config : PipelineConfig
  resolved : ColumnPolicies
  analysis : Analysis
  rowCount : Nat

def rowGroupEncoding (schema : Schema) (baseProps : WriterProperties) (settings : RowGroupSettings)
    (path : ColumnPath) : Option EncodingCodec :=
  (buildRowGroupProperties settings.libraryName schema baseProps settings.config settings.resolved
    settings.analysis settings.rowCount).encoding path

/-- An encoding option, among others before and after it. Those after it may
concern leaves under its path, too. -/
structure EncodingTakesEffect (showType : DataType → String) (schema : Schema)
    (option : ColumnEncoding) : Prop where
  selects : ∃ leaf ∈ enumerateLeafColumns schema, leaf.LiesUnder option.name
  applies : ∀ (options : OutputConfig) (before after : List ColumnEncoding)
      (baseProps : WriterProperties) (settings : RowGroupSettings),
    baseProperties showType schema
      { options with columnEncodings := before ++ option :: after } = .ok baseProps →
    ∀ leaf ∈ enumerateLeafColumns schema, leaf.LiesUnder option.name →
      (∀ later ∈ after, ¬ leaf.LiesUnder later.name) →
        rowGroupEncoding schema baseProps settings leaf.path = some option.encoding.codec
  spares : ∀ (options : OutputConfig) (before after : List ColumnEncoding)
      (baseProps baseProps' : WriterProperties) (settings : RowGroupSettings),
    baseProperties showType schema
      { options with columnEncodings := before ++ option :: after } = .ok baseProps →
    baseProperties showType schema
      { options with columnEncodings := before ++ after } = .ok baseProps' →
    ∀ leaf ∈ enumerateLeafColumns schema, ¬ leaf.LiesUnder option.name →
      rowGroupEncoding schema baseProps settings leaf.path =
        rowGroupEncoding schema baseProps' settings leaf.path

variable {showType : DataType → String} {option : ColumnEncoding}

theorem liesUnder_of_path (h : parseCliPath name = leaf.path) : leaf.LiesUnder name := by
  rw [LeafColumn.LiesUnder, LeafColumn.matchesPrefix, h, List.isPrefixOf_iff_prefix]

theorem optionEncoding_last {before after : List ColumnEncoding}
    (hpath : parseCliPath option.name = path)
    (hafter : ∀ later ∈ after, parseCliPath later.name ≠ path) :
    optionEncoding (before ++ option :: after) path = some option.encoding := by
  have hnone : after.reverse.find? (fun o => parseCliPath o.name == path) = none := by
    rw [List.find?_eq_none]
    exact fun o ho => by simpa using hafter o (List.mem_reverse.mp ho)
  rw [optionEncoding, List.reverse_append, List.reverse_cons, List.append_assoc,
    List.find?_append, hnone, Option.none_or, List.singleton_append, List.find?_cons, hpath]
  simp

theorem optionEncoding_other {before after : List ColumnEncoding}
    (hpath : parseCliPath option.name ≠ path) :
    optionEncoding (before ++ option :: after) path = optionEncoding (before ++ after) path := by
  simp [optionEncoding, List.find?_append, hpath]

theorem rowGroupEncoding_eq {options : OutputConfig} {baseProps : WriterProperties}
    (hbase : baseProperties showType schema options = .ok baseProps)
    (hleaf : leaf ∈ enumerateLeafColumns schema) (settings : RowGroupSettings) :
    rowGroupEncoding schema baseProps settings leaf.path =
      (((optionEncoding options.columnEncodings leaf.path).or
        (automaticColumnEncoding schema options.writerVersion leaf.path)).or options.encoding).map
          (·.codec) :=
  (encoding_rowGroup hleaf).trans (encoding_baseProperties hbase)

def singleOption (option : ColumnEncoding) : OutputConfig :=
  { plainOptions with writerVersion := .v1, encoding := none, columnEncodings := [option] }

theorem singleOption_ok (h : validateColumnEncodings showType schema [option] = .ok ()) :
    ∃ baseProps, baseProperties showType schema (singleOption option) = .ok baseProps := by
  refine ⟨applyEncodings (singleOption option).settings schema .v1 none [option], ?_⟩
  have hvalid : validateColumnEncodings showType schema (singleOption option).columnEncodings =
      .ok () := h
  unfold baseProperties
  rw [hvalid]
  rfl

theorem encodingTakesEffect_iff (h : validateColumnEncodings showType schema [option] = .ok ()) :
    EncodingTakesEffect showType schema option ↔
      (∃ leaf ∈ enumerateLeafColumns schema, leaf.LiesUnder option.name) ∧
        ∀ leaf ∈ enumerateLeafColumns schema, leaf.LiesUnder option.name →
          leaf.path = parseCliPath option.name := by
  constructor
  · refine fun heffect => ⟨heffect.selects, fun leaf hleaf hunder => ?_⟩
    by_contra hne
    obtain ⟨baseProps, hbase⟩ := singleOption_ok h
    have hset := heffect.applies (singleOption option) [] [] baseProps
      ⟨"", .default, ⟨[]⟩, [], 0⟩ hbase leaf hleaf hunder (by simp)
    rw [rowGroupEncoding_eq hbase hleaf] at hset
    simp [singleOption, optionEncoding, Ne.symm hne, automaticColumnEncoding] at hset
  · rintro ⟨hselects, hexact⟩
    refine ⟨hselects, ?_, ?_⟩
    · intro options before after baseProps settings hbase leaf hleaf hunder hafter
      rw [rowGroupEncoding_eq hbase hleaf, optionEncoding_last (hexact leaf hleaf hunder).symm]
      · rfl
      · exact fun later hlater heq => hafter later hlater (liesUnder_of_path heq)
    · intro options before after baseProps baseProps' settings hbase hbase' leaf hleaf hnot
      have hpath : parseCliPath option.name ≠ leaf.path := fun heq => hnot (liesUnder_of_path heq)
      rw [rowGroupEncoding_eq hbase hleaf, rowGroupEncoding_eq hbase' hleaf,
        optionEncoding_other hpath]

/-- An option for dictionaries takes effect exactly when there is a leaf under
its path. An accepted option for encodings takes effect exactly when, moreover,
every such leaf is at the path itself. -/
theorem column_options_iff (showType : DataType → String) (schema : Schema) :
    (∀ option name, DictionaryTakesEffect schema option name ↔
      ∃ leaf ∈ enumerateLeafColumns schema, leaf.LiesUnder name) ∧
    ∀ option, validateColumnEncodings showType schema [option] = .ok () →
      (EncodingTakesEffect showType schema option ↔
        (∃ leaf ∈ enumerateLeafColumns schema, leaf.LiesUnder option.name) ∧
          ∀ leaf ∈ enumerateLeafColumns schema, leaf.LiesUnder option.name →
            leaf.path = parseCliPath option.name) :=
  ⟨fun _ _ => dictionaryTakesEffect_iff, fun _ => encodingTakesEffect_iff⟩

def userSchema : Schema :=
  [.mk "user" (.struct [.mk "name" .utf8 true, .mk "age" .int64 true]) true,
    .mk "tags" (.list (.mk "item" .utf8 true)) true]

theorem column_options_iff_user :
    (EncodingTakesEffect (fun _ => "") userSchema ⟨"user.name", .deltaByteArray⟩ ↔
      (∃ leaf ∈ enumerateLeafColumns userSchema, leaf.LiesUnder "user.name") ∧
        ∀ leaf ∈ enumerateLeafColumns userSchema, leaf.LiesUnder "user.name" →
          leaf.path = parseCliPath "user.name") :=
  (column_options_iff (fun _ => "") userSchema).2 ⟨"user.name", .deltaByteArray⟩ (by decide)

/-- An encoding for a struct and a dictionary for what is no part of a list are
accepted, and neither concerns a leaf as it says. -/
theorem column_options_ignored :
    validateColumnEncodings (fun _ => "") userSchema [⟨"user", .plain⟩] = .ok () ∧
    ¬ EncodingTakesEffect (fun _ => "") userSchema ⟨"user", .plain⟩ ∧
    validateColumnDictionary userSchema ["tags.item"] [] = .ok () ∧
    ¬ DictionaryTakesEffect userSchema .always "tags.item" := by
  refine ⟨by decide, ?_, by decide, ?_⟩
  · rw [encodingTakesEffect_iff (by decide)]
    decide
  · rw [dictionaryTakesEffect_iff]
    decide

end SilkChiffon.Parquet
