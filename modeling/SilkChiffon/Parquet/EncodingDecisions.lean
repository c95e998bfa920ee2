import SilkChiffon.Parquet.RowGroupProperties

/-!
# Encoding decisions

The documented policy for dictionaries and Bloom filters, stated for a leaf in
one step, and how the properties of a row group follow it.
-/

namespace SilkChiffon.Parquet

open Arrow Rounding
open ColumnReference (ColumnAnalysis isAnalyzable)

-- ---------------------------------------------------------------------------
-- The documented policy
-- ---------------------------------------------------------------------------

def lowCardinality (config : PipelineConfig) (rowCount : Nat) (leaf : LeafColumn)
    (analysis : ColumnAnalysis Float64) : Bool :=
  5 * analysis.approxDistinct < rowCount ∧
    estimateDictionarySize analysis leaf.dataType ≤ config.dictionaryPageSizeLimit

def keepsDictionary (config : PipelineConfig) (analysis : Analysis) (rowCount : Nat)
    (leaf : LeafColumn) : Bool :=
  isDictionaryEligible leaf.dataType && !leaf.matchesAny config.userDisabledDictionary &&
    (leaf.matchesAny config.userEnabledDictionaryAlways ||
      (leaf.matchesAny config.userEnabledDictionaryAnalyze || config.dictionaryEnabledDefault) &&
        (leaf.isNested || !isAnalyzable leaf.dataType ||
          (analysis.lookup leaf.parquetPath).any (lowCardinality config rowCount leaf)))

/-- The first entry for a column above the leaf, or the entry for all. -/
def selectedBloomFilter (bloom : BloomFilterPolicy) (leaf : LeafColumn) :
    Option BloomFilterSettings :=
  ((bloom.columnEnabled.find? fun c => leaf.matchesPrefix (parseCliPath c.name)).map (·.config)).or
    bloom.allEnabled

def wantedBloomFilter (config : PipelineConfig) (analysis : Analysis) (rowCount : Nat)
    (leaf : LeafColumn) : Option BloomFilterProperties :=
  match config.bloomFilterConfig with
  | none => none
  | some bloom =>
    if !isBloomFilterEligible leaf.dataType || leaf.matchesAny bloom.columnDisabled then none
    else
      match selectedBloomFilter bloom leaf with
      | none => none
      | some selected =>
        match selected.ndv.or (ColumnPolicies.ndvFromMap leaf config) with
        | some ndv => some ⟨selected.fpp, ndv⟩
        | none =>
          if keepsDictionary config analysis rowCount leaf then
            (analysis.lookup leaf.parquetPath).map fun a => ⟨selected.fpp, a.approxDistinct⟩
          else none

structure Decision where
  dictionary : Bool
  bloomFilter : Option BloomFilterProperties
  deriving DecidableEq

def documentedDecision (config : PipelineConfig) (analysis : Analysis) (rowCount : Nat)
    (leaf : LeafColumn) : Decision :=
  ⟨keepsDictionary config analysis rowCount leaf, wantedBloomFilter config analysis rowCount leaf⟩

/-- The properties of a row group as the policy and the base properties have
them for a leaf. -/
structure FollowsPolicy (props baseProps : WriterProperties) (decision : Decision)
    (path : ColumnPath) : Prop where
  dictionary : props.dictionaryEnabled path = decision.dictionary
  bloomFilter : props.bloomFilterProperties path = decision.bloomFilter
  compression : props.compression path = baseProps.compression path
  statistics : props.statisticsEnabled path = baseProps.statisticsEnabled path
  pageHeaderStatistics :
    props.writePageHeaderStatistics path = baseProps.writePageHeaderStatistics path
  encoding : props.encoding path = baseProps.encoding path

-- ---------------------------------------------------------------------------
-- A leaf's own policy
-- ---------------------------------------------------------------------------

variable {config : PipelineConfig} {analysis : Analysis} {rowCount : Nat} {leaf : LeafColumn}

theorem shouldUseDictionary_eq {a : ColumnAnalysis Float64} (hrows : rowCount < 2 ^ 50)
    (hdistinct : a.approxDistinct < 2 ^ 50) :
    shouldUseDictionary a rowCount leaf.dataType config.dictionaryPageSizeLimit =
      lowCardinality config rowCount leaf a := by
  unfold shouldUseDictionary lowCardinality
  by_cases hzero : rowCount = 0
  · simp [hzero]
  have hratio : roundToDouble (1 / dictionaryCardinalityThresholdDivisor) ≤
      roundToDouble (roundToDouble a.approxDistinct / roundToDouble rowCount) ↔
        rowCount ≤ 5 * a.approxDistinct := by
    rw [roundToDouble_natCast (by omega), roundToDouble_natCast (by omega)]
    exact roundToDouble_unitFraction_le (by decide) (Nat.pos_of_ne_zero hzero) hrows
  simp only [hzero, if_false, hratio]
  by_cases hle : rowCount ≤ 5 * a.approxDistinct
  · have hnot : ¬ 5 * a.approxDistinct < rowCount := by omega
    simp [hle, hnot]
  · have hlt : 5 * a.approxDistinct < rowCount := by omega
    simp [hle, hlt]

theorem useDictionary_own (hne : leaf.path ≠ []) (hrows : rowCount < 2 ^ 50)
    (hdistinct : ∀ p ∈ analysis, p.2.approxDistinct < 2 ^ 50) :
    useDictionary (ColumnPolicies.resolveDictionaryForLeaf leaf config) leaf.parquetPath
        leaf.dataType analysis rowCount config =
      keepsDictionary config analysis rowCount leaf := by
  have hanalyze : useDictionary .analyze leaf.parquetPath leaf.dataType analysis rowCount config =
      (analysis.lookup leaf.parquetPath).any (lowCardinality config rowCount leaf) := by
    cases hlookup : analysis.lookup leaf.parquetPath with
    | none => simp [useDictionary, hlookup]
    | some a =>
      have hmem : (leaf.parquetPath, a) ∈ analysis := by
        obtain ⟨before, after, rfl, _⟩ := List.lookup_eq_some_iff.mp hlookup
        simp
      simp [useDictionary, hlookup, shouldUseDictionary_eq hrows (hdistinct _ hmem)]
  have hsingle : leaf.path.length = 1 ↔ leaf.isNested = false := by
    have hpos := List.length_pos_of_ne_nil hne
    simp [LeafColumn.isNested]
    omega
  unfold ColumnPolicies.resolveDictionaryForLeaf keepsDictionary
  cases isDictionaryEligible leaf.dataType with
  | false => rfl
  | true =>
    cases leaf.matchesAny config.userDisabledDictionary with
    | true => rfl
    | false =>
      cases leaf.matchesAny config.userEnabledDictionaryAlways with
      | true => rfl
      | false =>
        cases hanalyzed : leaf.matchesAny config.userEnabledDictionaryAnalyze <;>
          cases hdefault : config.dictionaryEnabledDefault <;>
          cases hnested : leaf.isNested <;> cases hcan : isAnalyzable leaf.dataType <;>
          simp [hsingle, hnested, hanalyze] <;> rfl

def resolvedBloomFilter (mode : ResolvedBloomFilterMode) (useDict : Bool) (leafPath : String)
    (analysis : Analysis) : Option BloomFilterProperties :=
  match mode with
  | .disabled => none
  | .enabled fpp ndv =>
    if ndv.isSome || useDict then
      (ndv.or ((analysis.lookup leafPath).map (·.approxDistinct))).map fun n => ⟨fpp, n⟩
    else none

theorem isAnalyzable_of_bloomFilterEligible {t : DataType} (h : isBloomFilterEligible t = true) :
    isAnalyzable t = true := by
  cases t <;> first | rfl | cases h

theorem resolvedBloomFilter_own
    (hnested : leaf.isNested = true → analysis.lookup leaf.parquetPath = none) :
    resolvedBloomFilter (ColumnPolicies.resolveBloomForLeaf leaf config)
        (keepsDictionary config analysis rowCount leaf) leaf.parquetPath analysis =
      wantedBloomFilter config analysis rowCount leaf := by
  unfold ColumnPolicies.resolveBloomForLeaf wantedBloomFilter
  cases heligible : isBloomFilterEligible leaf.dataType with
  | false => cases config.bloomFilterConfig <;> rfl
  | true =>
    have hcan := isAnalyzable_of_bloomFilterEligible heligible
    cases config.bloomFilterConfig with
    | none => rfl
    | some bloom =>
      cases hdisabled : leaf.matchesAny bloom.columnDisabled with
      | true => simp [hdisabled, resolvedBloomFilter]
      | false =>
        have henabled : ∀ selected : BloomFilterSettings,
            resolvedBloomFilter (.enabled selected.fpp
                (selected.ndv.or (ColumnPolicies.ndvFromMap leaf config)))
              (keepsDictionary config analysis rowCount leaf) leaf.parquetPath analysis =
            match selected.ndv.or (ColumnPolicies.ndvFromMap leaf config) with
            | some ndv => some ⟨selected.fpp, ndv⟩
            | none =>
              if keepsDictionary config analysis rowCount leaf then
                (analysis.lookup leaf.parquetPath).map fun a => ⟨selected.fpp, a.approxDistinct⟩
              else none := by
          intro selected
          cases selected.ndv.or (ColumnPolicies.ndvFromMap leaf config) <;>
            simp [resolvedBloomFilter, Function.comp_def]
        cases hfind : bloom.columnEnabled.find?
            fun c => leaf.matchesPrefix (parseCliPath c.name) with
        | some colCfg => simp [selectedBloomFilter, hdisabled, hfind, hcan, henabled]
        | none =>
          cases hall : bloom.allEnabled with
          | none => simp [selectedBloomFilter, hdisabled, hfind, hall, resolvedBloomFilter]
          | some all =>
            simp only [selectedBloomFilter, hdisabled, hfind, hall, Option.map_none, Option.none_or,
              hcan, Bool.not_true, Bool.false_eq_true, if_false, Bool.or_self, or_false]
            rw [← henabled]
            split
            · rename_i hnone
              obtain ⟨hnone, hblocked⟩ := hnone
              have hlookup := hnested hblocked
              simp [resolvedBloomFilter, hnone, hlookup]
            · rfl

-- ---------------------------------------------------------------------------
-- What a leaf is configured with
-- ---------------------------------------------------------------------------

variable {schema : Schema} {baseProps : WriterProperties} {resolved : ColumnPolicies}
  {libraryName : String}

def usesDictionary (config : PipelineConfig) (resolved : ColumnPolicies) (analysis : Analysis)
    (rowCount : Nat) (leaf : LeafColumn) : Bool :=
  useDictionary (((resolved.get leaf.parquetPath).map (·.dictionary)).getD .notEligible)
    leaf.parquetPath leaf.dataType analysis rowCount config

def bloomFilterOf (config : PipelineConfig) (resolved : ColumnPolicies) (analysis : Analysis)
    (rowCount : Nat) (leaf : LeafColumn) : Option BloomFilterProperties :=
  resolvedBloomFilter (((resolved.get leaf.parquetPath).map (·.bloomFilter)).getD .disabled)
    (usesDictionary config resolved analysis rowCount leaf) leaf.parquetPath analysis

def leafProperties (baseProps : WriterProperties) (config : PipelineConfig)
    (resolved : ColumnPolicies) (analysis : Analysis) (rowCount : Nat) (leaf : LeafColumn)
    (c : ColumnProperties) : ColumnProperties where
  encoding := (baseProps.encoding leaf.path).or c.encoding
  codec := some (baseProps.compression leaf.path)
  dictionaryEnabled := some (usesDictionary config resolved analysis rowCount leaf)
  statisticsEnabled := some (baseProps.statisticsEnabled leaf.path)
  writePageHeaderStatistics :=
    if baseProps.writePageHeaderStatistics leaf.path then some true
    else c.writePageHeaderStatistics
  bloomFilterProperties := bloomFilterOf config resolved analysis rowCount leaf

theorem setBloomFilter_eq (builder : WriterProperties) (path : ColumnPath) :
    setBloomFilter builder path leafPath mode useDict analysis =
      builder.setColumn path fun c =>
        { c with bloomFilterProperties := resolvedBloomFilter mode useDict leafPath analysis } := by
  have hoff : builder.setColumnBloomFilterEnabled path false =
      builder.setColumn path fun c => { c with bloomFilterProperties := none } := rfl
  cases mode with
  | disabled => exact hoff
  | enabled fpp ndv =>
    unfold setBloomFilter resolvedBloomFilter
    cases hwanted : ndv.isSome || useDict with
    | false =>
      obtain ⟨hndv, huse⟩ := Bool.or_eq_false_iff.mp hwanted
      simp [hndv, huse, hoff]
    | true =>
      have henable : (if ndv.isSome = true then true else useDict) = true := by
        cases hndv : ndv.isSome <;> simp_all
      simp only [henable, hwanted, if_true]
      cases ndv.or ((analysis.lookup leafPath).map (·.approxDistinct)) with
      | none => exact hoff
      | some n =>
        simp only [WriterProperties.setColumnBloomFilterEnabled,
          WriterProperties.setColumnBloomFilterFpp, WriterProperties.setColumnBloomFilterNdv,
          WriterProperties.setColumn_setColumn]
        rfl

theorem configureLeafEncoding_eq (builder : WriterProperties) (leaf : LeafColumn) :
    configureLeafEncoding builder leaf.path leaf.parquetPath leaf.dataType analysis rowCount config
        resolved baseProps =
      builder.setColumn leaf.path
        (leafProperties baseProps config resolved analysis rowCount leaf) := by
  unfold configureLeafEncoding
  simp only [setBloomFilter_eq, WriterProperties.setColumnDictionaryEnabled,
    WriterProperties.setColumnCompression, WriterProperties.setColumnStatisticsEnabled,
    WriterProperties.setColumnWritePageHeaderStatistics, WriterProperties.setColumnEncoding,
    WriterProperties.setColumn_setColumn]
  cases hheader : baseProps.writePageHeaderStatistics leaf.path <;>
    cases hencoding : baseProps.encoding leaf.path <;>
    simp only [Bool.false_eq_true, if_false, if_true, WriterProperties.setColumn_setColumn] <;>
    congr 1 <;> funext c <;>
    simp [leafProperties, usesDictionary, bloomFilterOf, hheader, hencoding]

def lastLeafAt (schema : Schema) (path : ColumnPath) : Option LeafColumn :=
  (enumerateLeafColumns schema).reverse.find? (·.path == path)

theorem leafProperties_replace {leaf leaf' : LeafColumn} (h : leaf.path = leaf'.path)
    (c : ColumnProperties) :
    leafProperties baseProps config resolved analysis rowCount leaf
        (leafProperties baseProps config resolved analysis rowCount leaf' c) =
      leafProperties baseProps config resolved analysis rowCount leaf c := by
  unfold leafProperties
  rw [h]
  cases baseProps.writePageHeaderStatistics leaf'.path <;>
    cases baseProps.encoding leaf'.path <;> rfl

theorem buildRowGroupProperties_eq : buildRowGroupProperties libraryName schema baseProps config
    resolved analysis rowCount = (enumerateLeafColumns schema).foldl (fun props leaf =>
      props.setColumn leaf.path (leafProperties baseProps config resolved analysis rowCount leaf))
      (newRowGroupProperties libraryName baseProps) := by
  unfold buildRowGroupProperties
  simp only [configureLeafEncoding_eq]

theorem followsPolicy_last (hlast : lastLeafAt schema path = some last) :
    FollowsPolicy (buildRowGroupProperties libraryName schema baseProps config resolved analysis
      rowCount) baseProps
      ⟨usesDictionary config resolved analysis rowCount last,
        bloomFilterOf config resolved analysis rowCount last⟩ path := by
  have hpath : last.path = path := by simpa using List.find?_some hlast
  have hcolumn : (buildRowGroupProperties libraryName schema baseProps config resolved analysis
      rowCount).column path =
        leafProperties baseProps config resolved analysis rowCount last {} := by
    rw [buildRowGroupProperties_eq, WriterProperties.column_foldl_setColumn LeafColumn.path _
      fun _ _ c h => leafProperties_replace h c]
    rw [lastLeafAt] at hlast
    rw [hlast]
    rfl
  have hdefaults : (buildRowGroupProperties libraryName schema baseProps config resolved analysis
      rowCount).defaults = (newRowGroupProperties libraryName baseProps).defaults := by
    rw [buildRowGroupProperties_eq, WriterProperties.defaults_foldl_setColumn]
  constructor
  · simp [WriterProperties.dictionaryEnabled, hcolumn, leafProperties]
  · simp [WriterProperties.bloomFilterProperties, hcolumn, hdefaults, leafProperties,
      newRowGroupProperties]
  · simp [WriterProperties.compression, hcolumn, leafProperties, hpath]
  · simp [WriterProperties.statisticsEnabled, hcolumn, leafProperties, hpath]
  · have hheader : ∀ b : Bool, ((if b then some true else none).or none).getD false = b := by decide
    rw [WriterProperties.writePageHeaderStatistics, hcolumn, hdefaults, leafProperties,
      newRowGroupProperties, hpath]
    exact hheader _
  · simp [WriterProperties.encoding, hcolumn, hdefaults, leafProperties, newRowGroupProperties,
      hpath]

-- ---------------------------------------------------------------------------
-- Leaves that share a dotted path
-- ---------------------------------------------------------------------------

theorem find?_of_imp {p q : α → Bool} {l : List α} (h : l.find? q = some a) (ha : p a = true)
    (himp : ∀ x, p x = true → q x = true) : l.find? p = some a := by
  obtain ⟨_, before, after, rfl, hbefore⟩ := List.find?_eq_some_iff_append.mp h
  refine List.find?_eq_some_iff_append.mpr ⟨ha, before, after, rfl, fun x hx => ?_⟩
  have hq := hbefore x hx
  cases hp : p x with
  | false => rfl
  | true => simp [himp x hp] at hq

theorem path_eq_of_single {other : LeafColumn} (hpath : leaf.path = [name])
    (hdot : '.' ∉ name.toList) (hne : other.path ≠ []) (h : other.parquetPath = leaf.parquetPath) :
    other.path = [name] := by
  rw [parquetPath_topLevel hpath] at h
  match hother : other.path with
  | [] => exact absurd hother hne
  | [name'] =>
    rw [parquetPath_topLevel hother] at h
    rw [h]
  | first :: second :: rest =>
    refine absurd ?_ hdot
    rw [← h, parquetPath_nested hother]
    simp

theorem parquetPath_dotted (h : leaf.isNested = true) : '.' ∈ leaf.parquetPath.toList := by
  match hpath : leaf.path with
  | [] => simp [LeafColumn.isNested, hpath] at h
  | [_] => simp [LeafColumn.isNested, hpath] at h
  | first :: second :: rest =>
    rw [parquetPath_nested hpath]
    simp

theorem resolveDictionaryForLeaf_nested (h : leaf.isNested = true) :
    ColumnPolicies.resolveDictionaryForLeaf leaf config ≠ .analyze := by
  have hlength : leaf.path.length ≠ 1 := by
    simp [LeafColumn.isNested] at h
    omega
  unfold ColumnPolicies.resolveDictionaryForLeaf
  simp only [hlength, false_and, if_false, h, true_or, if_true]
  split_ifs <;> simp

theorem useDictionary_congr (h : mode ≠ .analyze) (t t' : DataType) :
    useDictionary mode leafPath t analysis rowCount config =
      useDictionary mode leafPath t' analysis rowCount config := by
  cases mode with
  | analyze => exact absurd rfl h
  | notEligible => rfl
  | disabled => rfl
  | always => rfl

/-- An analysis of columns that were asked for, with counts that doubles tell
apart. -/
structure AnalysisOf (schema : Schema) (config : PipelineConfig) (analysis : Analysis) : Prop where
  asked : ∀ p ∈ analysis,
    p.1 ∈ (ColumnPolicies.resolve schema config).columnsNeedingAnalysis
  small : ∀ p ∈ analysis, p.2.approxDistinct < 2 ^ 50

theorem AnalysisOf.lookup_nested (h : AnalysisOf schema config analysis)
    (hnested : leaf.isNested = true) : analysis.lookup leaf.parquetPath = none := by
  rw [List.lookup_eq_none_iff]
  intro p hp
  have hdot := columnsNeedingAnalysis_undotted (h.asked p hp)
  have hne : leaf.parquetPath ≠ p.1 := fun heq => hdot (heq ▸ parquetPath_dotted hnested)
  simpa using hne

theorem path_ne_nil (h : leaf ∈ enumerateLeafColumns schema) : leaf.path ≠ [] := by
  obtain ⟨field, _, hfield⟩ := mem_enumerateLeafColumns.mp h
  obtain ⟨_, rest, hrest⟩ := mem_fieldLeaves hfield
  rw [hrest]
  exact List.cons_ne_nil _ _

theorem undotted_of_single (hdots : ∀ field ∈ schema, '.' ∉ field.name.toList)
    (h : leaf ∈ enumerateLeafColumns schema) (hpath : leaf.path = [name]) : '.' ∉ name.toList := by
  obtain ⟨field, hfield, hleaf⟩ := mem_enumerateLeafColumns.mp h
  obtain ⟨_, rest, hrest⟩ := mem_fieldLeaves hleaf
  rw [hpath] at hrest
  rw [(List.cons.inj hrest).1]
  exact hdots field hfield

/-- A leaf gets what the policy says about the last leaf of its dotted path. -/
theorem decision_last (hdots : ∀ field ∈ schema, '.' ∉ field.name.toList)
    (hrows : rowCount < 2 ^ 50) (hanalysis : AnalysisOf schema config analysis)
    (hleaf : leaf ∈ enumerateLeafColumns schema)
    (hfinal : lastLeaf schema leaf.parquetPath = some final)
    (hlast : lastLeafAt schema leaf.path = some last) :
    (⟨usesDictionary config (ColumnPolicies.resolve schema config) analysis rowCount last,
      bloomFilterOf config (ColumnPolicies.resolve schema config) analysis rowCount last⟩ :
        Decision) = documentedDecision config analysis rowCount final := by
  have hlastPath : last.path = leaf.path := by simpa using List.find?_some hlast
  have hfinalPath : final.parquetPath = leaf.parquetPath := by simpa using List.find?_some hfinal
  have hsame : last.parquetPath = final.parquetPath := by
    rw [hfinalPath, LeafColumn.parquetPath, hlastPath, LeafColumn.parquetPath]
  have hfinalMem : final ∈ enumerateLeafColumns schema :=
    List.mem_reverse.mp (List.mem_of_find?_eq_some hfinal)
  have hget : (ColumnPolicies.resolve schema config).get last.parquetPath =
      some (ColumnPolicies.resolveLeaf final config) := by
    rw [get_resolve, hsame, hfinalPath, hfinal]
    rfl
  have hdictionary : usesDictionary config (ColumnPolicies.resolve schema config) analysis rowCount
      last = keepsDictionary config analysis rowCount final := by
    rw [← useDictionary_own (path_ne_nil hfinalMem) hrows hanalysis.small, usesDictionary, hget,
      hsame]
    by_cases hpath : final.path = leaf.path
    · have heq : lastLeafAt schema leaf.path = some final :=
        find?_of_imp hfinal (by simpa using hpath) fun x hx => by
          have hx : x.path = leaf.path := by simpa using hx
          simp [LeafColumn.parquetPath, hx]
      obtain rfl := Option.some.inj (hlast.symm.trans heq)
      rfl
    · -- Two different paths are joined alike, so that both have dots and lie deeper.
      refine useDictionary_congr (resolveDictionaryForLeaf_nested ?_) _ _
      by_contra hnot
      have hsingle : ∃ name, final.path = [name] := by
        rw [← List.length_eq_one_iff]
        have hpos := List.length_pos_of_ne_nil (path_ne_nil hfinalMem)
        simp [LeafColumn.isNested] at hnot
        omega
      obtain ⟨name, hname⟩ := hsingle
      have hleafPath := path_eq_of_single hname (undotted_of_single hdots hfinalMem hname)
        (path_ne_nil hleaf) hfinalPath.symm
      exact hpath (hname.trans hleafPath.symm)
  rw [documentedDecision, hdictionary, bloomFilterOf, hdictionary, hget, hsame]
  congr 1
  exact resolvedBloomFilter_own hanalysis.lookup_nested

theorem lastLeafAt_some (h : leaf ∈ enumerateLeafColumns schema) :
    ∃ last, lastLeafAt schema leaf.path = some last := by
  rw [← Option.isSome_iff_exists, lastLeafAt, List.find?_isSome]
  exact ⟨leaf, List.mem_reverse.mpr h, by simp⟩

theorem FollowsPolicy.decision_inj {decision decision' : Decision}
    (h : FollowsPolicy props baseProps decision path)
    (h' : FollowsPolicy props baseProps decision' path) : decision = decision' := by
  obtain ⟨dictionary, bloomFilter⟩ := decision
  obtain ⟨dictionary', bloomFilter'⟩ := decision'
  obtain rfl : dictionary = dictionary' := h.dictionary.symm.trans h'.dictionary
  obtain rfl : bloomFilter = bloomFilter' := h.bloomFilter.symm.trans h'.bloomFilter
  rfl

/-- The properties of a row group follow the documented policy and the base
properties at every leaf, exactly when the policy says the same about leaves
that share a dotted path. -/
theorem encoding_decisions_iff (libraryName : String) (schema : Schema)
    (baseProps : WriterProperties) (config : PipelineConfig) (analysis : Analysis) (rowCount : Nat)
    (hdots : ∀ field ∈ schema, '.' ∉ field.name.toList) (hrows : rowCount < 2 ^ 50)
    (hanalysis : AnalysisOf schema config analysis) :
    (∀ leaf ∈ enumerateLeafColumns schema,
      FollowsPolicy (buildRowGroupProperties libraryName schema baseProps config
        (ColumnPolicies.resolve schema config) analysis rowCount) baseProps
        (documentedDecision config analysis rowCount leaf) leaf.path) ↔
    ∀ leaf ∈ enumerateLeafColumns schema, ∀ other ∈ enumerateLeafColumns schema,
      leaf.parquetPath = other.parquetPath →
        documentedDecision config analysis rowCount leaf =
          documentedDecision config analysis rowCount other := by
  have hfollows : ∀ {leaf final}, leaf ∈ enumerateLeafColumns schema →
      lastLeaf schema leaf.parquetPath = some final →
      FollowsPolicy (buildRowGroupProperties libraryName schema baseProps config
        (ColumnPolicies.resolve schema config) analysis rowCount) baseProps
        (documentedDecision config analysis rowCount final) leaf.path := by
    intro leaf final hleaf hfinal
    obtain ⟨last, hlast⟩ := lastLeafAt_some hleaf
    rw [← decision_last hdots hrows hanalysis hleaf hfinal hlast]
    exact followsPolicy_last hlast
  constructor
  · intro hall leaf hleaf other hother hpath
    obtain ⟨final, _, hfinal, _⟩ := lastLeaf_some hleaf
    have hsame := (hall leaf hleaf).decision_inj (hfollows hleaf hfinal)
    rw [hpath] at hfinal
    exact hsame.trans ((hall other hother).decision_inj (hfollows hother hfinal)).symm
  · intro halike leaf hleaf
    obtain ⟨final, hmem, hfinal, hpath⟩ := lastLeaf_some hleaf
    rw [halike leaf hleaf final hmem hpath.symm]
    exact hfollows hleaf hfinal

def dottedFieldSchema : Schema :=
  [.mk "a" (.struct [.mk "b.c" .utf8 true, .mk "b" (.struct [.mk "c" .float64 true]) true]) true]

def countrySchema : Schema := dottedFieldSchema ++ [.mk "country" .utf8 true]

def countryAnalysis : Analysis := [("country", ⟨40, none⟩)]

theorem countryAnalysis_of : AnalysisOf countrySchema .default countryAnalysis where
  asked p hp := by
    obtain rfl := List.mem_singleton.mp hp
    refine mem_columnsNeedingAnalysis.mpr ⟨("country", ⟨.analyze, .disabled⟩), ?_, rfl, by decide⟩
    decide
  small p hp := by
    obtain rfl := List.mem_singleton.mp hp
    decide

theorem encoding_decisions_iff_country :
    (∀ leaf ∈ enumerateLeafColumns countrySchema,
      FollowsPolicy (buildRowGroupProperties "parquet-rs" countrySchema emptyProperties .default
        (ColumnPolicies.resolve countrySchema .default) countryAnalysis 1000) emptyProperties
        (documentedDecision .default countryAnalysis 1000 leaf) leaf.path) ↔
    ∀ leaf ∈ enumerateLeafColumns countrySchema,
      ∀ other ∈ enumerateLeafColumns countrySchema, leaf.parquetPath = other.parquetPath →
        documentedDecision .default countryAnalysis 1000 leaf =
          documentedDecision .default countryAnalysis 1000 other :=
  encoding_decisions_iff "parquet-rs" countrySchema emptyProperties .default countryAnalysis 1000
    (by decide) (by decide) countryAnalysis_of

/-- The policy gives the text in the field `b.c` a dictionary, and the row group
does not. -/
theorem encoding_decisions_mixed :
    (∀ field ∈ dottedFieldSchema, '.' ∉ field.name.toList) ∧
    ∃ leaf ∈ enumerateLeafColumns dottedFieldSchema,
      (documentedDecision .default [] 1000 leaf).dictionary = true ∧
      (buildRowGroupProperties "parquet-rs" dottedFieldSchema emptyProperties .default
        (ColumnPolicies.resolve dottedFieldSchema .default) [] 1000).dictionaryEnabled leaf.path =
          false :=
  ⟨by decide, ⟨["a", "b.c"], "a", .utf8⟩, List.mem_cons_self, by decide, by decide⟩

end SilkChiffon.Parquet
