import SilkChiffon.Parquet.ColumnEncodings

/-!
# Cardinality analysis

Before a row group is encoded, the columns that need a count are analyzed. The
columns to ask for are told from the dotted paths of the leaves that need it;
the answer is looked up under the dotted path again.
-/

namespace SilkChiffon.Parquet

open Arrow
open ColumnReference (ColumnAnalysis isAnalyzable analyzableColumns IdentifierParser PlanError
  AggregateFunction DFSchema col planAnalysis runStreamingAnalysis extractAnalysisFromResults
  columnAggregates)

inductive AnalysisError
  | noColumns
  | duplicateNames
  | plan (error : PlanError)
  deriving DecidableEq

/-- The analysis of one row group. DataFusion scans no table that has two
columns of one name. -/
def analyzeRowGroup (parse : IdentifierParser)
    (eval : AggregateFunction → String → ColumnReference.Cell Float64) (schema : Schema)
    (columns : List String) : Except AnalysisError Analysis :=
  if columns = [] then .error .noColumns
  else if analyzableColumns schema columns ≠ [] ∧ ¬ schema.names.Nodup then .error .duplicateNames
  else
    match runStreamingAnalysis parse eval schema columns with
    | .ok analysis => .ok analysis
    | .error error => .error (.plan error)

/-- What `ingestion_task` knows of a row group: nothing when no column is asked
for. -/
def rowGroupAnalysis (parse : IdentifierParser)
    (eval : AggregateFunction → String → ColumnReference.Cell Float64) (schema : Schema)
    (config : PipelineConfig) : Except AnalysisError Analysis :=
  let columnsToAnalyze := (ColumnPolicies.resolve schema config).columnsNeedingAnalysis
  if columnsToAnalyze = [] then .ok []
  else analyzeRowGroup parse eval schema columnsToAnalyze

def NeedsCount (schema : Schema) (config : PipelineConfig) (leaf : LeafColumn) : Prop :=
  ∃ cfg, (ColumnPolicies.resolve schema config).get leaf.parquetPath = some cfg ∧
    cfg.needsAnalysis = true

/-- The columns asked for exist and can be analyzed, the analysis does not fail
the write, and whoever needs a count finds one. -/
structure AnalysisServes (parse : IdentifierParser)
    (eval : AggregateFunction → String → ColumnReference.Cell Float64) (schema : Schema)
    (config : PipelineConfig) : Prop where
  existing : ∀ name ∈ (ColumnPolicies.resolve schema config).columnsNeedingAnalysis,
    ∃ field, schema.fieldWithName name = some field ∧ isAnalyzable field.dataType = true
  covers : ∃ analysis, rowGroupAnalysis parse eval schema config = .ok analysis ∧
    ∀ leaf ∈ enumerateLeafColumns schema, NeedsCount schema config leaf →
      (analysis.lookup leaf.parquetPath).isSome = true

/-- Only top-level columns need a count, none of which has a dot in its name,
and where there is one, names are distinct and the column's name is found when
it is read as an SQL identifier. -/
structure Countable (parse : IdentifierParser) (schema : Schema) (config : PipelineConfig) :
    Prop where
  topLevel : ∀ leaf ∈ enumerateLeafColumns schema, NeedsCount schema config leaf →
    leaf.isNested = false ∧ '.' ∉ leaf.topLevel.toList
  distinct : ∀ leaf ∈ enumerateLeafColumns schema, NeedsCount schema config leaf →
    schema.names.Nodup
  found : ∀ leaf ∈ enumerateLeafColumns schema, NeedsCount schema config leaf →
    ∃ name, DFSchema.resolve ⟨some ["data"], schema⟩ (col parse leaf.topLevel) = .ok name

-- ---------------------------------------------------------------------------
-- The analysis
-- ---------------------------------------------------------------------------

variable {parse : IdentifierParser}
  {eval : AggregateFunction → String → ColumnReference.Cell Float64} {schema : Schema}
  {columns : List String} {config : PipelineConfig} {leaf : LeafColumn} {name : String}

/-- A query is planned as soon as every column is found, be it another one. -/
theorem planAnalysis_isOk : (∃ plan, planAnalysis parse schema columns = .ok plan) ↔
    analyzableColumns schema columns ≠ [] ∧ ∀ name ∈ analyzableColumns schema columns,
      ∃ resolved, DFSchema.resolve ⟨some ["data"], schema⟩ (col parse name) = .ok resolved := by
  unfold planAnalysis
  by_cases hnil : analyzableColumns schema columns = []
  · simp [hnil]
  rw [if_neg hnil, DFSchema.aggregate, Lists.exists_mapM_ok]
  have hok : ∀ {e : ColumnReference.AggregateExpr ColumnReference.Column},
      (∃ b, ((DFSchema.resolve ⟨some ["data"], schema⟩ e.argument).map fun name =>
        ({ e with argument := name } : ColumnReference.AggregateExpr String)) = .ok b) ↔
      ∃ resolved, DFSchema.resolve ⟨some ["data"], schema⟩ e.argument = .ok resolved := by
    intro e
    cases DFSchema.resolve ⟨some ["data"], schema⟩ e.argument <;> simp [Except.map]
  simp only [hok]
  refine ⟨fun h => ⟨hnil, fun name hname => ?_⟩, fun h e he => ?_⟩
  · exact h ⟨_, col parse name, ColumnReference.ndvAlias name⟩
      (List.mem_flatMap.mpr ⟨name, hname, List.mem_cons_self⟩)
  · obtain ⟨name, hname, he⟩ := List.mem_flatMap.mp he
    have harg : e.argument = col parse name := by
      rcases List.mem_cons.mp he with rfl | he
      · rfl
      · split at he
        · rw [List.mem_singleton.mp he]
        · cases he
    rw [harg]
    exact h.2 name hname

theorem lookup_extract (row : List (String × ColumnReference.Cell Float64)) :
    ((extractAnalysisFromResults row columns).lookup name).isSome = true ↔ name ∈ columns := by
  rw [List.lookup_isSome_iff, extractAnalysisFromResults]
  simp

theorem analyzeRowGroup_lookup (h : analyzeRowGroup parse eval schema columns = .ok analysis) :
    (analysis.lookup name).isSome = true ↔ name ∈ analyzableColumns schema columns := by
  unfold analyzeRowGroup at h
  split at h
  · cases h
  split at h
  · cases h
  split at h
  · rename_i analysis' hrun
    obtain rfl := Except.ok.inj h
    unfold runStreamingAnalysis at hrun
    cases hplan : planAnalysis parse schema columns with
    | error e => rw [hplan] at hrun; cases hrun
    | ok plan =>
      rw [hplan] at hrun
      obtain rfl := Except.ok.inj hrun
      exact lookup_extract _
  · cases h

theorem analyzeRowGroup_isOk (hcolumns : columns ≠ []) :
    (∃ analysis, analyzeRowGroup parse eval schema columns = .ok analysis) ↔
      analyzableColumns schema columns ≠ [] ∧ schema.names.Nodup ∧
        ∀ name ∈ analyzableColumns schema columns,
          ∃ resolved, DFSchema.resolve ⟨some ["data"], schema⟩ (col parse name) = .ok resolved := by
  unfold analyzeRowGroup
  rw [if_neg hcolumns]
  by_cases hnil : analyzableColumns schema columns = []
  · have herror : planAnalysis parse schema columns = .error .noAnalyzableColumns := by
      simp [planAnalysis, hnil]
    simp [hnil, runStreamingAnalysis, herror, Except.map]
  by_cases hnames : schema.names.Nodup
  · have hplan := @planAnalysis_isOk parse schema columns
    simp only [hnil, ne_eq, not_false_eq_true, hnames, not_true_eq_false, and_false, if_false,
      true_and] at hplan ⊢
    rw [← hplan]
    cases hplanned : planAnalysis parse schema columns <;>
      simp [runStreamingAnalysis, hplanned, Except.map]
  · simp [hnil, hnames]

-- ---------------------------------------------------------------------------
-- Who needs a count
-- ---------------------------------------------------------------------------

theorem resolveDictionaryForLeaf_unanalyzable (h : isAnalyzable leaf.dataType = false) :
    ColumnPolicies.resolveDictionaryForLeaf leaf config ≠ .analyze := by
  unfold ColumnPolicies.resolveDictionaryForLeaf
  simp only [h, Bool.false_eq_true, and_false, if_false, Bool.not_false, or_true, if_true]
  split_ifs <;> simp

theorem resolveBloomForLeaf_unanalyzable (h : isAnalyzable leaf.dataType = false)
    (fpp : Float64) : ColumnPolicies.resolveBloomForLeaf leaf config ≠ .enabled fpp none := by
  have heligible : isBloomFilterEligible leaf.dataType = false := by
    by_contra hnot
    rw [isAnalyzable_of_bloomFilterEligible (by simpa using hnot)] at h
    cases h
  simp [ColumnPolicies.resolveBloomForLeaf, heligible]

theorem isAnalyzable_of_needsAnalysis
    (h : (ColumnPolicies.resolveLeaf leaf config).needsAnalysis = true) :
    isAnalyzable leaf.dataType = true := by
  by_contra hnot
  have hcan : isAnalyzable leaf.dataType = false := by simpa using hnot
  simp only [ColumnPolicy.needsAnalysis, ColumnPolicies.resolveLeaf, Bool.or_eq_true] at h
  rcases h with hdictionary | hbloom
  · exact resolveDictionaryForLeaf_unanalyzable hcan (of_decide_eq_true hdictionary)
  · split at hbloom
    · rename_i fpp hmode
      exact resolveBloomForLeaf_unanalyzable hcan fpp hmode
    · cases hbloom

theorem mem_columnsNeedingAnalysis_iff :
    name ∈ (ColumnPolicies.resolve schema config).columnsNeedingAnalysis ↔
      ∃ leaf ∈ enumerateLeafColumns schema, NeedsCount schema config leaf ∧
        (parseCliPath leaf.parquetPath).head? = some name := by
  have hentry : ∀ {path cfg}, (path, cfg) ∈ (ColumnPolicies.resolve schema config).leaves ↔
      (ColumnPolicies.resolve schema config).get path = some cfg := fun {path cfg} =>
    Keyed.mem_iff_lookup (Keyed.collect_nodup _)
  rw [mem_columnsNeedingAnalysis]
  constructor
  · rintro ⟨⟨path, cfg⟩, hmem, hneeds, hhead⟩
    have hget := hentry.mp hmem
    have hlast := hget
    rw [get_resolve] at hlast
    obtain ⟨last, hlast, _⟩ := Option.map_eq_some_iff.mp hlast
    obtain rfl : last.parquetPath = path := by simpa using List.find?_some hlast
    exact ⟨last, List.mem_reverse.mp (List.mem_of_find?_eq_some hlast), ⟨cfg, hget, hneeds⟩, hhead⟩
  · rintro ⟨leaf, _, ⟨cfg, hget, hneeds⟩, hhead⟩
    exact ⟨⟨leaf.parquetPath, cfg⟩, hentry.mpr hget, hneeds, hhead⟩

/-- Only a dictionary or nothing stands between a column and a leaf that is the
column itself. -/
theorem isAnalyzable_of_leaf (h : leaf ∈ fieldLeaves field) (hnested : leaf.isNested = false)
    (hcan : isAnalyzable leaf.dataType = true) : isAnalyzable field.dataType = true := by
  have hlength : leaf.path.length ≤ 1 := by
    simpa [LeafColumn.isNested] using hnested
  cases hchildren : children field.dataType with
  | none =>
    rw [fieldLeaves, enumerateField_leaf hchildren, List.mem_singleton] at h
    rw [h] at hcan
    exact hcan
  | some branches =>
    rw [fieldLeaves, enumerateField_branches hchildren] at h
    obtain ⟨p, hp, hleaf⟩ := List.mem_flatMap.mp h
    have hlong := (mem_enumerateField hleaf).2.length_le
    have hempty : p.1 = [] := by
      rw [← List.length_eq_zero_iff]
      simp at hlong
      omega
    obtain ⟨key, value, hdictionary⟩ := branch_nil hchildren hp hempty
    rw [hdictionary]
    rfl

-- ---------------------------------------------------------------------------
-- When the analysis serves its purpose
-- ---------------------------------------------------------------------------

theorem path_of_not_nested (h : leaf ∈ enumerateLeafColumns schema)
    (hnested : leaf.isNested = false) : leaf.path = [leaf.topLevel] := by
  obtain ⟨field, _, hfield⟩ := mem_enumerateLeafColumns.mp h
  obtain ⟨htop, rest, hrest⟩ := mem_fieldLeaves hfield
  have hlength : leaf.path.length ≤ 1 := by simpa [LeafColumn.isNested] using hnested
  rw [hrest, List.length_cons] at hlength
  obtain rfl := List.length_eq_zero_iff.mp (show rest.length = 0 by omega)
  rw [hrest, htop]

theorem topLevel_of_undotted (h : leaf ∈ enumerateLeafColumns schema)
    (hdot : '.' ∉ leaf.parquetPath.toList) :
    leaf.isNested = false ∧ leaf.parquetPath = leaf.topLevel := by
  have hnested : leaf.isNested = false := by
    by_contra hnot
    exact hdot (parquetPath_dotted (by simpa using hnot))
  exact ⟨hnested, parquetPath_topLevel (path_of_not_nested h hnested)⟩

theorem mem_analyzableColumns : name ∈ analyzableColumns schema columns ↔
    name ∈ columns ∧ ∃ field, schema.fieldWithName name = some field ∧
      isAnalyzable field.dataType = true := by
  rw [analyzableColumns, List.mem_filter]
  cases schema.fieldWithName name <;> simp

theorem NeedsCount.analyzable (hneeds : NeedsCount schema config leaf)
    (hleaf : leaf ∈ enumerateLeafColumns schema) (hnames : schema.names.Nodup)
    (hnested : leaf.isNested = false) (hdot : '.' ∉ leaf.topLevel.toList) :
    ∃ field, schema.fieldWithName leaf.topLevel = some field ∧
      isAnalyzable field.dataType = true := by
  obtain ⟨cfg, hget, hcfg⟩ := hneeds
  rw [get_resolve] at hget
  obtain ⟨last, hlast, rfl⟩ := Option.map_eq_some_iff.mp hget
  have hmem : last ∈ enumerateLeafColumns schema :=
    List.mem_reverse.mp (List.mem_of_find?_eq_some hlast)
  have hpath := path_of_not_nested hleaf hnested
  have hlastPath := path_eq_of_single hpath hdot (path_ne_nil hmem)
    (by simpa using List.find?_some hlast)
  obtain ⟨field, hfield, hlastField⟩ := mem_enumerateLeafColumns.mp hmem
  obtain ⟨_, rest, hrest⟩ := mem_fieldLeaves hlastField
  have hname : field.name = leaf.topLevel := (List.cons.inj (hrest.symm.trans hlastPath)).1
  obtain ⟨found, hfound⟩ := Schema.fieldWithName_isSome.mpr
    (show leaf.topLevel ∈ schema.names from List.mem_map.mpr ⟨field, hfield, hname⟩)
  have hsame : found = field := List.inj_on_of_nodup_map hnames
    (Schema.fieldWithName_mem hfound) hfield ((Schema.fieldWithName_name hfound).trans hname.symm)
  refine ⟨found, hfound, ?_⟩
  rw [hsame]
  refine isAnalyzable_of_leaf hlastField ?_ (isAnalyzable_of_needsAnalysis hcfg)
  simp [LeafColumn.isNested, hlastPath]

theorem rowGroupAnalysis_lookup (h : rowGroupAnalysis parse eval schema config = .ok analysis)
    (hsome : (analysis.lookup name).isSome = true) :
    (∃ resolved, (ColumnPolicies.resolve schema config).columnsNeedingAnalysis = resolved ∧
      resolved ≠ [] ∧ analyzeRowGroup parse eval schema resolved = .ok analysis) ∧
    name ∈ analyzableColumns schema
      (ColumnPolicies.resolve schema config).columnsNeedingAnalysis := by
  simp only [rowGroupAnalysis] at h
  split at h
  · rw [← Except.ok.inj h] at hsome
    cases hsome
  · rename_i hne
    exact ⟨⟨_, rfl, hne, h⟩, (analyzeRowGroup_lookup h).mp hsome⟩

theorem AnalysisServes.countable (h : AnalysisServes parse eval schema config) :
    Countable parse schema config := by
  obtain ⟨_, analysis, hanalysis, hcovers⟩ := h
  have htop : ∀ leaf ∈ enumerateLeafColumns schema, NeedsCount schema config leaf →
      leaf.isNested = false ∧ '.' ∉ leaf.topLevel.toList ∧ leaf.topLevel ∈ analyzableColumns schema
        (ColumnPolicies.resolve schema config).columnsNeedingAnalysis := by
    intro leaf hleaf hneeds
    obtain ⟨_, hmem⟩ := rowGroupAnalysis_lookup hanalysis (hcovers leaf hleaf hneeds)
    have hdot := columnsNeedingAnalysis_undotted (mem_analyzableColumns.mp hmem).1
    obtain ⟨hnested, hpath⟩ := topLevel_of_undotted hleaf hdot
    rw [hpath] at hdot hmem
    exact ⟨hnested, hdot, hmem⟩
  have hplanned : ∀ leaf ∈ enumerateLeafColumns schema, NeedsCount schema config leaf →
      schema.names.Nodup ∧ ∀ name ∈ analyzableColumns schema
        (ColumnPolicies.resolve schema config).columnsNeedingAnalysis,
          ∃ resolved, DFSchema.resolve ⟨some ["data"], schema⟩ (col parse name) = .ok resolved := by
    intro leaf hleaf hneeds
    obtain ⟨⟨_, rfl, hne, hrun⟩, _⟩ := rowGroupAnalysis_lookup hanalysis (hcovers leaf hleaf hneeds)
    exact ((analyzeRowGroup_isOk hne).mp ⟨analysis, hrun⟩).2
  refine ⟨fun leaf hleaf hneeds => ?_, fun leaf hleaf hneeds => ?_, fun leaf hleaf hneeds => ?_⟩
  · obtain ⟨hnested, hdot, _⟩ := htop leaf hleaf hneeds
    exact ⟨hnested, hdot⟩
  · exact (hplanned leaf hleaf hneeds).1
  · exact (hplanned leaf hleaf hneeds).2 _ (htop leaf hleaf hneeds).2.2

namespace Countable

theorem parquetPath (h : Countable parse schema config) (hleaf : leaf ∈ enumerateLeafColumns schema)
    (hneeds : NeedsCount schema config leaf) : leaf.parquetPath = leaf.topLevel :=
  parquetPath_topLevel (path_of_not_nested hleaf (h.topLevel leaf hleaf hneeds).1)

theorem mem_columns (h : Countable parse schema config) :
    name ∈ (ColumnPolicies.resolve schema config).columnsNeedingAnalysis ↔
      ∃ leaf ∈ enumerateLeafColumns schema, NeedsCount schema config leaf ∧
        leaf.topLevel = name := by
  rw [mem_columnsNeedingAnalysis_iff]
  have hhead : ∀ leaf ∈ enumerateLeafColumns schema, NeedsCount schema config leaf →
      (parseCliPath leaf.parquetPath).head? = some leaf.topLevel := by
    intro leaf hleaf hneeds
    rw [h.parquetPath hleaf hneeds, parseCliPath_eq_single (h.topLevel leaf hleaf hneeds).2]
    rfl
  constructor
  · rintro ⟨leaf, hleaf, hneeds, hname⟩
    exact ⟨leaf, hleaf, hneeds, Option.some.inj ((hhead leaf hleaf hneeds).symm.trans hname)⟩
  · rintro ⟨leaf, hleaf, hneeds, rfl⟩
    exact ⟨leaf, hleaf, hneeds, hhead leaf hleaf hneeds⟩

theorem existing (h : Countable parse schema config)
    (hname : name ∈ (ColumnPolicies.resolve schema config).columnsNeedingAnalysis) :
    ∃ field, schema.fieldWithName name = some field ∧ isAnalyzable field.dataType = true := by
  obtain ⟨leaf, hleaf, hneeds, rfl⟩ := h.mem_columns.mp hname
  obtain ⟨hnested, hdot⟩ := h.topLevel leaf hleaf hneeds
  exact hneeds.analyzable hleaf (h.distinct leaf hleaf hneeds) hnested hdot

theorem analysis_ok (h : Countable parse schema config)
    (hne : (ColumnPolicies.resolve schema config).columnsNeedingAnalysis ≠ []) :
    ∃ analysis, analyzeRowGroup parse eval schema
      (ColumnPolicies.resolve schema config).columnsNeedingAnalysis = .ok analysis := by
  obtain ⟨first, hfirst⟩ := List.exists_mem_of_ne_nil _ hne
  obtain ⟨leaf, hleaf, hneeds, _⟩ := h.mem_columns.mp hfirst
  have hanalyzable := mem_analyzableColumns.mpr ⟨hfirst, h.existing hfirst⟩
  refine (analyzeRowGroup_isOk hne).mpr
    ⟨List.ne_nil_of_mem hanalyzable, h.distinct leaf hleaf hneeds, fun name hmem => ?_⟩
  obtain ⟨leaf, hleaf, hneeds, rfl⟩ := h.mem_columns.mp (mem_analyzableColumns.mp hmem).1
  exact h.found leaf hleaf hneeds

theorem serves (h : Countable parse schema config) : AnalysisServes parse eval schema config := by
  refine ⟨fun name hname => h.existing hname, ?_⟩
  have hasked : ∀ leaf ∈ enumerateLeafColumns schema, NeedsCount schema config leaf →
      leaf.topLevel ∈ (ColumnPolicies.resolve schema config).columnsNeedingAnalysis :=
    fun leaf hleaf hneeds => h.mem_columns.mpr ⟨leaf, hleaf, hneeds, rfl⟩
  by_cases hnil : (ColumnPolicies.resolve schema config).columnsNeedingAnalysis = []
  · refine ⟨[], by simp [rowGroupAnalysis, hnil], fun leaf hleaf hneeds => ?_⟩
    have hmem := hasked leaf hleaf hneeds
    rw [hnil] at hmem
    cases hmem
  · obtain ⟨analysis, hrun⟩ := @analysis_ok parse eval schema config h hnil
    refine ⟨analysis, by simp [rowGroupAnalysis, hnil, hrun], fun leaf hleaf hneeds => ?_⟩
    have hmem := hasked leaf hleaf hneeds
    rw [analyzeRowGroup_lookup hrun, h.parquetPath hleaf hneeds]
    exact mem_analyzableColumns.mpr ⟨hmem, h.existing hmem⟩

end Countable

/-- The analysis serves its purpose exactly when only undotted top-level columns
of distinct, resolvable names need a count. -/
theorem analysis_serves_iff (parse : IdentifierParser)
    (eval : AggregateFunction → String → ColumnReference.Cell Float64) (schema : Schema)
    (config : PipelineConfig) :
    AnalysisServes parse eval schema config ↔ Countable parse schema config :=
  ⟨AnalysisServes.countable, Countable.serves⟩

def dottedColumnSchema : Schema := [.mk "a.b" .int64 true]

/-- The column asked for is `a`, which there is not, and the write fails. -/
theorem analysis_breaks :
    ¬ ∀ (parse : IdentifierParser)
      (eval : AggregateFunction → String → ColumnReference.Cell Float64) (schema : Schema)
      (config : PipelineConfig), AnalysisServes parse eval schema config := by
  intro h
  have hserves := h ColumnReference.splittingParser (fun _ _ => .uint64 none) dottedColumnSchema
    .default
  have hrun : rowGroupAnalysis ColumnReference.splittingParser (fun _ _ => .uint64 none)
      dottedColumnSchema .default = .error (.plan .noAnalyzableColumns) := by
    decide +kernel
  obtain ⟨analysis, hok, -⟩ := hserves.2
  rw [hrun] at hok
  cases hok

end SilkChiffon.Parquet
