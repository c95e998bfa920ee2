import SilkChiffon.Lib.Keyed
import SilkChiffon.Lib.Float64
import SilkChiffon.Transform.ColumnReference
import SilkChiffon.Parquet.LeafColumns
import Mathlib.Data.List.Nodup

/-!
# Column policies

What is decided about dictionaries and Bloom filters of the leaves from the
schema and the options alone. The decisions are kept in a table under the
dotted paths of the leaves.
-/

namespace SilkChiffon.Parquet

open Arrow
open ColumnReference (isAnalyzable)

def isBloomFilterEligible : DataType → Bool
  | .int8 | .int16 | .int32 | .int64 | .uint8 | .uint16 | .uint32 | .uint64
  | .utf8 | .largeUtf8 | .utf8View | .binary | .largeBinary | .binaryView | .fixedSizeBinary _
  | .date32 | .date64 | .time32 _ | .time64 _ | .timestamp _ _ | .duration _ | .interval _
  | .decimal32 _ _ | .decimal64 _ _ | .decimal128 _ _ | .decimal256 _ _ => true
  | _ => false

def isDictionaryEligible : DataType → Bool
  | .int8 | .int16 | .int32 | .int64 | .uint8 | .uint16 | .uint32 | .uint64
  | .utf8 | .largeUtf8 | .utf8View | .binary | .largeBinary | .binaryView | .fixedSizeBinary _
  | .date32 | .date64 | .time32 _ | .time64 _ | .timestamp _ _ | .duration _ | .interval _
  | .decimal32 _ _ | .decimal64 _ _ | .decimal128 _ _ | .decimal256 _ _ => true
  | _ => false

structure BloomFilterSettings where
  fpp : Float64
  ndv : Option Nat
  deriving DecidableEq

abbrev DefaultBloomFilterPolicy := BloomFilterSettings

structure ColumnBloomFilterPolicy where
  name : String
  config : BloomFilterSettings
  deriving DecidableEq

structure BloomFilterPolicy where
  allEnabled : Option DefaultBloomFilterPolicy
  columnEnabled : List ColumnBloomFilterPolicy
  columnDisabled : List String
  deriving DecidableEq

structure PipelineConfig where
  dictionaryPageSizeLimit : Nat
  dictionaryEnabledDefault : Bool
  userDisabledDictionary : List String
  userEnabledDictionaryAlways : List String
  userEnabledDictionaryAnalyze : List String
  bloomFilterConfig : Option BloomFilterPolicy
  ndvMap : List (String × Nat)
  deriving DecidableEq

def PipelineConfig.default : PipelineConfig where
  dictionaryPageSizeLimit := 1024 * 1024 * 1024
  dictionaryEnabledDefault := true
  userDisabledDictionary := []
  userEnabledDictionaryAlways := []
  userEnabledDictionaryAnalyze := []
  bloomFilterConfig := none
  ndvMap := []

inductive ResolvedDictionaryMode
  | notEligible | disabled | always | analyze
  deriving DecidableEq, Repr

inductive ResolvedBloomFilterMode
  | disabled
  | enabled (fpp : Float64) (ndv : Option Nat)
  deriving DecidableEq

structure ColumnPolicy where
  dictionary : ResolvedDictionaryMode
  bloomFilter : ResolvedBloomFilterMode
  deriving DecidableEq

/-- Some of the columns named lies above the leaf. -/
def LeafColumn.matchesAny (leaf : LeafColumn) (names : List String) : Bool :=
  names.any fun s => leaf.matchesPrefix (parseCliPath s)

def LeafColumn.isNested (leaf : LeafColumn) : Bool := 1 < leaf.path.length

namespace ColumnPolicies

def resolveDictionaryForLeaf (leaf : LeafColumn) (config : PipelineConfig) :
    ResolvedDictionaryMode :=
  if !isDictionaryEligible leaf.dataType then .notEligible
  else if leaf.matchesAny config.userDisabledDictionary then .disabled
  else if leaf.matchesAny config.userEnabledDictionaryAlways then .always
  else if leaf.matchesAny config.userEnabledDictionaryAnalyze then
    if leaf.path.length = 1 ∧ isAnalyzable leaf.dataType then .analyze else .always
  else if config.dictionaryEnabledDefault then
    if leaf.isNested ∨ !isAnalyzable leaf.dataType then .always else .analyze
  else .disabled

def ndvFromMap (leaf : LeafColumn) (config : PipelineConfig) : Option Nat :=
  (config.ndvMap.lookup leaf.parquetPath).or (config.ndvMap.lookup leaf.topLevel)

def resolveBloomForLeaf (leaf : LeafColumn) (config : PipelineConfig) : ResolvedBloomFilterMode :=
  if !isBloomFilterEligible leaf.dataType then .disabled
  else
    match config.bloomFilterConfig with
    | none => .disabled
    | some bloomConfig =>
      if leaf.matchesAny bloomConfig.columnDisabled then .disabled
      else
        match bloomConfig.columnEnabled.find? fun c => leaf.matchesPrefix (parseCliPath c.name) with
        | some colCfg =>
          let effectiveNdv := colCfg.config.ndv.or (ndvFromMap leaf config)
          -- Nested leaves are let through here, unlike below.
          if effectiveNdv = none ∧ !isAnalyzable leaf.dataType then .disabled
          else .enabled colCfg.config.fpp effectiveNdv
        | none =>
          match bloomConfig.allEnabled with
          | some global =>
            let effectiveNdv := global.ndv.or (ndvFromMap leaf config)
            if effectiveNdv = none ∧ (leaf.isNested ∨ !isAnalyzable leaf.dataType) then .disabled
            else .enabled global.fpp effectiveNdv
          | none => .disabled

def resolveLeaf (leaf : LeafColumn) (config : PipelineConfig) : ColumnPolicy :=
  ⟨resolveDictionaryForLeaf leaf config, resolveBloomForLeaf leaf config⟩

end ColumnPolicies

/-- The table of the policies, by dotted path. -/
structure ColumnPolicies where
  leaves : List (String × ColumnPolicy)

namespace ColumnPolicies

def resolve (schema : Schema) (config : PipelineConfig) : ColumnPolicies :=
  ⟨Keyed.collect ((enumerateLeafColumns schema).map fun leaf =>
    (leaf.parquetPath, resolveLeaf leaf config))⟩

def get (policies : ColumnPolicies) (leafPath : String) : Option ColumnPolicy :=
  policies.leaves.lookup leafPath

end ColumnPolicies

def ColumnPolicy.needsAnalysis (cfg : ColumnPolicy) : Bool :=
  cfg.dictionary = .analyze ||
    match cfg.bloomFilter with
    | .enabled _ none => true
    | _ => false

/-- Top-level names are told from the dotted paths, which begin with them. -/
def ColumnPolicies.columnsNeedingAnalysis (policies : ColumnPolicies) : List String :=
  let topLevelNames :=
    (policies.leaves.filter fun p => p.2.needsAnalysis).filterMap fun p =>
      (parseCliPath p.1).head?
  Lists.dedupConsecutive (topLevelNames.mergeSort (· ≤ ·))

-- ---------------------------------------------------------------------------
-- Which policy a path has
-- ---------------------------------------------------------------------------

def lastLeaf (schema : Schema) (path : String) : Option LeafColumn :=
  (enumerateLeafColumns schema).reverse.find? (·.parquetPath == path)

variable {schema : Schema} {config : PipelineConfig} {leaf : LeafColumn} {path : String}

theorem lookup_map_eq_find? [BEq κ] (key : α → κ) (value : α → β) (l : List α) (k : κ) :
    (l.map fun a => (key a, value a)).lookup k = (l.find? fun a => k == key a).map value := by
  induction l with
  | nil => rfl
  | cons a l ih =>
    rw [List.map_cons, List.lookup_cons, List.find?_cons, ih]
    cases k == key a <;> rfl

theorem get_resolve (path : String) : (ColumnPolicies.resolve schema config).get path =
    (lastLeaf schema path).map (ColumnPolicies.resolveLeaf · config) := by
  rw [ColumnPolicies.get, ColumnPolicies.resolve, Keyed.lookup_collect, ← List.map_reverse,
    lookup_map_eq_find?, lastLeaf]
  simp only [BEq.comm]

theorem lastLeaf_some (h : leaf ∈ enumerateLeafColumns schema) :
    ∃ last ∈ enumerateLeafColumns schema, lastLeaf schema leaf.parquetPath = some last ∧
      last.parquetPath = leaf.parquetPath := by
  have hsome : (lastLeaf schema leaf.parquetPath).isSome := by
    rw [lastLeaf, List.find?_isSome]
    exact ⟨leaf, List.mem_reverse.mpr h, by simp⟩
  obtain ⟨last, hlast⟩ := Option.isSome_iff_exists.mp hsome
  exact ⟨last, List.mem_reverse.mp (List.mem_of_find?_eq_some hlast), hlast, by
    simpa using List.find?_some hlast⟩

theorem mem_columnsNeedingAnalysis {policies : ColumnPolicies} :
    name ∈ policies.columnsNeedingAnalysis ↔
      ∃ p ∈ policies.leaves, p.2.needsAnalysis = true ∧ (parseCliPath p.1).head? = some name := by
  unfold ColumnPolicies.columnsNeedingAnalysis
  simp [Lists.mem_dedupConsecutive, and_assoc]

theorem notMem_of_mem_parseCliPath (h : part ∈ parseCliPath s) : '.' ∉ part.toList := by
  obtain ⟨part, hpart, rfl⟩ := List.mem_map.mp h
  rw [String.toList_ofList]
  exact Lists.notMem_of_mem_splitOn hpart

theorem columnsNeedingAnalysis_undotted {policies : ColumnPolicies}
    (h : name ∈ policies.columnsNeedingAnalysis) : '.' ∉ name.toList := by
  obtain ⟨_, _, _, hhead⟩ := mem_columnsNeedingAnalysis.mp h
  exact notMem_of_mem_parseCliPath (List.mem_of_head? hhead)

theorem get_of_alike {schema : Schema} {config : PipelineConfig} (hleaf : leaf ∈ enumerateLeafColumns schema)
    (halike : ∀ other ∈ enumerateLeafColumns schema, leaf.parquetPath = other.parquetPath →
      ColumnPolicies.resolveLeaf leaf config = ColumnPolicies.resolveLeaf other config) :
    (ColumnPolicies.resolve schema config).get leaf.parquetPath =
      some (ColumnPolicies.resolveLeaf leaf config) := by
  obtain ⟨last, hmem, hlast, hpath⟩ := lastLeaf_some hleaf
  rw [get_resolve, hlast, Option.map_some, halike last hmem hpath.symm]

/-- Every leaf finds its own policy exactly when leaves that share a dotted
path are resolved alike. -/
theorem leaf_policies_iff (schema : Schema) (config : PipelineConfig) :
    (∀ leaf ∈ enumerateLeafColumns schema,
      (ColumnPolicies.resolve schema config).get leaf.parquetPath =
        some (ColumnPolicies.resolveLeaf leaf config)) ↔
    ∀ leaf ∈ enumerateLeafColumns schema, ∀ other ∈ enumerateLeafColumns schema,
      leaf.parquetPath = other.parquetPath →
        ColumnPolicies.resolveLeaf leaf config = ColumnPolicies.resolveLeaf other config := by
  constructor
  · intro hget leaf hleaf other hother hpath
    have hboth := (hget leaf hleaf).symm.trans ((congrArg _ hpath).trans (hget other hother))
    exact Option.some.inj hboth
  · exact fun halike leaf hleaf => get_of_alike hleaf (halike leaf hleaf)

/-- Leaves of different paths do not share a dotted path when no segment has a
dot. -/
theorem leaf_policies_undotted
    (hdots : ∀ leaf ∈ enumerateLeafColumns schema, ∀ segment ∈ leaf.path, '.' ∉ segment.toList)
    (hpaths : ((enumerateLeafColumns schema).map LeafColumn.path).Nodup) :
    ∀ leaf ∈ enumerateLeafColumns schema,
      (ColumnPolicies.resolve schema config).get leaf.parquetPath =
        some (ColumnPolicies.resolveLeaf leaf config) := by
  intro leaf hleaf
  refine get_of_alike hleaf fun other hother hpath => ?_
  have hne : ∀ leaf ∈ enumerateLeafColumns schema, leaf.path ≠ [] := by
    intro leaf hleaf
    obtain ⟨field, _, hfield⟩ := mem_enumerateLeafColumns.mp hleaf
    obtain ⟨_, rest, hrest⟩ := mem_fieldLeaves hfield
    rw [hrest]
    exact List.cons_ne_nil _ _
  have hsame := path_eq_of_parquetPath (hne leaf hleaf) (hne other hother) (hdots leaf hleaf)
    (hdots other hother) hpath
  rw [List.inj_on_of_nodup_map hpaths hleaf hother hsame]

def dottedSchema : Schema :=
  [.mk "a.b" .utf8 true, .mk "a" (.struct [.mk "b" .float64 true]) true]

/-- The text column `a.b` could have a dictionary, and gets the policy of the
number `b` in `a`, which cannot. -/
theorem leaf_policies_mixed :
    ∃ leaf ∈ enumerateLeafColumns dottedSchema,
      leaf.path = ["a.b"] ∧
      ColumnPolicies.resolveLeaf leaf .default = ⟨.analyze, .disabled⟩ ∧
      (ColumnPolicies.resolve dottedSchema .default).get leaf.parquetPath =
        some ⟨.notEligible, .disabled⟩ :=
  ⟨⟨["a.b"], "a.b", .utf8⟩, List.mem_cons_self, rfl, by decide, by decide⟩

end SilkChiffon.Parquet
