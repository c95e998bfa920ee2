import Mathlib.Data.List.Dedup
import SilkChiffon.Registration.Assembly

/-!
# Which clashes assembly rejects

Every scheme of an assembled application has one owner. Its command is
unambiguous exactly when the keys nobody compares are apart: the aliases and
groups of formats, the keys within one service, and those Clap adds.
-/

namespace SilkChiffon.Registration

open Storage (StorageDirection)
open KeyClaims (conflict sorted latest)

-- ---------------------------------------------------------------------------
-- Formats
-- ---------------------------------------------------------------------------

/-- No alias names another argument, and no group has another id. -/
structure Command.AliasesApart (c : Command) : Prop where
  longs : c.arguments.Pairwise fun a b => a.aliases.Disjoint b.longs ∧ a.longs.Disjoint b.aliases
  shorts : c.arguments.Pairwise fun a b =>
    a.shortAliases.Disjoint b.shorts ∧ a.shorts.Disjoint b.shortAliases
  groups : c.groups.Nodup
  ids : (c.arguments.map (·.id)).Disjoint c.groups

theorem Command.arguments_foldl {c : Command} (ds : List Command) :
    (ds.foldl augment c).arguments = c.arguments ++ ds.flatMap (·.arguments) := by
  induction ds generalizing c with
  | nil => simp
  | cons d ds ih => simp [ih, augment]

theorem registryKeys_nodup (formats : FormatRegistry) :
    ((formats.augmentTransformArgs .new).arguments.flatMap Argument.registryKeys).Nodup := by
  have h := formats.argumentKeys_nodup
  have hkeys : (formats.formats.flatMap FormatDefinition.argumentClaims).map (·.1) =
      (formats.augmentTransformArgs .new).arguments.flatMap Argument.registryKeys := by
    rw [FormatRegistry.augmentTransformArgs, Command.arguments_foldl, FormatRegistry.transforms,
      List.filterMap_eq_flatMap_toList]
    simp [Command.new, FormatDefinition.argumentClaims, argumentKeys, List.flatMap_assoc, List.map_flatMap,
      Function.comp_def]
  rwa [hkeys] at h

theorem registryKeys_disjoint {a b : Argument} (h : a.registryKeys.Disjoint b.registryKeys) :
    a.id ≠ b.id ∧ a.long.toList.Disjoint b.long.toList ∧ a.short.toList.Disjoint b.short.toList := by
  refine ⟨fun heq => ?_, fun s ha hb => ?_, fun s ha hb => ?_⟩
  · exact h (a := s!"id:{a.id}") (by simp [Argument.registryKeys]) (by simp [Argument.registryKeys, heq])
  · exact h (a := s!"long:{s}") (by simp [Argument.registryKeys, Option.mem_toList.mp ha])
      (by simp [Argument.registryKeys, Option.mem_toList.mp hb])
  · exact h (a := s!"short:{s}") (by simp [Argument.registryKeys, Option.mem_toList.mp ha])
      (by simp [Argument.registryKeys, Option.mem_toList.mp hb])

theorem disjoint_names {main main' extra extra' : List α} (h : main.Disjoint main') :
    (main ++ extra).Disjoint (main' ++ extra') ↔
      extra.Disjoint (main' ++ extra') ∧ (main ++ extra).Disjoint extra' := by
  simp only [List.disjoint_append_left, List.disjoint_append_right]
  tauto

/-- Once ids, long and short names are distinct, aliases and groups decide. -/
theorem unambiguous_iff_aliasesApart {c : Command} (h : (c.arguments.flatMap Argument.registryKeys).Nodup) :
    c.Unambiguous ↔ c.AliasesApart := by
  have hpairs := ((List.nodup_flatMap.mp h).2).imp registryKeys_disjoint
  have hids : (c.arguments.map (·.id)).Nodup := List.pairwise_map.mpr (hpairs.imp And.left)
  have hlongs : c.arguments.Pairwise (fun a b => a.longs.Disjoint b.longs ↔
      a.aliases.Disjoint b.longs ∧ a.longs.Disjoint b.aliases) := hpairs.imp fun h => disjoint_names h.2.1
  have hshorts : c.arguments.Pairwise (fun a b => a.shorts.Disjoint b.shorts ↔
      a.shortAliases.Disjoint b.shorts ∧ a.shorts.Disjoint b.shortAliases) :=
    hpairs.imp fun h => disjoint_names h.2.2
  constructor
  · rintro ⟨hid, hlong, hshort⟩
    obtain ⟨_, hgroups, hdisjoint⟩ := List.nodup_append'.mp hid
    exact ⟨hlong.imp₂ (fun _ _ h hiff => hiff.mp h) hlongs, hshort.imp₂ (fun _ _ h hiff => hiff.mp h) hshorts,
      hgroups, hdisjoint⟩
  · rintro ⟨hlong, hshort, hgroups, hdisjoint⟩
    exact ⟨List.nodup_append'.mpr ⟨hids, hgroups, hdisjoint⟩,
      hlong.imp₂ (fun _ _ h hiff => hiff.mpr h) hlongs, hshort.imp₂ (fun _ _ h hiff => hiff.mpr h) hshorts⟩

-- ---------------------------------------------------------------------------
-- Storage
-- ---------------------------------------------------------------------------

theorem storage_unambiguous (storage : StorageRegistry) : (storage.augmentArgs .new).Unambiguous := by
  have h := storage.cliKeys_nodup
  have hkeys : (cliClaims (contributors storage.usesSharedRetries storage.backends)).map (·.1) =
      ((contributors storage.usesSharedRetries storage.backends).map (·.2)).flatMap Command.cliKeys := by
    simp [cliClaims, List.map_flatMap, List.flatMap_map, Function.comp_def]
  rw [hkeys] at h
  obtain ⟨heach, hpairs⟩ := List.nodup_flatMap.mp h
  refine Command.unambiguous_foldl.mpr ⟨?_, ?_⟩
  · rw [List.forall_mem_cons]
    exact ⟨Command.unambiguous_new, fun d hd => Command.unambiguous_of_nodup (heach d hd)⟩
  · rw [List.pairwise_cons]
    exact ⟨fun _ _ => List.disjoint_nil_left _, hpairs⟩

-- ---------------------------------------------------------------------------
-- Definitions that claim keys
-- ---------------------------------------------------------------------------

variable {debug : String → String} {formats : FormatRegistry} {storage : StorageRegistry}
  {serviceInputs : List ServiceInputDefinition} {serviceOutputs : List ServiceOutputDefinition}

def comparedCommands (formats : FormatRegistry) (storage : StorageRegistry)
    (serviceInputs : List ServiceInputDefinition) (serviceOutputs : List ServiceOutputDefinition) :
    List Command :=
  [transformArgs, formats.augmentTransformArgs .new, storage.augmentArgs .new] ++
    (serviceInputs ++ serviceOutputs).map (·.args)

theorem map_serviceClaimants (direction : StorageDirection) (services : List ServiceDefinition) :
    (serviceClaimants debug direction services).map (·.2) = services.map (·.args) := by
  rw [serviceClaimants, List.map_map]
  calc services.zipIdx.map (·.1.args) = (services.zipIdx.map (·.1)).map (·.args) := List.map_map.symm
    _ = services.map (·.args) := by rw [List.zipIdx_map_fst]

theorem flatMap_cliKeyClaims (debug : String → String) :
    ((cliKeyClaimants debug formats storage serviceInputs serviceOutputs).flatMap
      fun (claimant, command) => cliKeyClaims claimant command).map (·.1) =
    (comparedCommands formats storage serviceInputs serviceOutputs).flatMap (·.cliKeys.dedup) := by
  have hcommands : comparedCommands formats storage serviceInputs serviceOutputs =
      (cliKeyClaimants debug formats storage serviceInputs serviceOutputs).map (·.2) := by
    simp [comparedCommands, cliKeyClaimants, map_serviceClaimants]
  rw [hcommands]
  simp [cliKeyClaims, List.map_flatMap, List.flatMap_map, Function.comp_def]

/-- The check compares definitions, not the keys within one. -/
theorem validateCliKeyClaims_eq_ok (debug : String → String) :
    validateCliKeyClaims debug formats storage serviceInputs serviceOutputs = .ok () ↔
      (comparedCommands formats storage serviceInputs serviceOutputs).Pairwise fun a b =>
        a.cliKeys.Disjoint b.cliKeys := by
  have hconflict : validateCliKeyClaims debug formats storage serviceInputs serviceOutputs = .ok () ↔
      ((comparedCommands formats storage serviceInputs serviceOutputs).flatMap (·.cliKeys.dedup)).Nodup := by
    rw [← flatMap_cliKeyClaims debug, ← KeyClaims.sorted_eq_none]
    unfold validateCliKeyClaims
    simp only
    split
    · rename_i hsome
      simp [hsome]
    · rename_i hnone
      simp [hnone]
  have herase : (Function.onFun List.Disjoint fun c : Command => c.cliKeys.dedup) =
      fun a b => a.cliKeys.Disjoint b.cliKeys := by
    funext a b
    simp [Function.onFun, List.Disjoint, List.mem_dedup]
  rw [hconflict, List.nodup_flatMap, herase]
  simp only [List.nodup_dedup, implies_true, true_and]

theorem fromParts_ok (h : ApplicationDefinition.fromParts debug formats storage serviceInputs serviceOutputs =
    .ok app) :
    InputSchemeIndex.new debug storage serviceInputs = .ok app.inputSchemes ∧
      OutputSchemeIndex.new debug storage serviceOutputs = .ok app.outputSchemes ∧
      validateCliKeyClaims debug formats storage serviceInputs serviceOutputs = .ok () ∧
      app.formats = formats ∧ app.storage = storage ∧ app.serviceInputs = serviceInputs ∧
      app.serviceOutputs = serviceOutputs := by
  unfold ApplicationDefinition.fromParts at h
  simp only [Lists.bind_eq_ok] at h
  obtain ⟨_, _, _, _, inputSchemes, hinput, outputSchemes, houtput, _, hkeys, h⟩ := h
  obtain rfl := Except.ok.inj h
  exact ⟨hinput, houtput, hkeys, rfl, rfl, rfl, rfl⟩

/-- What no check compares: aliases and groups of the formats, the keys within
one service, and the keys of the arguments Clap adds. -/
structure UncheckedApart (formats : FormatRegistry) (storage : StorageRegistry)
    (serviceInputs : List ServiceInputDefinition) (serviceOutputs : List ServiceOutputDefinition)
    (generated : Command) : Prop where
  formatAliases : (formats.augmentTransformArgs .new).AliasesApart
  serviceKeys : ∀ service ∈ serviceInputs ++ serviceOutputs, service.args.Unambiguous
  generatedKeys : generated.Unambiguous
  generatedApart : ∀ command ∈ comparedCommands formats storage serviceInputs serviceOutputs,
    command.cliKeys.Disjoint generated.cliKeys

theorem transformArgs_unambiguous : transformArgs.Unambiguous := by decide +kernel

theorem augmentTransformCommand_eq (app : ApplicationDefinition) (generated : Command) :
    (app.augmentTransformCommand transformArgs).augment generated =
      ([app.storage.augmentArgs .new, app.formats.augmentTransformArgs .new] ++
        (app.serviceInputs ++ app.serviceOutputs).map (·.args) ++ [generated]).foldl Command.augment
          transformArgs := by
  simp only [ApplicationDefinition.augmentTransformCommand, List.map_append, List.foldl_append, List.foldl_cons,
    List.foldl_nil, FormatRegistry.augmentTransformArgs, StorageRegistry.augmentArgs]
  rw [Command.foldl_augment (c := transformArgs),
    Command.foldl_augment (c := transformArgs.augment _)]

theorem unambiguous_iff_uncheckedApart
    (h : ApplicationDefinition.fromParts debug formats storage serviceInputs serviceOutputs = .ok app)
    (generated : Command) : ((app.augmentTransformCommand transformArgs).augment generated).Unambiguous ↔
      UncheckedApart formats storage serviceInputs serviceOutputs generated := by
  obtain ⟨_, _, hkeys, hformats, hstorage, hinputs, houtputs⟩ := fromParts_ok h
  have hpairs := (validateCliKeyClaims_eq_ok debug).mp hkeys
  rw [augmentTransformCommand_eq, hformats, hstorage, hinputs, houtputs, Command.unambiguous_foldl]
  have hperm : (transformArgs :: ([storage.augmentArgs .new, formats.augmentTransformArgs .new] ++
      (serviceInputs ++ serviceOutputs).map (·.args) ++ [generated])).Perm
      (comparedCommands formats storage serviceInputs serviceOutputs ++ [generated]) :=
    List.Perm.cons _ (List.Perm.append_right _ (List.Perm.append_right _ (List.Perm.swap ..)))
  have hsymm : ∀ {a b : Command}, a.cliKeys.Disjoint b.cliKeys → b.cliKeys.Disjoint a.cliKeys :=
    fun h _ hb ha => h ha hb
  have hformatAliases := unambiguous_iff_aliasesApart (registryKeys_nodup formats)
  rw [hperm.pairwise_iff hsymm, List.pairwise_append]
  simp only [hperm.mem_iff, List.mem_append, List.mem_singleton]
  constructor
  · rintro ⟨heach, _, _, hgenerated⟩
    refine ⟨hformatAliases.mp (heach _ (.inl ?_)), fun service hservice => heach _ (.inl ?_),
      heach generated (.inr rfl), fun command hcommand => hgenerated command hcommand generated rfl⟩
    · simp [comparedCommands]
    · exact List.mem_append_right _ (List.mem_map_of_mem hservice)
  · rintro ⟨haliases, hservices, hgenerated, hapart⟩
    refine ⟨?_, hpairs, List.pairwise_singleton _ _, ?_⟩
    · rintro command (hcommand | rfl)
      · rcases List.mem_append.mp hcommand with hcommand | hcommand
        · simp only [List.mem_cons, List.not_mem_nil, or_false] at hcommand
          rcases hcommand with rfl | rfl | rfl
          · exact transformArgs_unambiguous
          · exact hformatAliases.mpr haliases
          · exact storage_unambiguous storage
        · obtain ⟨service, hservice, rfl⟩ := List.mem_map.mp hcommand
          exact hservices service hservice
      · exact hgenerated
    · rintro command hcommand _ rfl
      exact hapart command hcommand

-- ---------------------------------------------------------------------------
-- Schemes
-- ---------------------------------------------------------------------------

def Claimant.Claims (direction : StorageDirection) (storage : StorageRegistry)
    (services : List ServiceDefinition) (scheme : String) : Claimant → Prop
  | backend i definition => storage.backends[i]? = some definition ∧
      definition.access.supports direction = true ∧ scheme ∈ definition.schemes
  | service i definition => services[i]? = some definition ∧ scheme ∈ definition.schemes

/-- Each scheme has one claimant, which the index leads to. -/
structure SchemeOwnership (direction : StorageDirection) (storage : StorageRegistry)
    (services : List ServiceDefinition) (index : SchemeIndex) : Prop where
  unique : ∀ scheme (claimant claimant' : Claimant), claimant.Claims direction storage services scheme →
    claimant'.Claims direction storage services scheme → claimant = claimant'
  owner : ∀ scheme owner, index.owner scheme = some owner ↔
    ∃ claimant : Claimant, claimant.Claims direction storage services scheme ∧ claimant.owner = owner
  /-- Storage finds the backend that claims the scheme. -/
  routed : ∀ scheme i definition, (Claimant.backend i definition).Claims direction storage services scheme →
    storage.byScheme scheme = some definition

theorem mem_schemeClaimants {direction : StorageDirection} {services : List ServiceDefinition} {claimant : Claimant} :
    (scheme, claimant) ∈ schemeClaimants direction storage services ↔
      claimant.Claims direction storage services scheme := by
  have hmem : (scheme, claimant) ∈ schemeClaimants direction storage services ↔
      (claimant ∈ ((storage.backends.zipIdx.filter (·.1.access.supports direction)).map
          fun p => Claimant.backend p.2 p.1) ++
        services.zipIdx.map fun p => Claimant.service p.2 p.1) ∧ scheme ∈ claimant.schemes := by
    simp only [schemeClaimants, List.mem_flatMap, List.mem_map, Prod.mk.injEq]
    constructor
    · rintro ⟨claimant', hclaimant, scheme', hscheme, rfl, rfl⟩
      exact ⟨hclaimant, hscheme⟩
    · rintro ⟨hclaimant, hscheme⟩
      exact ⟨claimant, hclaimant, scheme, hscheme, rfl, rfl⟩
  rw [hmem]
  cases claimant with
  | backend i definition =>
    simp [Claimant.Claims, Claimant.schemes, List.mem_zipIdx_iff_getElem?, and_assoc]
  | service i definition =>
    simp [Claimant.Claims, Claimant.schemes, List.mem_zipIdx_iff_getElem?]

theorem byScheme_eq {storage : StorageRegistry} {i : Nat} {definition : StorageBackend} (hbackend : storage.backends[i]? = some definition)
    (hscheme : scheme ∈ definition.schemes) : storage.byScheme scheme = some definition := by
  have hkeys : (storage.backendIndexByScheme.map (·.1)).Nodup := by
    have h := storage.schemes_nodup
    have hfst : storage.backendIndexByScheme.map (·.1) = (schemeClaims storage.backends).map (·.1) := by
      have hzip : storage.backends.zipIdx.flatMap (·.1.schemes) = storage.backends.flatMap (·.schemes) := by
        have h := List.flatMap_map Prod.fst (·.schemes) (l := storage.backends.zipIdx)
        rwa [List.zipIdx_map_fst, eq_comm] at h
      rw [storage.indexed]
      simpa [schemeClaims, List.map_flatMap, Function.comp_def] using hzip
    rwa [hfst]
  have hmem : (scheme, i) ∈ storage.backendIndexByScheme := by
    rw [storage.indexed]
    refine List.mem_flatMap.mpr ⟨(definition, i), List.mem_zipIdx_iff_getElem?.mpr hbackend, ?_⟩
    exact List.mem_map_of_mem hscheme
  rw [StorageRegistry.byScheme, (KeyClaims.latest_eq_some hkeys).mpr hmem]
  exact hbackend

theorem schemeIndex_ok {direction : StorageDirection} {services : List ServiceDefinition}
    (h : schemeIndex debug direction claimConflict storage services = .ok index) :
    SchemeOwnership direction storage services index := by
  unfold schemeIndex at h
  simp only at h
  split at h
  · cases h
  · rename_i hnone
    obtain rfl := Except.ok.inj h
    have hnodup : ((schemeClaimants direction storage services).map (·.1)).Nodup := by
      simpa [Function.comp_def] using KeyClaims.sorted_eq_none.mp hnone
    refine ⟨?_, ?_, ?_⟩
    · intro scheme claimant claimant' hclaimant hclaimant'
      have heq := List.inj_on_of_nodup_map hnodup (mem_schemeClaimants.mpr hclaimant)
        (mem_schemeClaimants.mpr hclaimant') rfl
      exact (Prod.mk.inj heq).2
    · intro scheme owner
      rw [SchemeIndex.owner, KeyClaims.latest_eq_some (by simpa [Function.comp_def] using hnodup)]
      simp only [List.mem_map, Prod.mk.injEq]
      constructor
      · rintro ⟨⟨scheme', claimant⟩, hmem, rfl, rfl⟩
        exact ⟨claimant, mem_schemeClaimants.mp hmem, rfl⟩
      · rintro ⟨claimant, hclaims, rfl⟩
        exact ⟨(scheme, claimant), mem_schemeClaimants.mpr hclaims, rfl, rfl⟩
    · rintro scheme i definition ⟨hbackend, _, hscheme⟩
      exact byScheme_eq hbackend hscheme

-- ---------------------------------------------------------------------------
-- Assembled applications
-- ---------------------------------------------------------------------------

/-- In an assembled application every scheme has one owner for each direction,
and the composed command, with what Clap adds to it, is unambiguous exactly
when the keys that no check compares are apart. -/
theorem assembled_iff
    (h : ApplicationDefinition.fromParts debug formats storage serviceInputs serviceOutputs = .ok app)
    (generated : Command) :
    (((app.augmentTransformCommand transformArgs).augment generated).Unambiguous ↔
      UncheckedApart formats storage serviceInputs serviceOutputs generated) ∧
    SchemeOwnership .input storage serviceInputs app.inputSchemes ∧
    SchemeOwnership .output storage serviceOutputs app.outputSchemes := by
  obtain ⟨hinput, houtput, _⟩ := fromParts_ok h
  exact ⟨unambiguous_iff_uncheckedApart h generated, schemeIndex_ok hinput, schemeIndex_ok houtput⟩

-- ---------------------------------------------------------------------------
-- An alias that two formats have
-- ---------------------------------------------------------------------------

def formatOf (name : String) (argument : Argument) : FormatDefinition :=
  ⟨name, [], [], 0, false, some ⟨[argument], []⟩⟩

/-- Two formats, one of which names an argument as the other's alias. -/
def aliasedFormats : List FormatDefinition :=
  [formatOf "csv" ⟨"csv_delimiter", some "csv-delimiter", ["delimiter"], none, []⟩,
    formatOf "tsv" ⟨"tsv_delimiter", some "delimiter", [], none, []⟩]

def plainFormats : List FormatDefinition :=
  [formatOf "csv" ⟨"csv_delimiter", some "csv-delimiter", ["delimiter"], none, []⟩,
    formatOf "tsv" ⟨"tsv_quote", some "tsv-quote", [], none, []⟩]

def helpFlag : Command := ⟨[⟨"help", some "help", [], some 'h', []⟩], []⟩

def emptyStorage : StorageRegistry where
  backends := []
  backendIndexByScheme := []
  bareLocationBackendIndex := none
  usesSharedRetries := false
  indexed := rfl
  schemes_nodup := List.nodup_nil
  cliKeys_nodup := by decide

theorem schemeIndex_eq_ok (debug : String → String)
    (claimConflict : String → List String → ApplicationAssemblyError)
    {services : List ServiceDefinition} {direction : StorageDirection}
    (h : ((schemeClaimants direction storage services).map (·.1)).Nodup) :
    ∃ index, schemeIndex debug direction claimConflict storage services = .ok index := by
  simp only [schemeIndex]
  rw [KeyClaims.sorted_eq_none.mpr (by simpa [Function.comp_def] using h)]
  exact ⟨_, rfl⟩

theorem exists_fromParts (hinputNames : validateServiceInputNames serviceInputs = .ok ())
    (houtputNames : validateServiceOutputNames serviceOutputs = .ok ())
    (hinputs : ((schemeClaimants .input storage serviceInputs).map (·.1)).Nodup)
    (houtputs : ((schemeClaimants .output storage serviceOutputs).map (·.1)).Nodup)
    (hkeys : (comparedCommands formats storage serviceInputs serviceOutputs).Pairwise fun a b =>
      a.cliKeys.Disjoint b.cliKeys) :
    ∃ app, ApplicationDefinition.fromParts debug formats storage serviceInputs serviceOutputs = .ok app := by
  obtain ⟨inputSchemes, hinput⟩ := schemeIndex_eq_ok debug .inputSchemeClaimConflict hinputs
  obtain ⟨outputSchemes, houtput⟩ := schemeIndex_eq_ok debug .outputSchemeClaimConflict houtputs
  have hkeys := (validateCliKeyClaims_eq_ok debug).mpr hkeys
  refine ⟨⟨formats, storage, serviceInputs, serviceOutputs, inputSchemes, outputSchemes⟩, ?_⟩
  simp [ApplicationDefinition.fromParts, hinputNames, houtputNames, InputSchemeIndex.new, OutputSchemeIndex.new, hinput,
    houtput, hkeys, bind, Except.bind, pure, Except.pure]

def localBackend : StorageBackend where
  name := "local"
  schemes := ["file"]
  access := .readWrite
  claimsBareLocations := true
  usesSharedRetries := false
  args := .new
  schemes_nodup := by decide
  args_nodup := by decide

def gcsBackend : StorageBackend where
  name := "gcs"
  schemes := ["gs"]
  access := .readWrite
  claimsBareLocations := false
  usesSharedRetries := true
  args := ⟨[.named "gcs-storage-endpoint" "gcs-endpoint", .named "gcs-storage-anonymous" "gcs-anonymous",
    .named "gcs-storage-request-timeout" "gcs-request-timeout"], ["gcs-storage-args"]⟩
  schemes_nodup := by decide
  args_nodup := by decide

def cloudStorage : StorageRegistry where
  backends := [localBackend, gcsBackend]
  backendIndexByScheme := [("file", 0), ("gs", 1)]
  bareLocationBackendIndex := some 0
  usesSharedRetries := true
  indexed := rfl
  schemes_nodup := by decide
  cliKeys_nodup := by decide +kernel

def bigQueryInput : ServiceInputDefinition where
  name := "bigquery-storage-read"
  schemes := ["bqs"]
  args := ⟨[.named "bqs-endpoint" "bqs-endpoint", .named "bqs-row-restriction" "bqs-row-restriction"],
    ["BigQueryInputArgs"]⟩
  schemes_nodup := by decide

theorem assembled_iff_cloud : ∃ formats app, FormatRegistry.fromFormats plainFormats = .ok formats ∧
    ApplicationDefinition.fromParts id formats cloudStorage [bigQueryInput] [] = .ok app ∧
    (((app.augmentTransformCommand transformArgs).augment helpFlag).Unambiguous ↔
      UncheckedApart formats cloudStorage [bigQueryInput] [] helpFlag) ∧
    SchemeOwnership .input cloudStorage [bigQueryInput] app.inputSchemes ∧
    SchemeOwnership .output cloudStorage [] app.outputSchemes := by
  obtain ⟨formats, hformats, heq⟩ : ∃ formats, FormatRegistry.fromFormats plainFormats = .ok formats ∧
      formats.formats = plainFormats := exists_fromFormats (by decide) (by decide) (by decide)
  have hcompared : comparedCommands formats cloudStorage [bigQueryInput] [] =
      [transformArgs, (plainFormats.filterMap (·.transform)).foldl Command.augment .new,
        cloudStorage.augmentArgs .new, bigQueryInput.args] := by
    simp [comparedCommands, FormatRegistry.augmentTransformArgs, FormatRegistry.transforms, heq]
  obtain ⟨app, hassembled⟩ : ∃ app,
      ApplicationDefinition.fromParts id formats cloudStorage [bigQueryInput] [] = .ok app :=
    exists_fromParts (by decide) (by decide) (by decide) (by decide) (by rw [hcompared]; decide +kernel)
  exact ⟨formats, app, hformats, hassembled, assembled_iff hassembled helpFlag⟩

/-- Formats that share an alias are registered and assembled, and the composed
command has two arguments of one long name. -/
theorem alias_clash_assembled : ∃ formats app, FormatRegistry.fromFormats aliasedFormats = .ok formats ∧
    ApplicationDefinition.fromParts id formats emptyStorage [] [] = .ok app ∧
    ∃ a b, a ≠ b ∧ a ∈ (app.augmentTransformCommand transformArgs).arguments ∧
      b ∈ (app.augmentTransformCommand transformArgs).arguments ∧
      "delimiter" ∈ a.longs ∧ "delimiter" ∈ b.longs ∧
      ¬ (app.augmentTransformCommand transformArgs).Unambiguous := by
  obtain ⟨formats, hformats, heq⟩ : ∃ formats, FormatRegistry.fromFormats aliasedFormats = .ok formats ∧
      formats.formats = aliasedFormats := exists_fromFormats (by decide) (by decide) (by decide)
  have htransforms : formats.transforms = aliasedFormats.filterMap (·.transform) := by
    rw [FormatRegistry.transforms, heq]
  have hcompared : comparedCommands formats emptyStorage [] [] =
      [transformArgs, (aliasedFormats.filterMap (·.transform)).foldl Command.augment .new,
        emptyStorage.augmentArgs .new] := by
    simp [comparedCommands, FormatRegistry.augmentTransformArgs, htransforms]
  obtain ⟨app, hassembled⟩ : ∃ app, ApplicationDefinition.fromParts id formats emptyStorage [] [] = .ok app :=
    exists_fromParts (by decide) (by decide) (by decide) (by decide) (by rw [hcompared]; decide +kernel)
  obtain ⟨-, -, -, hformats', hstorage, hinputs, houtputs⟩ := fromParts_ok hassembled
  refine ⟨formats, app, hformats, hassembled, ⟨"csv_delimiter", some "csv-delimiter", ["delimiter"], none, []⟩,
    ⟨"tsv_delimiter", some "delimiter", [], none, []⟩, by decide, ?_⟩
  simp only [ApplicationDefinition.augmentTransformCommand, FormatRegistry.augmentTransformArgs, hformats', hstorage,
    hinputs, houtputs, htransforms]
  decide +kernel

end SilkChiffon.Registration
