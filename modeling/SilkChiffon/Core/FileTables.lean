import SilkChiffon.Core.CommonOrdering
import SilkChiffon.Core.FileGroups
import SilkChiffon.Core.SchemaComparison
import SilkChiffon.Lib.Gather

/-!
# Tables of file groups

A group is read as one table. Its schema is the one of the representative;
every file's statistics, ordering and own schema are read by concurrent tasks
that end in any order, and a file with another schema is refused. What a file
format reads, how statistics are merged and how expressions are adapted to a
file's schema are parameters.
-/

namespace SilkChiffon.ExactFiles

open FileInput (OrderingCrate PartitionedFile commonOutputOrdering commonOutputOrdering_cases)
open Grouping (sortBy)
open InputStoreView (ViewUrls ViewPaths)
open Lexicographic (SortedBy)
open SchemaComparison (Schema schemasMatchIgnoringMetadata schemasMatch_iff)

variable {U σ μ ε ν T E L A : Type}

/-- What a format reads of a file, how statistics are merged and expressions
adapted; how errors and schemas print. -/
structure FileFormat (U σ μ ε T L A : Type) where
  inferSchema : StoreView U σ → ObjectMeta μ → Except ε Schema
  inferStatsAndOrdering : StoreView U σ → Schema → ObjectMeta μ → Except ε (T × Option L)
  tryMergeStatistics : List T → Schema → Except ε T
  createAdapter : Schema → Schema → Except ε A
  display : ε → String
  debug : Schema → String

structure ExactFile (U μ T L : Type) extends InputFile U μ, PartitionedFile L where
  statistics : T

inductive TableError (ε : Type)
  | noStore (url : List Char)
  | context (text : String) (source : ε)
  | merging (source : ε)
  | adapting (source : ε)
  | plan (text : String)
  | execution (text : String)

-- ---------------------------------------------------------------------------
-- The provider
-- ---------------------------------------------------------------------------

/-- An adapter for a file whose schema is the table's up to metadata. -/
def StrictPhysicalExprAdapterFactory.create (format : FileFormat U σ μ ε T L A)
    (logicalFileSchema physicalFileSchema : Schema) : Except (TableError ε) A :=
  if schemasMatchIgnoringMetadata logicalFileSchema physicalFileSchema then
    (format.createAdapter logicalFileSchema physicalFileSchema).mapError .adapting
  else
    .error (.execution (s!"input file schema does not match group schema: " ++
      s!"expected {format.debug logicalFileSchema}, got {format.debug physicalFileSchema}"))

structure ExactFileTableProvider (U σ μ ε T L A : Type) where
  objectStoreUrl : List Char
  schema : Schema
  files : List (ExactFile U μ T L)
  statistics : T
  outputOrdering : List L
  format : FileFormat U σ μ ε T L A
  expressionAdapterFactory : Option (Schema → Schema → Except (TableError ε) A)
  nonempty : files ≠ []

structure ExactFileTableProviderBuilder (U σ μ ε T L A : Type) where
  objectStoreUrl : Option (List Char) := none
  schema : Option Schema := none
  files : Option (List (ExactFile U μ T L)) := none
  statistics : Option T := none
  outputOrdering : Option (List L) := none
  format : Option (FileFormat U σ μ ε T L A) := none
  expressionAdapterFactory : Option (Schema → Schema → Except (TableError ε) A) := none

def required {α : Type} (what : String) : Option α → Except (TableError ε) α
  | some a => .ok a
  | none => .error (.plan s!"exact-file provider requires {what}")

def ExactFileTableProviderBuilder.build (builder : ExactFileTableProviderBuilder U σ μ ε T L A) :
    Except (TableError ε) (ExactFileTableProvider U σ μ ε T L A) := do
  let objectStoreUrl ← required "an object-store URL" builder.objectStoreUrl
  let schema ← required "a schema" builder.schema
  let files ← required "files" builder.files
  if hfiles : files = [] then throw (.execution "an exact-file table provider requires at least one file")
  else
    let statistics ← required "statistics" builder.statistics
    let outputOrdering ← required "output ordering" builder.outputOrdering
    let format ← required "a file format" builder.format
    return ⟨objectStoreUrl, schema, files, statistics, outputOrdering, format, builder.expressionAdapterFactory, hfiles⟩

-- ---------------------------------------------------------------------------
-- Creating it
-- ---------------------------------------------------------------------------

section
variable (urls : ViewUrls U) (format : FileFormat U σ μ ε T L A)

def groupSchema (env : RuntimeEnv U σ) (group : FileInputGroup U μ ν) :
    Except (TableError ε) (StoreView U σ × Schema) :=
  match env.objectStores group.objectStoreUrl with
  | none => .error (.noStore group.objectStoreUrl)
  | some view =>
    let url := urls.asStr group.representative.canonicalUrl
    match format.inferSchema view group.representative.objectMeta with
    | .error source => .error (.context s!"while inferring schema from representative {url}" source)
    | .ok schema => .ok (view, schema)

def readFileMeta (view : StoreView U σ) (schema : Schema) (file : InputFile U μ) : Except String (T × Option L) :=
  let url := urls.asStr file.canonicalUrl
  match format.inferStatsAndOrdering view schema file.objectMeta with
  | .error source => .error s!"while reading file metadata for {url}: {format.display source}"
  | .ok found =>
    match format.inferSchema view file.objectMeta with
    | .error source => .error s!"while validating the schema of {url}: {format.display source}"
    | .ok physicalSchema =>
      if schemasMatchIgnoringMetadata schema physicalSchema then .ok found
      else .error (s!"input {url} schema does not match group schema: expected {format.debug schema}, " ++
        s!"got {format.debug physicalSchema}")

def fileTask (view : StoreView U σ) (schema : Schema) (files : List (InputFile U μ)) (index : Nat) :
    Except String (ExactFile U μ T L) :=
  match files[index]? with
  | none => .error ""
  | some file => (readFileMeta urls format view schema file).map fun (statistics, ordering) =>
    { file with statistics, ordering }

variable [DecidableEq E] (crate : OrderingCrate E L)

def tableOf (group : FileInputGroup U μ ν) (schema : Schema) (fileMeta : List (Nat × ExactFile U μ T L)) :
    Except (TableError ε) (ExactFileTableProvider U σ μ ε T L A) := do
  let files := fileMeta.map Prod.snd
  let statistics ← (format.tryMergeStatistics (files.map ExactFile.statistics) schema).mapError .merging
  ExactFileTableProviderBuilder.build
    { objectStoreUrl := some group.objectStoreUrl
      schema := some schema
      files := some files
      statistics := some statistics
      outputOrdering := some (commonOutputOrdering crate (files.map ExactFile.toPartitionedFile))
      format := some format
      expressionAdapterFactory := some (StrictPhysicalExprAdapterFactory.create format) }

/-- What `create_table_provider` returns in some order of its metadata reads,
`concurrency` of which run at once. -/
inductive CreatesTableProvider (env : RuntimeEnv U σ) (group : FileInputGroup U μ ν) (concurrency : Nat) :
    Except (TableError ε) (ExactFileTableProvider U σ μ ε T L A) → Prop
  | unprepared (h : groupSchema urls format env group = .error e) :
      CreatesTableProvider env group concurrency (.error e)
  | failed (h : groupSchema urls format env group = .ok (view, schema))
      (hread : Gather.Gathers (fileTask urls format view schema group.files) group.files.length concurrency
        (.error text)) :
      CreatesTableProvider env group concurrency (.error (.execution text))
  | read (h : groupSchema urls format env group = .ok (view, schema))
      (hread : Gather.Gathers (fileTask urls format view schema group.files) group.files.length concurrency
        (.ok fileMeta)) :
      CreatesTableProvider env group concurrency (tableOf format crate group schema (sortBy Prod.fst fileMeta))

def createOneByOne (env : RuntimeEnv U σ) (group : FileInputGroup U μ ν) :
    Except (TableError ε) (ExactFileTableProvider U σ μ ε T L A) := do
  let (view, schema) ← groupSchema urls format env group
  let fileMeta ← (Gather.oneByOne (fileTask urls format view schema group.files) group.files.length).mapError .execution
  tableOf format crate group schema fileMeta

end

-- ---------------------------------------------------------------------------
-- What is read
-- ---------------------------------------------------------------------------

variable {urls : ViewUrls U} {format : FileFormat U σ μ ε T L A} {env : RuntimeEnv U σ} {group : FileInputGroup U μ ν}

structure Describes (format : FileFormat U σ μ ε T L A) (view : StoreView U σ) (schema : Schema)
    (file : InputFile U μ) (exact : ExactFile U μ T L) : Prop where
  same : exact.toInputFile = file
  read : format.inferStatsAndOrdering view schema file.objectMeta = .ok (exact.statistics, exact.ordering)
  schema : ∃ physicalSchema, format.inferSchema view file.objectMeta = .ok physicalSchema ∧
    schema.erase = physicalSchema.erase

theorem groupSchema_ok (h : groupSchema urls format env group = .ok (view, schema)) :
    env.objectStores group.objectStoreUrl = some view ∧
      format.inferSchema view group.representative.objectMeta = .ok schema := by
  unfold groupSchema at h
  split at h
  · cases h
  · rename_i store hstore
    dsimp only at h
    split at h
    · cases h
    · rename_i found hfound
      obtain ⟨rfl, rfl⟩ := Prod.mk.inj (Except.ok.inj h)
      exact ⟨hstore, hfound⟩

theorem readFileMeta_ok {file : InputFile U μ} (h : readFileMeta urls format view schema file = .ok found) :
    format.inferStatsAndOrdering view schema file.objectMeta = .ok found ∧ ∃ physicalSchema,
      format.inferSchema view file.objectMeta = .ok physicalSchema ∧ schema.erase = physicalSchema.erase := by
  unfold readFileMeta at h
  dsimp only at h
  split at h
  · cases h
  · rename_i hread
    split at h
    · cases h
    · rename_i physicalSchema hschema
      split at h
      · rename_i hsame
        obtain rfl := Except.ok.inj h
        exact ⟨hread, physicalSchema, hschema, schemasMatch_iff.mp hsame⟩
      · cases h

theorem fileTask_ok {files : List (InputFile U μ)} (h : fileTask urls format view schema files index = .ok exact) :
    ∃ file, files[index]? = some file ∧ Describes format view schema file exact := by
  unfold fileTask at h
  split at h
  · cases h
  · rename_i file hfile
    obtain ⟨found, hfound, rfl⟩ := Lists.map_eq_ok.mp h
    obtain ⟨hread, hschema⟩ := readFileMeta_ok hfound
    exact ⟨file, hfile, rfl, hread, hschema⟩

theorem fileTask_error {files : List (InputFile U μ)} (hindex : index < files.length)
    (h : fileTask urls format view schema files index = .error text) :
    ∃ file ∈ files, readFileMeta urls format view schema file = .error text := by
  unfold fileTask at h
  rw [List.getElem?_eq_getElem hindex] at h
  dsimp only at h
  cases hread : readFileMeta urls format view schema files[index] with
  | error text' =>
    rw [hread] at h
    exact ⟨_, List.getElem_mem hindex, hread.trans (congrArg _ (Except.error.inj h))⟩
  | ok found =>
    rw [hread] at h
    cases h

theorem oneByOne_describes {files : List (InputFile U μ)}
    (h : Gather.oneByOne (fileTask urls format view schema files) files.length = .ok fileMeta) :
    List.Forall₂ (Describes format view schema) files (fileMeta.map Prod.snd) := by
  have hall := Lists.mapM_eq_ok_iff_forall₂.mp h
  have hlength := hall.length_eq
  rw [List.length_range] at hlength
  refine List.forall₂_iff_get.mpr ⟨by simpa using hlength, fun i hi hi' => ?_⟩
  rw [List.length_map] at hi'
  have hentry := hall.get (by simpa using hi) hi'
  obtain ⟨exact, hexact, hpair⟩ := Lists.map_eq_ok.mp hentry
  obtain ⟨file, hfile, hdescribes⟩ := fileTask_ok hexact
  simp only [List.get_eq_getElem, List.getElem_range, List.getElem_map] at hfile hpair ⊢
  rw [← hpair]
  obtain rfl := Option.some.inj ((List.getElem?_eq_getElem hi).symm.trans hfile)
  exact hdescribes

-- ---------------------------------------------------------------------------
-- The table
-- ---------------------------------------------------------------------------

variable [DecidableEq E] {crate : OrderingCrate E L}

/-- The table of a group: the representative's schema, which is every file's,
and the files in their order with what they say of themselves. -/
structure TableOf (format : FileFormat U σ μ ε T L A) (crate : OrderingCrate E L) (env : RuntimeEnv U σ)
    (group : FileInputGroup U μ ν) (provider : ExactFileTableProvider U σ μ ε T L A) : Prop where
  url : provider.objectStoreUrl = group.objectStoreUrl
  read : ∃ view, env.objectStores group.objectStoreUrl = some view ∧
    format.inferSchema view group.representative.objectMeta = .ok provider.schema ∧
      List.Forall₂ (Describes format view provider.schema) group.files provider.files
  statistics : format.tryMergeStatistics (provider.files.map ExactFile.statistics) provider.schema =
    .ok provider.statistics
  ordering : provider.outputOrdering = commonOutputOrdering crate (provider.files.map ExactFile.toPartitionedFile)
  adapter : provider.expressionAdapterFactory = some (StrictPhysicalExprAdapterFactory.create format)
  format : provider.format = format

theorem required_ok {α : Type} {value : Option α} {a : α} (h : (required what value : Except (TableError ε) α) = .ok a) :
    value = some a := by
  cases value with
  | none => cases h
  | some b => exact congrArg some (Except.ok.inj h)

theorem build_ok {builder : ExactFileTableProviderBuilder U σ μ ε T L A} {provider : ExactFileTableProvider U σ μ ε T L A}
    (h : (builder.build : Except (TableError ε) _) = .ok provider) :
    builder.objectStoreUrl = some provider.objectStoreUrl ∧ builder.schema = some provider.schema ∧
      builder.files = some provider.files ∧ builder.statistics = some provider.statistics ∧
        builder.outputOrdering = some provider.outputOrdering ∧ builder.format = some provider.format ∧
          builder.expressionAdapterFactory = provider.expressionAdapterFactory := by
  obtain ⟨url, hurl, h⟩ := Lists.bind_eq_ok.mp h
  obtain ⟨schema, hschema, h⟩ := Lists.bind_eq_ok.mp h
  obtain ⟨files, hfiles, h⟩ := Lists.bind_eq_ok.mp h
  split at h
  · cases h
  · obtain ⟨statistics, hstatistics, h⟩ := Lists.bind_eq_ok.mp h
    obtain ⟨ordering, hordering, h⟩ := Lists.bind_eq_ok.mp h
    obtain ⟨format, hformat, h⟩ := Lists.bind_eq_ok.mp h
    obtain rfl := Except.ok.inj h
    exact ⟨required_ok hurl, required_ok hschema, required_ok hfiles, required_ok hstatistics,
      required_ok hordering, required_ok hformat, rfl⟩

theorem createOneByOne_ok (h : createOneByOne urls format crate env group = .ok provider) :
    TableOf format crate env group provider := by
  obtain ⟨⟨view, schema⟩, hschema, h⟩ := Lists.bind_eq_ok.mp h
  obtain ⟨fileMeta, hread, h⟩ := Lists.bind_eq_ok.mp h
  obtain ⟨statistics, hstatistics, h⟩ := Lists.bind_eq_ok.mp h
  obtain ⟨hurl, hschema', hfiles, hstatistics', hordering, hformat, hadapter⟩ := build_ok h
  obtain rfl := Option.some.inj hschema'
  obtain ⟨hview, hinferred⟩ := groupSchema_ok hschema
  have hfiles := Option.some.inj hfiles
  have hdescribes := oneByOne_describes (Lists.mapError_eq_ok.mp hread)
  rw [hfiles] at hdescribes hstatistics hordering
  exact ⟨(Option.some.inj hurl).symm, ⟨view, hview, hinferred, hdescribes⟩,
    (Lists.mapError_eq_ok.mp hstatistics).trans (congrArg _ (Option.some.inj hstatistics')),
    (Option.some.inj hordering).symm, hadapter.symm, (Option.some.inj hformat).symm⟩

/-- No order of the reads makes another table than reading one file after the other. -/
theorem createsTableProvider_cases (h : CreatesTableProvider urls format crate env group concurrency result) :
    result = createOneByOne urls format crate env group ∨ ∃ view schema text file,
      groupSchema urls format env group = .ok (view, schema) ∧ file ∈ group.files ∧
        readFileMeta urls format view schema file = .error text ∧ result = .error (.execution text) ∧
          ∀ provider, createOneByOne urls format crate env group ≠ .ok provider := by
  cases h with
  | unprepared h =>
    left
    unfold createOneByOne
    rw [h]
    rfl
  | @failed view schema text h hread =>
    right
    obtain ⟨index, hindex, htask⟩ := Gather.gathers_error hread
    obtain ⟨file, hfile, htext⟩ := fileTask_error hindex htask
    refine ⟨view, schema, text, file, h, hfile, htext, rfl, fun provider hprovider => ?_⟩
    obtain ⟨found, hfound, hprovider⟩ := Lists.bind_eq_ok.mp hprovider
    obtain rfl := Except.ok.inj (h.symm.trans hfound)
    obtain ⟨fileMeta, hall, -⟩ := Lists.bind_eq_ok.mp hprovider
    obtain ⟨_, hread, -⟩ := Gather.gathers_of_oneByOne (Lists.mapError_eq_ok.mp hall) hread
    cases hread
  | read h hread =>
    left
    unfold createOneByOne
    rw [h]
    dsimp only [bind, Except.bind]
    rw [Gather.gathers_ok hread]
    rfl

theorem claimed_orderings {R : Type} {files : List (PartitionedFile L)} (h : ordering ∈ commonOutputOrdering crate files)
    (hfile : file ∈ files) : ∃ declared, file.ordering = some declared ∧
      ∀ (cmp : E → R → R → Ordering) (rows : List R), SortedBy cmp (crate.exprs declared) rows →
        SortedBy cmp (crate.exprs ordering) rows := by
  cases files with
  | nil => cases hfile
  | cons first rest =>
    rcases commonOutputOrdering_cases crate first rest with ⟨claimed, hclaimed, hlongest⟩ | ⟨hnone, -⟩
    · rw [hclaimed] at h
      obtain rfl := List.mem_singleton.mp h
      obtain ⟨declared, hdeclared, hfront⟩ := (hlongest _).mp (List.prefix_refl _) file hfile
      exact ⟨declared, hdeclared, fun _ _ hsorted => hsorted.of_prefix hfront⟩
    · rw [hnone] at h
      cases h

/-- Whatever order the metadata reads of a group end in: the table that is
created is the one that reading one file after the other makes, and an error is
its error or that of a file, named in it. A table has the representative's
schema, which is every file's up to metadata, and the group's files in their
order; rows sorted as a file declares are sorted by every ordering that the
table claims. With room for a read, the reads end from every moment on. -/
theorem group_table {R : Type} (h : CreatesTableProvider urls format crate env group concurrency result) :
    (∀ provider, result = .ok provider ↔ createOneByOne urls format crate env group = .ok provider) ∧
    (∀ e, result = .error e → createOneByOne urls format crate env group = .error e ∨
      ∃ view schema text, ∃ file ∈ group.files, groupSchema (ε := ε) urls format env group = .ok (view, schema) ∧
        readFileMeta urls format view schema file = .error text ∧ e = .execution text) ∧
    (∀ provider, result = .ok provider → TableOf format crate env group provider ∧
      ∀ ordering ∈ provider.outputOrdering, ∀ file ∈ provider.files, ∃ declared, file.ordering = some declared ∧
        ∀ (cmp : E → R → R → Ordering) (rows : List R), SortedBy cmp (crate.exprs declared) rows →
          SortedBy cmp (crate.exprs ordering) rows) ∧
    (0 < concurrency → ∀ view schema reading,
      Gather.Reachable (fileTask urls format view schema group.files) group.files.length concurrency reading →
        ∃ last fetched, Relation.ReflTransGen
          (Gather.Step (fileTask urls format view schema group.files) group.files.length concurrency) reading last ∧
            Gather.Ends (fileTask urls format view schema group.files) group.files.length last fetched) := by
  have hsame : ∀ provider, result = .ok provider ↔ createOneByOne urls format crate env group = .ok provider := by
    intro provider
    rcases createsTableProvider_cases h with rfl | ⟨_, _, _, _, _, _, _, rfl, hnone⟩
    · rfl
    · exact ⟨nofun, fun hprovider => absurd hprovider (hnone provider)⟩
  refine ⟨hsame, fun e he => ?_, fun provider hprovider => ?_,
    fun hconcurrency _ _ _ hreading => Gather.reachable_ends hconcurrency hreading⟩
  · rcases createsTableProvider_cases h with rfl | ⟨view, schema, text, file, hschema, hfile, htext, rfl, -⟩
    · exact .inl he
    · exact .inr ⟨view, schema, text, file, hfile, hschema, htext, (Except.error.inj he).symm⟩
  · have htable := createOneByOne_ok ((hsame provider).mp hprovider)
    refine ⟨htable, fun ordering hordering file hfile => ?_⟩
    rw [htable.ordering] at hordering
    exact claimed_orderings hordering (List.mem_map_of_mem hfile)

open InputStoreView (SampleUrl sampleUrls plainPaths)

def sizeFormat : FileFormat SampleUrl SampleUrl Unit Unit Nat (FileInput.LexOrdering Nat Unit) Unit where
  inferSchema _ _ := .ok ⟨[], []⟩
  inferStatsAndOrdering _ _ objectMeta := .ok (objectMeta.size, none)
  tryMergeStatistics sizes _ := .ok sizes.sum
  createAdapter _ _ := .ok ()
  display _ := "unavailable"
  debug _ := "no columns"

def objectFile : InputFile SampleUrl Unit := (sampleObject .object).file sampleUrls plainPaths

def versionFile : InputFile SampleUrl Unit :=
  let file := (sampleObject .version).file sampleUrls plainPaths
  { file with objectMeta := { file.objectMeta with size := 2 } }

def sampleGroup : FileInputGroup SampleUrl Unit Unit :=
  ⟨objectStoreUrl sampleUrls .bucket, [objectFile, versionFile], 0, (), Nat.two_pos⟩

def sampleEnv : RuntimeEnv SampleUrl SampleUrl :=
  RuntimeEnv.new.registerObjectStore (objectStoreUrl sampleUrls .bucket) ⟨.bucket, .bucket⟩

def sizedFile (file : InputFile SampleUrl Unit) : ExactFile SampleUrl Unit Nat (FileInput.LexOrdering Nat Unit) :=
  { file with statistics := file.objectMeta.size, ordering := none }

def sampleFiles : List (Nat × ExactFile SampleUrl Unit Nat (FileInput.LexOrdering Nat Unit)) :=
  [(0, sizedFile objectFile), (1, sizedFile versionFile)]

theorem sampleGroup_created : CreatesTableProvider sampleUrls sizeFormat (FileInput.lexOrderings Nat Unit) sampleEnv
    sampleGroup 2 (tableOf sizeFormat (FileInput.lexOrderings Nat Unit) sampleGroup ⟨[], []⟩ sampleFiles) := by
  have hschema : groupSchema sampleUrls sizeFormat sampleEnv sampleGroup =
      (.ok (⟨.bucket, .bucket⟩, ⟨[], []⟩) : Except (TableError Unit) _) := by
    unfold groupSchema
    rw [show sampleEnv.objectStores sampleGroup.objectStoreUrl = some ⟨.bucket, .bucket⟩ from
      registerObjectStore_self ..]
    rfl
  have hsame : schemasMatchIgnoringMetadata ⟨[], []⟩ ⟨[], []⟩ = true := schemasMatch_iff.mpr rfl
  have htask : ∀ entry ∈ sampleFiles,
      fileTask sampleUrls sizeFormat ⟨.bucket, .bucket⟩ ⟨[], []⟩ sampleGroup.files entry.1 = .ok entry.2 := by
    simp [sampleFiles, fileTask, readFileMeta, sampleGroup, sizeFormat, hsame, Except.map, sizedFile]
  have hrun : Gather.Reachable (fileTask sampleUrls sizeFormat ⟨.bucket, .bucket⟩ ⟨[], []⟩ sampleGroup.files) 2 2 .new :=
    .refl
  have hrun := hrun.tail (.start (by decide) (by decide))
  have hrun := hrun.tail (.start (by decide) (by decide))
  have hrun := hrun.tail (.collect (i := 1) (by decide) (htask (1, sizedFile versionFile) (by simp [sampleFiles])))
  have hrun := hrun.tail (.collect (i := 0) (by decide) (htask (0, sizedFile objectFile) (by simp [sampleFiles])))
  have hread : CreatesTableProvider sampleUrls sizeFormat (FileInput.lexOrderings Nat Unit) sampleEnv sampleGroup 2
      (tableOf sizeFormat (FileInput.lexOrderings Nat Unit) sampleGroup ⟨[], []⟩
        (sortBy Prod.fst [(1, sizedFile versionFile), (0, sizedFile objectFile)])) :=
    .read hschema ⟨_, hrun, .all rfl rfl⟩
  have hsorted : sortBy Prod.fst [(1, sizedFile versionFile), (0, sizedFile objectFile)] = sampleFiles := by
    simp [sortBy, List.mergeSort, List.MergeSort.Internal.splitInTwo, sampleFiles]
  rwa [hsorted] at hread

theorem group_table_versions : ∃ provider, createOneByOne sampleUrls sizeFormat (FileInput.lexOrderings Nat Unit)
    sampleEnv sampleGroup = .ok provider ∧ provider.files.map (·.statistics) = [1, 2] ∧ provider.statistics = 3 := by
  refine ⟨_, ((group_table (R := Unit) sampleGroup_created).1 _).mp rfl, rfl, rfl⟩

end SilkChiffon.ExactFiles
