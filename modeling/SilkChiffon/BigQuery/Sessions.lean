import SilkChiffon.Cli.SortSpec
import SilkChiffon.BigQuery.ReadStream
import SilkChiffon.BigQuery.SessionSchema
import SilkChiffon.BigQuery.Snapshot
import SilkChiffon.BigQuery.StatusDetails

/-!
# Read sessions

A session is asked for with one request and answered with a session of the
service's. The answer is taken for a lease only if it is about the table, the
snapshot and the options of the request, lies in the expected location and
names distinct streams under its own name.
-/

namespace SilkChiffon.BigQuery

def guaranteedSessionLifetime : Duration := secs (6 * 60 * 60)

def discoveryStreamCount : Int := 1

def maxRowRestrictionBytes : Nat := 1048576

-- ---------------------------------------------------------------------------
-- Messages
-- ---------------------------------------------------------------------------

structure ProtoTimestamp where
  seconds : Int
  nanos : Int
  deriving DecidableEq

def PinnedSnapshot.toProto (snapshot : PinnedSnapshot) : ProtoTimestamp :=
  ⟨snapshot.seconds, snapshot.nanos⟩

structure ArrowSerializationOptions where
  bufferCompression : Int
  picosTimestampPrecision : Int
  deriving DecidableEq

inductive OutputFormatSerializationOptions
  | arrow (options : ArrowSerializationOptions)
  | avro
  deriving DecidableEq

/-- The sample percentage is a floating point number, by its bits. -/
structure TableReadOptions where
  selectedFields : List String
  rowRestriction : String
  samplePercentage : Option UInt64
  responseCompressionCodec : Option Int
  outputFormatSerializationOptions : Option OutputFormatSerializationOptions
  deriving DecidableEq

structure TableModifiers where
  snapshotTime : Option ProtoTimestamp
  deriving DecidableEq

inductive ReadSessionSchema
  | avro
  | arrow (serializedSchema : Bytes)
  deriving DecidableEq

structure ReadSession where
  name : String := ""
  expireTime : Option ProtoTimestamp := none
  dataFormat : Int := 0
  schema : Option ReadSessionSchema := none
  table : String := ""
  tableModifiers : Option TableModifiers := none
  readOptions : Option TableReadOptions := none
  streams : List String := []
  estimatedTotalBytesScanned : Int := 0
  estimatedTotalPhysicalFileSize : Int := 0
  estimatedRowCount : Int := 0
  deriving DecidableEq

def arrowDataFormat : Int := 2

structure CreateReadSessionRequest where
  parent : String
  readSession : Option ReadSession
  maxStreamCount : Int
  preferredMinStreamCount : Int
  deriving DecidableEq

-- ---------------------------------------------------------------------------
-- What is asked for
-- ---------------------------------------------------------------------------

structure BigQueryReference where
  tableResource : String
  expectedLocation : Option String

inductive ArrowWireCompression
  | lz4 | zstd | none
  deriving DecidableEq

inductive PicosTimestampPrecision
  | micros | nanos | picos
  deriving DecidableEq

structure SessionInputArgs extends BigQueryInputArgs where
  arrowWireCompression : ArrowWireCompression
  picosTimestampPrecision : PicosTimestampPrecision
  maxStreamCount : Option UInt32

inductive ReadSessionSpecError
  | invalidOwner
  | invalidStreamCount
  | locationMismatch
  | invalidSelectedField
  | restrictionTooLarge
  | compressionConflict
  deriving DecidableEq

def validProject (value : String) : Bool :=
  value ≠ "" && value.utf8ByteSize ≤ 255 && value.toList.all fun c => c.isAlphanum || ['-', '.', ':'].contains c

inductive SessionPurpose
  | discovery | execution
  deriving DecidableEq

/-- `D` are the digests of sources. -/
structure ReadSessionSpec (D : Type) where
  purpose : SessionPurpose
  tableResource : String
  ownerProject : String
  owner_valid : validProject ownerProject = true
  expectedLocation : Option String
  snapshot : PinnedSnapshot
  selectedFields : List String
  rowRestriction : Option String
  arrowWireCompression : ArrowWireCompression
  responseCompression : ResponseCompression
  picosTimestampPrecision : PicosTimestampPrecision
  maxStreamCount : Int
  count_pos : 0 < maxStreamCount
  identity : D

def toBeBytes : Nat → Int → Bytes
  | 0, _ => []
  | n + 1, value => toBeBytes n (value / 256) ++ [UInt8.ofNat (value % 256).toNat]

def hashField (value : Bytes) : Bytes := toBeBytes 8 value.length ++ value

/-- The bytes that the identity of a source is the digest of. -/
def SourceIdentity.preimage (reference : BigQueryReference) (snapshot : PinnedSnapshot)
    (selectedFields : List String) (rowRestriction : Option String) : Bytes :=
  hashField (Text.utf8 "silk-bqs-source-v1".toList) ++ hashField (Text.utf8 reference.tableResource.toList) ++
    hashField (toBeBytes 8 snapshot.seconds) ++ hashField (toBeBytes 4 snapshot.nanos) ++
    selectedFields.flatMap (fun field => hashField (Text.utf8 field.toList)) ++
    hashField (rowRestriction.elim [] fun restriction => Text.utf8 restriction.toList)

namespace ReadSessionSpec

variable {D : Type} (sha256 : Bytes → D)

def new (purpose : SessionPurpose) (reference : BigQueryReference) (snapshot : PinnedSnapshot)
    (ownerProject : String) (expectedLocation : Option String) (selectedFields : List String)
    (rowRestriction : Option String) (arrowWireCompression : ArrowWireCompression)
    (responseCompression : ResponseCompression) (picosTimestampPrecision : PicosTimestampPrecision)
    (maxStreamCount : Int) : Except ReadSessionSpecError (ReadSessionSpec D) :=
  if howner : validProject ownerProject = true then
    if hcount : 0 < maxStreamCount then
      if selectedFields.any fun field => field.toList.all Cli.isWhitespace then .error .invalidSelectedField
      else if rowRestriction.any fun restriction => maxRowRestrictionBytes < restriction.utf8ByteSize then
        .error .restrictionTooLarge
      else if arrowWireCompression ≠ .none ∧ responseCompression ≠ .none then .error .compressionConflict
      else
        let rowRestriction := rowRestriction.filter (· ≠ "")
        .ok {
          purpose, tableResource := reference.tableResource
          ownerProject, owner_valid := howner
          expectedLocation, snapshot, selectedFields, rowRestriction, arrowWireCompression
          responseCompression, picosTimestampPrecision
          maxStreamCount, count_pos := hcount
          identity := sha256 (SourceIdentity.preimage reference snapshot selectedFields rowRestriction) }
    else .error .invalidStreamCount
  else .error .invalidOwner

def discovery (reference : BigQueryReference) (snapshot : PinnedSnapshot) (ownerProject : String) :
    Except ReadSessionSpecError (ReadSessionSpec D) :=
  new sha256 .discovery reference snapshot ownerProject reference.expectedLocation [] none .none .none .micros
    discoveryStreamCount

def execution (reference : BigQueryReference) (snapshot : PinnedSnapshot) (ownerProject discoveredLocation : String)
    (selectedFields : List String) (rowRestriction : Option String) (maxStreamCount : Nat) (args : SessionInputArgs) :
    Except ReadSessionSpecError (ReadSessionSpec D) :=
  if reference.expectedLocation.any (· ≠ discoveredLocation) then .error .locationMismatch
  else
    match i32TryFrom maxStreamCount with
    | none => .error .invalidStreamCount
    | some maxStreamCount =>
      new sha256 .execution reference snapshot ownerProject (some discoveredLocation) selectedFields rowRestriction
        args.arrowWireCompression args.responseCompression args.picosTimestampPrecision maxStreamCount

variable (spec : ReadSessionSpec D)

def bufferCompression : Int :=
  match spec.arrowWireCompression with
  | .none => 0
  | .lz4 => 1
  | .zstd => 2

def picosPrecision : Int :=
  match spec.picosTimestampPrecision with
  | .micros => 1
  | .nanos => 2
  | .picos => 3

def responseCompressionCodec : Option Int :=
  match spec.responseCompression with
  | .none => none
  | .lz4 => some 2

def readOptions : TableReadOptions where
  selectedFields := spec.selectedFields
  rowRestriction := spec.rowRestriction.getD ""
  samplePercentage := none
  responseCompressionCodec := spec.responseCompressionCodec
  outputFormatSerializationOptions := some (.arrow ⟨spec.bufferCompression, spec.picosPrecision⟩)

def createRequest : CreateReadSessionRequest where
  parent := "projects/" ++ spec.ownerProject
  readSession := some {
    dataFormat := arrowDataFormat
    table := spec.tableResource
    tableModifiers := some ⟨some spec.snapshot.toProto⟩
    readOptions := some spec.readOptions }
  maxStreamCount := spec.maxStreamCount
  preferredMinStreamCount := 0

end ReadSessionSpec

-- ---------------------------------------------------------------------------
-- What is answered
-- ---------------------------------------------------------------------------

structure SessionName where
  value : String
  location : String
  deriving DecidableEq

/-- `S` are the schemas that Arrow converts to. -/
structure SessionLease (S D : Type) where
  name : SessionName
  streams : List String
  schema : S
  conservativeDeadline : Duration
  sourceIdentity : D
  estimatedRowCount : Option Nat
  estimatedTotalBytesScanned : Nat
  estimatedTotalPhysicalFileSize : Nat
  deriving DecidableEq

inductive ReadSessionErrorKind
  | transport
  | sourceMismatch
  | missingArrowSchema
  | invalidArrowSchema
  | invalidExpiration
  | invalidSessionName
  | invalidStreams
  | invalidEstimates
  | nonMonotonicClock
  | invalidRetryPolicy
  deriving DecidableEq

def validResourceId (value : List Char) : Bool :=
  value ≠ [] && value.all fun c => c.toNat < 128 && ¬ [' ', '\t', '\n', '\x0c', '\r'].contains c &&
    ¬ (c.toNat < 32 || c.toNat = 127) && c ≠ '/'

def projectsSegment : List Char := ['p', 'r', 'o', 'j', 'e', 'c', 't', 's']
def locationsSegment : List Char := ['l', 'o', 'c', 'a', 't', 'i', 'o', 'n', 's']
def sessionsSegment : List Char := ['s', 'e', 's', 's', 'i', 'o', 'n', 's']

def validateSessionName (value ownerProject : String) (expectedLocation : Option String) :
    Except ReadSessionErrorKind SessionName :=
  match value.toList.splitOn '/' with
  | [projects, project, locations, location, sessions, session] =>
    if projects ≠ projectsSegment ∨ locations ≠ locationsSegment ∨ sessions ≠ sessionsSegment then
      .error .invalidSessionName
    else if project ≠ ownerProject.toList ∨ expectedLocation.any (·.toList ≠ location) ∨ ¬ validResourceId location ∨
        ¬ validResourceId session then
      .error .invalidSessionName
    else .ok ⟨value, String.ofList location⟩
  | _ => .error .invalidSessionName

def streamsFront (name : String) : List Char := name.toList ++ ['/', 's', 't', 'r', 'e', 'a', 'm', 's', '/']

def validateStreams (front : List Char) (seen : List String) : List String → Except ReadSessionErrorKind (List String)
  | [] => .ok []
  | stream :: streams =>
    match stream.toList.dropPrefix? front with
    | none => .error .invalidStreams
    | some id =>
      if ¬ validResourceId id ∨ stream ∈ seen then .error .invalidStreams
      else (validateStreams front (seen ++ [stream]) streams).map (stream :: ·)

variable {N S D : Type}

def serializedSchema : Option ReadSessionSchema → Except ReadSessionErrorKind Bytes
  | some (.arrow bytes) => if bytes ≠ [] then .ok bytes else .error .missingArrowSchema
  | _ => .error .missingArrowSchema

def orExpiration : Option α → Except ReadSessionErrorKind α
  | none => .error .invalidExpiration
  | some a => .ok a

def expiration (expireTime : Option ProtoTimestamp) : Except ReadSessionErrorKind PinnedSnapshot := do
  let time ← orExpiration expireTime
  (PinnedSnapshot.new time.seconds time.nanos).mapError fun _ => .invalidExpiration

def validateResponse (reader : SchemaReader N S) (spec : ReadSessionSpec D) (session : ReadSession)
    (started : Duration) (decodeLimit : DecodeLimit) : Except ReadSessionErrorKind (SessionLease S D) := do
  if session.dataFormat ≠ arrowDataFormat ∨ session.table ≠ spec.tableResource then
    throw .sourceMismatch
  if session.tableModifiers.bind (·.snapshotTime) ≠ some spec.snapshot.toProto then
    throw .sourceMismatch
  if session.readOptions.any fun actual => spec.createRequest.readSession.bind (·.readOptions) ≠ some actual then
    throw .sourceMismatch
  let serializedSchema ← serializedSchema session.schema
  let schema ← (SessionSchema.fromSerialized reader serializedSchema decodeLimit).mapError fun _ => .invalidArrowSchema
  let _ ← expiration session.expireTime
  let name ← validateSessionName session.name spec.ownerProject spec.expectedLocation
  if spec.maxStreamCount < session.streams.length then
    throw .invalidStreams
  let streams ← validateStreams (streamsFront session.name) [] session.streams
  if session.estimatedTotalBytesScanned < 0 ∨ session.estimatedTotalPhysicalFileSize < 0 ∨
      session.estimatedRowCount < 0 then
    throw .invalidEstimates
  let conservativeDeadline ← orExpiration (started.checkedAdd guaranteedSessionLifetime)
  pure {
    name, streams, schema, conservativeDeadline
    sourceIdentity := spec.identity
    estimatedRowCount := if 0 < session.estimatedRowCount then some session.estimatedRowCount.toNat else none
    estimatedTotalBytesScanned := session.estimatedTotalBytesScanned.toNat
    estimatedTotalPhysicalFileSize := session.estimatedTotalPhysicalFileSize.toNat }

-- ---------------------------------------------------------------------------
-- Identities
-- ---------------------------------------------------------------------------

theorem length_toBeBytes (n : Nat) (value : Int) : (toBeBytes n value).length = n := by
  induction n generalizing value with
  | zero => rfl
  | succ n ih => rw [toBeBytes, List.length_append, ih, List.length_singleton]

theorem toBeBytes_dvd {value value' : Int} (h : toBeBytes n value = toBeBytes n value') :
    (256 : Int) ^ n ∣ value - value' := by
  induction n generalizing value value' with
  | zero => exact one_dvd _
  | succ n ih =>
    obtain ⟨hhigh, hlow⟩ := List.append_inj h (by rw [length_toBeBytes, length_toBeBytes])
    obtain ⟨k, hk⟩ := ih hhigh
    have hlow := congrArg UInt8.toNat (List.cons.inj hlow).1
    have hbyte : value % 256 = value' % 256 := by
      simp only [UInt8.toNat_ofNat'] at hlow
      omega
    refine ⟨k, ?_⟩
    have hparts : value - value' = 256 * (value / 256 - value' / 256) := by omega
    rw [hparts, hk, pow_succ]
    ring

theorem hashField_append_inj {bytes bytes' rest rest' : Bytes} (hlen : bytes.length < 256 ^ 8)
    (hlen' : bytes'.length < 256 ^ 8) (h : hashField bytes ++ rest = hashField bytes' ++ rest') :
    bytes = bytes' ∧ rest = rest' := by
  unfold hashField at h
  rw [List.append_assoc, List.append_assoc] at h
  obtain ⟨hsize, h⟩ := List.append_inj h (by rw [length_toBeBytes, length_toBeBytes])
  have hsize := toBeBytes_dvd hsize
  exact List.append_inj h (by omega)

theorem flatMap_hashField_inj {fields fields' : List Bytes} (hlen : ∀ field ∈ fields, field.length < 256 ^ 8)
    (hlen' : ∀ field ∈ fields', field.length < 256 ^ 8)
    (h : fields.flatMap hashField = fields'.flatMap hashField) : fields = fields' := by
  have hne : ∀ bytes, hashField bytes ≠ [] := fun bytes heq => by
    have hlen := congrArg List.length heq
    simp [hashField, length_toBeBytes] at hlen
  induction fields generalizing fields' with
  | nil =>
    cases fields' with
    | nil => rfl
    | cons field' fields' => exact absurd (List.append_eq_nil_iff.mp h.symm).1 (hne field')
  | cons field fields ih =>
    cases fields' with
    | nil => exact absurd (List.append_eq_nil_iff.mp h).1 (hne field)
    | cons field' fields' =>
      obtain ⟨hfield, hrest⟩ := List.forall_mem_cons.mp hlen
      obtain ⟨hfield', hrest'⟩ := List.forall_mem_cons.mp hlen'
      obtain ⟨rfl, htail⟩ := hashField_append_inj hfield hfield' h
      rw [ih hrest hrest' htail]

/-- The table, the snapshot, the fields and the rows that a spec is about. -/
structure ReadSessionSpec.SameSource (spec spec' : ReadSessionSpec D) : Prop where
  table : spec.tableResource = spec'.tableResource
  snapshot : spec.snapshot = spec'.snapshot
  fields : spec.selectedFields = spec'.selectedFields
  restriction : spec.rowRestriction = spec'.rowRestriction

namespace SourceIdentity

def texts (spec : ReadSessionSpec D) : List Bytes :=
  [Text.utf8 "silk-bqs-source-v1".toList, Text.utf8 spec.tableResource.toList, toBeBytes 8 spec.snapshot.seconds,
    toBeBytes 4 spec.snapshot.nanos] ++
    (spec.selectedFields.map fun field => Text.utf8 field.toList) ++
    [spec.rowRestriction.elim [] fun restriction => Text.utf8 restriction.toList]

end SourceIdentity

variable {sha256 : Bytes → D} {spec spec' : ReadSessionSpec D} {purpose : SessionPurpose}
  {reference : BigQueryReference} {snapshot : PinnedSnapshot} {ownerProject : String}
  {expectedLocation rowRestriction : Option String} {selectedFields : List String}
  {arrowCompression : ArrowWireCompression} {responseCompression : ResponseCompression}
  {precision : PicosTimestampPrecision} {maxStreamCount : Int}

theorem ReadSessionSpec.new_ok (h : new sha256 purpose reference snapshot ownerProject expectedLocation selectedFields
      rowRestriction arrowCompression responseCompression precision maxStreamCount = .ok spec) :
    spec.tableResource = reference.tableResource ∧ spec.snapshot = snapshot ∧ spec.ownerProject = ownerProject ∧
      spec.expectedLocation = expectedLocation ∧ spec.maxStreamCount = maxStreamCount ∧
      spec.selectedFields = selectedFields ∧ spec.rowRestriction = rowRestriction.filter (· ≠ "") ∧
      (∀ restriction, rowRestriction = some restriction → restriction.utf8ByteSize ≤ maxRowRestrictionBytes) ∧
      spec.identity = sha256 ((SourceIdentity.texts spec).flatMap hashField) := by
  unfold new at h
  split at h
  · split at h
    · split at h
      · cases h
      · split at h
        · cases h
        · rename_i hsize
          split at h
          · cases h
          · obtain rfl := Except.ok.inj h
            refine ⟨rfl, rfl, rfl, rfl, rfl, rfl, rfl, ?_, ?_⟩
            · rintro restriction rfl
              simpa using hsize
            · simp [SourceIdentity.texts, SourceIdentity.preimage, List.flatMap_map]
    · cases h
  · cases h

theorem SourceIdentity.texts_inj (hempty : ∀ restriction, spec.rowRestriction = some restriction → restriction ≠ "")
    (hempty' : ∀ restriction, spec'.rowRestriction = some restriction → restriction ≠ "")
    (h : texts spec = texts spec') : spec.SameSource spec' := by
  unfold texts at h
  obtain ⟨hfront, hrestriction⟩ := List.append_inj' h rfl
  simp only [List.cons_append, List.nil_append, List.cons.injEq, true_and] at hfront
  obtain ⟨htable, hseconds, hnanos, hfields⟩ := hfront
  have hutf8 : Function.Injective fun text : String => Text.utf8 text.toList :=
    fun text text' heq => String.toList_inj.mp (Text.utf8_injective heq)
  refine ⟨hutf8 htable, ?_, List.map_injective_iff.mpr hutf8 hfields, ?_⟩
  · have hseconds := toBeBytes_dvd hseconds
    have hnanos := toBeBytes_dvd hnanos
    have hmem := spec.snapshot.seconds_mem
    have hmem' := spec'.snapshot.seconds_mem
    have hrange := spec.snapshot.nanos_mem
    have hrange' := spec'.snapshot.nanos_mem
    apply PinnedSnapshot.total_inj
    unfold PinnedSnapshot.total
    omega
  · have hrestriction := (List.cons.inj hrestriction).1
    -- an empty restriction would look like none
    cases hspec : spec.rowRestriction with
    | none =>
      cases hspec' : spec'.rowRestriction with
      | none => rfl
      | some restriction =>
        rw [hspec, hspec'] at hrestriction
        have hnil := Text.eq_nil_of_utf8 hrestriction.symm
        exact absurd (String.toList_eq_nil_iff.mp hnil) (hempty' restriction hspec')
    | some restriction =>
      cases hspec' : spec'.rowRestriction with
      | none =>
        rw [hspec, hspec'] at hrestriction
        have hnil := Text.eq_nil_of_utf8 hrestriction
        exact absurd (String.toList_eq_nil_iff.mp hnil) (hempty restriction hspec)
      | some restriction' =>
        rw [hspec, hspec'] at hrestriction
        rw [hutf8 hrestriction]

namespace ReadSessionSpec

def hashed (spec : ReadSessionSpec D) : Bytes := (SourceIdentity.texts spec).flatMap hashField

/-- Made by `new`, of texts that fit into memory. -/
def Made (sha256 : Bytes → D) (spec : ReadSessionSpec D) : Prop :=
  (∃ purpose reference snapshot ownerProject expectedLocation selectedFields rowRestriction arrowCompression
      responseCompression precision maxStreamCount,
    new sha256 purpose reference snapshot ownerProject expectedLocation selectedFields rowRestriction arrowCompression
      responseCompression precision maxStreamCount = .ok spec) ∧
  ∀ text ∈ spec.tableResource :: spec.selectedFields, text.utf8ByteSize < 256 ^ 8

theorem Made.restricted (h : Made sha256 spec) {restriction : String} (hspec : spec.rowRestriction = some restriction) :
    restriction ≠ "" ∧ restriction.utf8ByteSize ≤ maxRowRestrictionBytes := by
  obtain ⟨⟨_, _, _, _, _, _, rowRestriction, _, _, _, _, hnew⟩, -⟩ := h
  obtain ⟨-, -, -, -, -, -, hfilter, hsize, -⟩ := new_ok hnew
  rw [hspec] at hfilter
  obtain ⟨hsome, hne⟩ := Option.filter_eq_some_iff.mp hfilter.symm
  exact ⟨by simpa using hne, hsize restriction hsome⟩

theorem Made.length_lt (h : Made sha256 spec) (hbytes : bytes ∈ SourceIdentity.texts spec) :
    bytes.length < 256 ^ 8 := by
  simp only [SourceIdentity.texts, List.mem_append, List.mem_cons, List.not_mem_nil, or_false, List.mem_map] at hbytes
  obtain ((rfl | rfl | rfl | rfl) | ⟨field, hfield, rfl⟩) | rfl := hbytes
  · decide
  · rw [Text.utf8_length]
    exact h.2 _ List.mem_cons_self
  · rw [length_toBeBytes]
    decide
  · rw [length_toBeBytes]
    decide
  · rw [Text.utf8_length]
    exact h.2 _ (List.mem_cons_of_mem _ hfield)
  · cases hspec : spec.rowRestriction with
    | none => decide
    | some restriction =>
      have hsize := (h.restricted hspec).2
      rw [Option.elim_some, Text.utf8_length]
      unfold maxRowRestrictionBytes at hsize
      omega

/-- An identity is the digest of bytes that tell the table, the snapshot, the
fields and the restriction apart: two specs have the same bytes exactly when
they are about the same source. -/
theorem hashed_eq_iff_sameSource (hmade : Made sha256 spec) (hmade' : Made sha256 spec') :
    (spec.identity = sha256 spec.hashed ∧ spec'.identity = sha256 spec'.hashed) ∧
      (spec.hashed = spec'.hashed ↔ spec.SameSource spec') := by
  refine ⟨⟨?_, ?_⟩, ?_, ?_⟩
  · obtain ⟨⟨_, _, _, _, _, _, _, _, _, _, _, hnew⟩, -⟩ := hmade
    exact (new_ok hnew).2.2.2.2.2.2.2.2
  · obtain ⟨⟨_, _, _, _, _, _, _, _, _, _, _, hnew⟩, -⟩ := hmade'
    exact (new_ok hnew).2.2.2.2.2.2.2.2
  · intro h
    have htexts := flatMap_hashField_inj (fun _ => hmade.length_lt) (fun _ => hmade'.length_lt) h
    exact SourceIdentity.texts_inj (fun _ hspec => (hmade.restricted hspec).1)
      (fun _ hspec => (hmade'.restricted hspec).1) htexts
  · rintro ⟨htable, hsnapshot, hfields, hrestriction⟩
    unfold hashed SourceIdentity.texts
    rw [htable, hsnapshot, hfields, hrestriction]

def plainSpec (selectedFields : List String) : ReadSessionSpec Bytes where
  purpose := .execution
  tableResource := "t"
  ownerProject := "p"
  owner_valid := by decide
  expectedLocation := none
  snapshot := ⟨0, 0, by decide, by decide⟩
  selectedFields
  rowRestriction := none
  arrowWireCompression := .none
  responseCompression := .none
  picosTimestampPrecision := .micros
  maxStreamCount := 1
  count_pos := by decide
  identity := SourceIdentity.preimage ⟨"t", none⟩ ⟨0, 0, by decide, by decide⟩ selectedFields none

theorem plainSpec_made (hblank : (selectedFields.any fun field => field.toList.all Cli.isWhitespace) = false)
    (hfits : ∀ text ∈ "t" :: selectedFields, text.utf8ByteSize < 256 ^ 8) : Made id (plainSpec selectedFields) := by
  refine ⟨⟨.execution, ⟨"t", none⟩, ⟨0, 0, by decide, by decide⟩, "p", none, selectedFields, none, .none, .none, .micros,
    1, ?_⟩, hfits⟩
  rw [new, dif_pos (by decide), dif_pos (by decide), if_neg (by simp [hblank]), if_neg (by decide), if_neg (by decide)]
  rfl

theorem hashed_eq_iff_sameSource_columns : (plainSpec ["ab"]).hashed ≠ (plainSpec ["a", "b"]).hashed := fun h =>
  absurd ((hashed_eq_iff_sameSource (plainSpec_made (by decide) (by decide)) (plainSpec_made (by decide)
    (by decide))).2.mp h).fields (by decide)

end ReadSessionSpec

-- ---------------------------------------------------------------------------
-- Accepted answers
-- ---------------------------------------------------------------------------

def sessionPath (project location session : List Char) : List Char :=
  ['/'].intercalate [projectsSegment, project, locationsSegment, location, sessionsSegment, session]

theorem slash_notMem_validProject (h : validProject project = true) : '/' ∉ project.toList := by
  intro hmem
  simp only [validProject, Bool.and_eq_true, List.all_eq_true] at h
  exact absurd (h.2 _ hmem) (by decide)

theorem slash_notMem_validResourceId (h : validResourceId value = true) : '/' ∉ value := by
  intro hmem
  simp only [validResourceId, Bool.and_eq_true, List.all_eq_true] at h
  exact absurd (h.2 _ hmem).2 (by decide)

theorem splitOn_sessionPath {project location session : List Char} (hproject : '/' ∉ project)
    (hlocation : '/' ∉ location) (hsession : '/' ∉ session) : (sessionPath project location session).splitOn '/' =
      [projectsSegment, project, locationsSegment, location, sessionsSegment, session] := by
  refine List.splitOn_intercalate '/' ?_ (List.cons_ne_nil _ _)
  simp only [List.forall_mem_cons, List.not_mem_nil, false_imp_iff, implies_true, and_true]
  exact ⟨by decide, hproject, by decide, hlocation, by decide, hsession⟩

theorem validateSessionName_ok {name : SessionName} (howner : validProject ownerProject = true) :
    validateSessionName value ownerProject expectedLocation = .ok name ↔
      ∃ location session, value.toList = sessionPath ownerProject.toList location session ∧
        name = ⟨value, String.ofList location⟩ ∧ (∀ expected, expectedLocation = some expected → expected.toList = location) ∧
        validResourceId location = true ∧ validResourceId session = true := by
  have howner := slash_notMem_validProject howner
  unfold validateSessionName
  constructor
  · intro h
    split at h
    · rename_i projects project locations location sessions session hparts
      split at h
      · cases h
      · rename_i hliterals
        split at h
        · cases h
        · rename_i hchecks
          obtain rfl := Except.ok.inj h
          simp only [not_or, not_not, ne_eq] at hliterals hchecks
          obtain ⟨rfl, rfl, rfl⟩ := hliterals
          obtain ⟨rfl, hexpected, hlocation, hsession⟩ := hchecks
          refine ⟨location, session, ?_, rfl, ?_, hlocation, hsession⟩
          · have hjoin : ['/'].intercalate (value.toList.splitOn '/') = value.toList := List.intercalate_splitOn '/'
            rw [← hjoin, hparts]
            rfl
          · rintro expected rfl
            simpa using hexpected
    · cases h
  · rintro ⟨location, session, hvalue, rfl, hexpected, hlocation, hsession⟩
    rw [hvalue, splitOn_sessionPath howner (slash_notMem_validResourceId hlocation)
      (slash_notMem_validResourceId hsession)]
    cases hlocated : expectedLocation with
    | none => simp [hlocation, hsession]
    | some expected => simp [hexpected expected hlocated, hlocation, hsession]

theorem validateStreams_ok {front : List Char} {seen names accepted : List String} :
    validateStreams front seen names = .ok accepted ↔
      accepted = names ∧ (∀ name ∈ names, ∃ id, name.toList = front ++ id ∧ validResourceId id = true) ∧
        names.Nodup ∧ ∀ name ∈ names, name ∉ seen := by
  induction names generalizing seen accepted with
  | nil => simp [validateStreams]
  | cons name names ih =>
    have hid : (∃ id, name.toList = front ++ id ∧ validResourceId id = true) ↔
        ∃ id, name.toList.dropPrefix? front = some id ∧ validResourceId id = true := by
      simp [List.dropPrefix?_eq_some_iff]
    rw [validateStreams, List.forall_mem_cons, List.forall_mem_cons, hid, List.nodup_cons]
    cases hdrop : name.toList.dropPrefix? front with
    | none => simp
    | some id =>
      dsimp only
      by_cases hguard : ¬ validResourceId id = true ∨ name ∈ seen
      · rw [if_pos hguard]
        simp only [Option.some.injEq, exists_eq_left']
        constructor
        · rintro ⟨⟩
        · rintro ⟨-, ⟨hvalid, -⟩, -, hseen, -⟩
          exact absurd hguard (not_or.mpr ⟨not_not.mpr hvalid, hseen⟩)
      · rw [if_neg hguard, Lists.map_eq_ok]
        obtain ⟨hvalid, hseen⟩ := not_or.mp hguard
        simp only [ih, Option.some.injEq, exists_eq_left', List.mem_append, List.mem_singleton, not_or]
        constructor
        · rintro ⟨_, ⟨rfl, hids, hnodup, hfresh⟩, rfl⟩
          exact ⟨rfl, ⟨not_not.mp hvalid, hids⟩, ⟨fun hmem => (hfresh name hmem).2 rfl, hnodup⟩, hseen,
            fun other hother => (hfresh other hother).1⟩
        · rintro ⟨rfl, ⟨-, hids⟩, ⟨hnew, hnodup⟩, -, hfresh⟩
          exact ⟨names, ⟨rfl, hids, hnodup, fun other hother =>
            ⟨hfresh other hother, fun heq => hnew (heq ▸ hother)⟩⟩, rfl⟩

structure MadeFor (reader : SchemaReader N S) (decodeLimit : DecodeLimit) (spec : ReadSessionSpec D)
    (session : ReadSession) (location : List Char) (schema : S) : Prop where
  format : session.dataFormat = arrowDataFormat
  table : session.table = spec.tableResource
  snapshot : session.tableModifiers = some ⟨some spec.snapshot.toProto⟩
  options : session.readOptions = none ∨ session.readOptions = some spec.readOptions
  schema : ∃ bytes, bytes ≠ [] ∧ session.schema = some (.arrow bytes) ∧
    SessionSchema.fromSerialized reader bytes decodeLimit = .ok schema
  expires : ∃ time : PinnedSnapshot, session.expireTime = some time.toProto
  name : ∃ id, session.name.toList = sessionPath spec.ownerProject.toList location id ∧ validResourceId id = true
  located : validResourceId location = true ∧
    ∀ expected, spec.expectedLocation = some expected → expected.toList = location
  counted : (session.streams.length : Int) ≤ spec.maxStreamCount
  streams : session.streams.Nodup ∧ ∀ stream ∈ session.streams,
    ∃ id, stream.toList = streamsFront session.name ++ id ∧ validResourceId id = true
  estimates : 0 ≤ session.estimatedTotalBytesScanned ∧ 0 ≤ session.estimatedTotalPhysicalFileSize ∧
    0 ≤ session.estimatedRowCount

def ReadSession.lease (session : ReadSession) (spec : ReadSessionSpec D) (location : List Char) (schema : S)
    (deadline : Duration) : SessionLease S D where
  name := ⟨session.name, String.ofList location⟩
  streams := session.streams
  schema := schema
  conservativeDeadline := deadline
  sourceIdentity := spec.identity
  estimatedRowCount := if 0 < session.estimatedRowCount then some session.estimatedRowCount.toNat else none
  estimatedTotalBytesScanned := session.estimatedTotalBytesScanned.toNat
  estimatedTotalPhysicalFileSize := session.estimatedTotalPhysicalFileSize.toNat

theorem serializedSchema_ok {schema : Option ReadSessionSchema} :
    serializedSchema schema = .ok bytes ↔ bytes ≠ [] ∧ schema = some (.arrow bytes) := by
  unfold serializedSchema
  split
  · split
    · rename_i hne
      simp only [Except.ok.injEq, Option.some.injEq, ReadSessionSchema.arrow.injEq]
      constructor
      · rintro rfl
        exact ⟨hne, rfl⟩
      · exact fun h => h.2
    · rename_i hempty
      obtain rfl := not_not.mp hempty
      simp only [reduceCtorEq, Option.some.injEq, ReadSessionSchema.arrow.injEq, false_iff, not_and]
      exact fun hne heq => hne heq.symm
  · rename_i hother
    simp only [reduceCtorEq, false_iff, not_and]
    exact fun _ h => hother _ h

theorem orExpiration_ok {found : Option α} : orExpiration found = .ok a ↔ found = some a := by
  cases found <;> simp [orExpiration]

theorem expiration_ok {expireTime : Option ProtoTimestamp} {time : PinnedSnapshot} :
    expiration expireTime = .ok time ↔ expireTime = some time.toProto := by
  unfold expiration
  simp only [Lists.bind_eq_ok, orExpiration_ok, Lists.mapError_eq_ok, PinnedSnapshot.new_ok]
  constructor
  · rintro ⟨⟨seconds, nanos⟩, h, rfl, rfl⟩
    exact h
  · exact fun h => ⟨_, h, rfl, rfl⟩

/-- Only a session made for the spec is accepted, and what is leased is that
session. -/
theorem validateResponse_ok {reader : SchemaReader N S} {spec : ReadSessionSpec D} {session : ReadSession}
    {started : Duration} {decodeLimit : DecodeLimit} {lease : SessionLease S D} :
    validateResponse reader spec session started decodeLimit = .ok lease ↔
      ∃ location schema deadline, MadeFor reader decodeLimit spec session location schema ∧
        started.checkedAdd guaranteedSessionLifetime = some deadline ∧
        lease = session.lease spec location schema deadline := by
  unfold validateResponse
  simp only [Lists.ite_throw_ok, Lists.bind_eq_ok, serializedSchema_ok, expiration_ok, orExpiration_ok,
    validateSessionName_ok spec.owner_valid, validateStreams_ok, Lists.mapError_eq_ok]
  have hmodifiers : session.tableModifiers.bind (·.snapshotTime) = some spec.snapshot.toProto ↔
      session.tableModifiers = some ⟨some spec.snapshot.toProto⟩ := by
    cases session.tableModifiers with
    | none => simp
    | some modifiers =>
      obtain ⟨snapshotTime⟩ := modifiers
      simp
  have hoptions : session.readOptions.any (fun actual =>
        spec.createRequest.readSession.bind (·.readOptions) ≠ some actual) ≠ true ↔
      session.readOptions = none ∨ session.readOptions = some spec.readOptions := by
    have hrequested : spec.createRequest.readSession.bind (·.readOptions) = some spec.readOptions := rfl
    rw [hrequested]
    cases session.readOptions with
    | none => simp only [Option.any_none, ne_eq, Bool.false_eq_true, not_false_eq_true, true_or]
    | some actual =>
      simp only [Option.any_some, decide_eq_true_eq, ne_eq, not_not, reduceCtorEq, false_or]
      exact eq_comm
  constructor
  · rintro ⟨hsource, hsnapshot, hread, bytes, ⟨hne, hbytes⟩, schema, hschema, time, htime, name,
      ⟨location, id, hname, rfl, hexpected, hlocation, hid⟩, hcount, streams, ⟨rfl, hids, hnodup, -⟩, hestimates,
      deadline, hdeadline, hlease⟩
    simp only [not_or, not_not, not_lt, ne_eq] at hsource hsnapshot hcount hestimates
    refine ⟨location, schema, deadline, ?_, hdeadline, (Except.ok.inj hlease).symm⟩
    exact {
      format := hsource.1
      table := hsource.2
      snapshot := hmodifiers.mp hsnapshot
      options := hoptions.mp hread
      schema := ⟨bytes, hne, hbytes, hschema⟩
      expires := ⟨time, htime⟩
      name := ⟨id, hname, hid⟩
      located := ⟨hlocation, hexpected⟩
      counted := hcount
      streams := ⟨hnodup, hids⟩
      estimates := hestimates }
  · rintro ⟨location, schema, deadline, h, hdeadline, rfl⟩
    obtain ⟨bytes, hne, hbytes, hschema⟩ := h.schema
    obtain ⟨time, htime⟩ := h.expires
    obtain ⟨id, hname, hid⟩ := h.name
    refine ⟨by simp [h.format, h.table], not_not.mpr (hmodifiers.mpr h.snapshot), hoptions.mpr h.options, bytes,
      ⟨hne, hbytes⟩, schema, hschema, time, htime, _, ⟨location, id, hname, rfl, h.located.2, h.located.1, hid⟩,
      not_lt.mpr h.counted, session.streams, ⟨rfl, h.streams.2, h.streams.1, by simp⟩, ?_, deadline, hdeadline, rfl⟩
    · simpa only [not_or, not_lt] using h.estimates

end SilkChiffon.BigQuery
