import Mathlib.Algebra.BigOperators.Group.Finset.Basic
import SilkChiffon.BigQuery.Projection
import SilkChiffon.BigQuery.SessionRetries

/-!
# Scans

A table is discovered with one session and read with another one, whose streams
are the partitions of the plan. What is read is what the table held at the
snapshot, in whichever order the partitions come.
-/

namespace SilkChiffon.BigQuery

open Arrow

variable {N α M D : Type}

-- ---------------------------------------------------------------------------
-- The provider and its plan
-- ---------------------------------------------------------------------------

structure BigQueryTableProvider where
  reference : BigQueryReference
  ownerProject : String
  snapshot : PinnedSnapshot
  discoveryLocation : String
  schema : Schema
  decodeLimit : DecodeLimit
  args : SessionInputArgs

structure BigQueryReadExec (D : Type) where
  lease : SessionLease Schema D
  outputSchema : Schema
  batchProjection : List Nat
  decodeLimit : DecodeLimit
  args : SessionInputArgs

inductive ScanError
  | projection (error : ProjectionError)
  | spec (error : ReadSessionSpecError)
  | session (error : ReadSessionError)

abbrev SessionOpener (D : Type) := ReadSessionSpec D → Except ReadSessionError (SessionLease Schema D)

def createTableProvider (sha256 : Bytes → D) (sessions : SessionOpener D) (reference : BigQueryReference)
    (snapshot : PinnedSnapshot) (ownerProject : String) (decodeLimit : DecodeLimit) (args : SessionInputArgs) :
    Except ScanError BigQueryTableProvider := do
  let discoverySpec ← (ReadSessionSpec.discovery sha256 reference snapshot ownerProject).mapError .spec
  let discovery ← (sessions discoverySpec).mapError .session
  pure {
    reference, ownerProject, snapshot
    discoveryLocation := discovery.name.location
    schema := discovery.schema
    decodeLimit, args }

namespace BigQueryTableProvider

def requestedStreams (provider : BigQueryTableProvider) (targetPartitions : Nat) : Nat :=
  max ((provider.args.maxStreamCount.map UInt32.toNat).getD targetPartitions) 1

def planScan (sha256 : Bytes → D) (sessions : SessionOpener D) (provider : BigQueryTableProvider)
    (projection : Option (List Nat)) (rowRestriction : Option String) (targetPartitions : Nat) :
    Except ScanError (BigQueryReadExec D) := do
  let projection ← (projectionRequest provider.schema projection).mapError .projection
  let spec ← (ReadSessionSpec.execution sha256 provider.reference provider.snapshot provider.ownerProject
    provider.discoveryLocation projection.selectedFields rowRestriction (provider.requestedStreams targetPartitions)
    provider.args).mapError .spec
  let lease ← (sessions spec).mapError .session
  (validateExecutionSchema lease.schema provider.schema projection.selectedFields).mapError .projection
  let batchProjection ← (batchProjection lease.schema projection.outputSchema).mapError .projection
  pure {
    lease
    outputSchema := projection.outputSchema
    batchProjection
    decodeLimit := provider.decodeLimit
    args := provider.args }

end BigQueryTableProvider

inductive PartitionStream
  | empty
  | readRows (partition : ReadPartition)

namespace BigQueryReadExec

def partitionCount (exec : BigQueryReadExec D) : Nat := max exec.lease.streams.length 1

def readPartition (exec : BigQueryReadExec D) (ordinal : Nat) (streamName : String) : ReadPartition where
  ordinal
  streamName
  sessionSchema := exec.lease.schema
  sessionDeadline := exec.lease.conservativeDeadline
  outputSchema := exec.outputSchema
  batchProjection := exec.batchProjection
  decodeLimit := exec.decodeLimit
  args := exec.args.toBigQueryInputArgs

/-- The error is the partition that is out of bounds. -/
def execute (exec : BigQueryReadExec D) (partition : Nat) : Except Nat PartitionStream :=
  if exec.lease.streams = [] then
    if partition = 0 then .ok .empty else .error partition
  else
    match exec.lease.streams[partition]? with
    | none => .error partition
    | some streamName => .ok (.readRows (exec.readPartition partition streamName))

end BigQueryReadExec

-- ---------------------------------------------------------------------------
-- A run of the plan
-- ---------------------------------------------------------------------------

/-- Where a run of the plan is: each partition's turns so far, and when it was
executed. -/
structure ScanRun where
  started : Nat → Duration
  turns : Nat → List Turn

namespace ScanRun

variable (reader : Reader α M) (exec : BigQueryReadExec D) (run : ScanRun)

def trace (i : Nat) : List (Event α) :=
  match exec.execute i with
  | .ok (.readRows partition) => ReadRowsStream.run reader partition (run.started i) (run.turns i)
  | .ok .empty => [.finished]
  | .error _ => []

def rows : List (Row α) := (List.range exec.partitionCount).flatMap fun i => emittedRows (run.trace reader exec i)

def Ended : Prop := ∀ i < exec.partitionCount, Event.finished ∈ run.trace reader exec i

end ScanRun

def sessionColumns (discovered returned : Schema) : List Nat :=
  returned.filterMap fun field => discovered.columnIndex field.name

/-- What the service holds: the rows of a table at a snapshot that meet a
restriction, and those of a stream. -/
structure StorageService (α : Type) where
  table : String → PinnedSnapshot → Option String → List (Row α)
  stream : String → List (Row α)

/-- Every session is opened by an opening, and its streams share the rows that
were asked for: each is a row of one stream. -/
structure StorageService.Provides (service : StorageService α) (schemas : SchemaReader N Schema)
    (decodeLimit : DecodeLimit) (discovered : Schema) (sessions : SessionOpener D) : Prop where
  opened : ∀ spec lease, sessions spec = .ok lease → ∃ opened unaryTimeout observed turns,
    SessionEvent.opened lease ∈
      ReadSessionClient.openSession schemas decodeLimit spec opened unaryTimeout observed turns
  shared : ∀ spec lease, sessions spec = .ok lease →
    ∑ name ∈ lease.streams.toFinset, (service.stream name : Multiset (Row α)) =
      ((service.table spec.tableResource spec.snapshot spec.rowRestriction).map
        (Row.project (sessionColumns discovered lease.schema)) : List (Row α))

def StorageService.Serves (service : StorageService α) (reader : Reader α M) (exec : BigQueryReadExec D)
    (run : ScanRun) : Prop :=
  ∀ i partition, exec.execute i = .ok (.readRows partition) →
    Throughout (Serving reader partition (service.stream partition.streamName)) (run.trace reader exec i)

-- ---------------------------------------------------------------------------
-- What is planned
-- ---------------------------------------------------------------------------

variable {sha256 : Bytes → D} {sessions : SessionOpener D} {provider : BigQueryTableProvider}
  {projection : Option (List Nat)} {rowRestriction : Option String} {targetPartitions : Nat}
  {exec : BigQueryReadExec D} {schemas : SchemaReader N Schema} {decodeLimit : DecodeLimit}
  {service : StorageService α} {reader : Reader α M} {run : ScanRun}

theorem sessionColumns_fetched {discovered : Schema} (hnames : discovered.names.Nodup) :
    sessionColumns discovered (discovered.project (fetched discovered projection)) = fetched discovered projection := by
  unfold sessionColumns Schema.project
  rw [List.filterMap_filterMap]
  refine (List.filterMap_congr fun i hi => ?_).trans List.filterMap_some
  have hlt : i < discovered.length := fetched_lt hi
  have hget : discovered[i]? = some discovered[i] := List.getElem?_eq_getElem hlt
  rw [hget, Option.bind_some]
  exact columnIndex_eq hnames hget

theorem execution_ok {reference : BigQueryReference} {snapshot : PinnedSnapshot}
    {ownerProject discoveredLocation : String} {selectedFields : List String} {streams : Nat} {args : SessionInputArgs}
    {spec : ReadSessionSpec D}
    (h : ReadSessionSpec.execution sha256 reference snapshot ownerProject discoveredLocation selectedFields
      rowRestriction streams args = .ok spec) :
    spec.tableResource = reference.tableResource ∧ spec.snapshot = snapshot ∧
      spec.rowRestriction = rowRestriction.filter (· ≠ "") ∧ spec.expectedLocation = some discoveredLocation ∧
      spec.maxStreamCount = streams := by
  unfold ReadSessionSpec.execution at h
  split at h
  · cases h
  · split at h
    · cases h
    · rename_i maxStreamCount hcount
      obtain ⟨htable, hsnapshot, -, hlocation, hstreams, -, hrestriction, -⟩ := ReadSessionSpec.new_ok h
      refine ⟨htable, hsnapshot, hrestriction, hlocation, hstreams.trans ?_⟩
      unfold i32TryFrom at hcount
      split at hcount
      · exact (Option.some.inj hcount).symm
      · cases hcount

theorem planScan_ok (hnames : provider.schema.names.Nodup)
    (h : provider.planScan sha256 sessions projection rowRestriction targetPartitions = .ok exec) :
    ∃ spec, sessions spec = .ok exec.lease ∧ spec.tableResource = provider.reference.tableResource ∧
      spec.snapshot = provider.snapshot ∧ spec.rowRestriction = rowRestriction.filter (· ≠ "") ∧
      spec.expectedLocation = some provider.discoveryLocation ∧
      spec.maxStreamCount = provider.requestedStreams targetPartitions ∧
      exec.lease.schema = provider.schema.project (fetched provider.schema projection) ∧
      exec.outputSchema = provider.schema.project (requested provider.schema projection) ∧
      Locates (fetched provider.schema projection) (requested provider.schema projection) exec.batchProjection := by
  unfold BigQueryTableProvider.planScan at h
  obtain ⟨request, hrequest, h⟩ := Lists.bind_eq_ok.mp h
  obtain ⟨spec, hspec, h⟩ := Lists.bind_eq_ok.mp h
  obtain ⟨lease, hlease, h⟩ := Lists.bind_eq_ok.mp h
  obtain ⟨_, hvalid, h⟩ := Lists.bind_eq_ok.mp h
  obtain ⟨indices, hindices, h⟩ := Lists.bind_eq_ok.mp h
  obtain rfl := Except.ok.inj h
  have hrequest := Lists.mapError_eq_ok.mp hrequest
  have hbounds : provider.schema.outOfBounds (requested provider.schema projection) = none := by
    cases projection with
    | none => exact inBounds_iff.mpr fun i hi => List.mem_range.mp hi
    | some asked =>
      cases hout : provider.schema.outOfBounds asked with
      | none => exact hout
      | some index =>
        simp only [projectionRequest, hout] at hrequest
        cases hrequest
  obtain ⟨request', hrequest', houtput, hexpected⟩ := projectionRequest_ok hnames hbounds
  obtain rfl := Except.ok.inj (hrequest.symm.trans hrequest')
  have hschema := validateExecutionSchema_ok.mp (Lists.mapError_eq_ok.mp hvalid)
  rw [hexpected] at hschema
  obtain ⟨indices', hindices', hlocates⟩ := batchProjection_ok hnames
    fun i hi => @requested_fetched provider.schema projection i hbounds hi
  rw [← hschema, ← houtput] at hindices'
  obtain rfl := Except.ok.inj ((Lists.mapError_eq_ok.mp hindices).symm.trans hindices')
  obtain ⟨htable, hsnapshot, hrestriction, hlocation, hstreams⟩ := execution_ok (Lists.mapError_eq_ok.mp hspec)
  exact ⟨spec, Lists.mapError_eq_ok.mp hlease, htable, hsnapshot, hrestriction, hlocation, hstreams, hschema, houtput,
    hlocates⟩

theorem StorageService.Provides.answered
    (hprovides : service.Provides schemas decodeLimit discovered sessions) {spec : ReadSessionSpec D}
    {lease : SessionLease Schema D} (h : sessions spec = .ok lease) :
    ∃ session location schema deadline, MadeFor schemas decodeLimit spec session location schema ∧
      lease = session.lease spec location schema deadline := by
  obtain ⟨opened, unaryTimeout, observed, turns, hmem⟩ := hprovides.opened spec lease h
  obtain ⟨trace, htrace, hopens, -⟩ := openSession_trace schemas decodeLimit spec opened unaryTimeout observed turns
  rw [htrace] at hmem
  obtain ⟨before, after, rfl⟩ := List.mem_iff_append.mp hmem
  obtain ⟨-, turn, session, location, schema, deadline, -, -, hanswers, -, hlease⟩ :=
    hopens before (.opened lease) ⟨after, by simp⟩
  exact ⟨session, location, schema, deadline, hanswers, hlease⟩

theorem StorageService.Provides.streams_nodup
    (hprovides : service.Provides schemas decodeLimit discovered sessions) {spec : ReadSessionSpec D}
    {lease : SessionLease Schema D} (h : sessions spec = .ok lease) : lease.streams.Nodup := by
  obtain ⟨session, location, schema, deadline, hanswers, rfl⟩ := hprovides.answered h
  exact hanswers.streams.1

-- ---------------------------------------------------------------------------
-- What is read
-- ---------------------------------------------------------------------------

theorem coe_flatMap_of_nodup {names : List String} (hnodup : names.Nodup) (stream : String → List (Row α)) :
    ∑ name ∈ names.toFinset, (stream name : Multiset (Row α)) = (names.flatMap stream : List (Row α)) := by
  rw [List.sum_toFinset _ hnodup]
  clear hnodup
  induction names with
  | nil => rfl
  | cons name names ih => rw [List.map_cons, List.sum_cons, ih, List.flatMap_cons, Multiset.coe_add]

theorem flatMap_range_getD {names : List String} {f : String → List β} :
    (List.range names.length).flatMap (fun i => (names[i]?.map f).getD []) = names.flatMap f := by
  have hnames : (List.range names.length).map (fun i => names[i]?.map f |>.getD []) = names.map f := by
    refine List.ext_getElem (by simp) fun i hi hi' => ?_
    have hlt : i < names.length := by simpa using hi
    simp [hlt]
  rw [List.flatMap_def, hnames, ← List.flatMap_def]

theorem flatMap_sublist {l : List ι} {f g : ι → List β} (h : ∀ i ∈ l, (f i).Sublist (g i)) :
    (l.flatMap f).Sublist (l.flatMap g) := by
  induction l with
  | nil => exact .slnil
  | cons i l ih =>
    obtain ⟨hi, hl⟩ := List.forall_mem_cons.mp h
    exact hi.append (ih hl)

def BigQueryReadExec.owed (exec : BigQueryReadExec D) (service : StorageService α) (i : Nat) : List (Row α) :=
  (exec.lease.streams[i]?.map fun name => (service.stream name).map (Row.project exec.batchProjection)).getD []

theorem execute_some (hname : exec.lease.streams[i]? = some name) :
    exec.execute i = .ok (.readRows (exec.readPartition i name)) := by
  have hne : exec.lease.streams ≠ [] := List.ne_nil_of_mem (List.mem_of_getElem? hname)
  unfold BigQueryReadExec.execute
  rw [if_neg hne, hname]

theorem execute_none (hname : exec.lease.streams[i]? = none) :
    exec.execute i = .ok .empty ∨ exec.execute i = .error i := by
  unfold BigQueryReadExec.execute
  rw [hname]
  split
  · split
    · exact .inl rfl
    · exact .inr rfl
  · exact .inr rfl

/-- A partition yields a beginning of what it is owed, and all of it by its end. -/
theorem partition_rows (hserves : service.Serves reader exec run) (i : Nat) :
    emittedRows (run.trace reader exec i) <+: exec.owed service i ∧
      (Event.finished ∈ run.trace reader exec i → emittedRows (run.trace reader exec i) = exec.owed service i) := by
  cases hname : exec.lease.streams[i]? with
  | none =>
    have howed : exec.owed service i = [] := by rw [BigQueryReadExec.owed, hname, Option.map_none, Option.getD_none]
    have hrows : emittedRows (run.trace reader exec i) = [] := by
      unfold ScanRun.trace
      rcases execute_none hname with hexec | hexec
      · rw [hexec]
        rfl
      · rw [hexec]
        rfl
    rw [howed, hrows]
    exact ⟨List.nil_prefix, fun _ => rfl⟩
  | some name =>
    have hexec := execute_some hname
    have howed : exec.owed service i = (exec.readPartition i name).outputRows (service.stream name) := by
      rw [BigQueryReadExec.owed, hname]
      rfl
    have hserves := hserves i _ hexec
    have htrace : run.trace reader exec i =
        ReadRowsStream.run reader (exec.readPartition i name) (run.started i) (run.turns i) := by
      rw [ScanRun.trace, hexec]
    rw [htrace] at hserves ⊢
    have hfaithful := run_faithful hserves
    rw [howed]
    have hbeginning := emittedRows_prefix hfaithful
    refine ⟨hbeginning, fun hfinished => ?_⟩
    obtain ⟨before, after, heq⟩ := List.mem_iff_append.mp hfinished
    rw [heq] at hfaithful ⊢
    obtain rfl := nothing_after hfaithful trivial
    have hnone : (Event.finished : Event α).rows = [] := rfl
    rw [emittedRows_snoc, hnone, List.append_nil]
    exact hfaithful.last.2

theorem owed_rows (hnames : provider.schema.names.Nodup)
    (hprovides : service.Provides schemas decodeLimit provider.schema sessions)
    (h : provider.planScan sha256 sessions projection rowRestriction targetPartitions = .ok exec) :
    List.Perm ((List.range exec.partitionCount).flatMap (exec.owed service))
      ((service.table provider.reference.tableResource provider.snapshot (rowRestriction.filter (· ≠ ""))).map
        (Row.project (requested provider.schema projection))) := by
  obtain ⟨spec, hlease, htable, hsnapshot, hrestriction, -, -, hschema, -, hlocates⟩ := planScan_ok hnames h
  have hshared := hprovides.shared spec exec.lease hlease
  rw [coe_flatMap_of_nodup (hprovides.streams_nodup hlease), hschema, sessionColumns_fetched hnames, htable, hsnapshot,
    hrestriction, Multiset.coe_eq_coe] at hshared
  have howed : (List.range exec.partitionCount).flatMap (exec.owed service) =
      (exec.lease.streams.flatMap service.stream).map (Row.project exec.batchProjection) := by
    have hstreams : (List.range exec.lease.streams.length).flatMap (exec.owed service) =
        exec.lease.streams.flatMap fun name => (service.stream name).map (Row.project exec.batchProjection) :=
      flatMap_range_getD
    rw [List.map_flatMap, ← hstreams]
    unfold BigQueryReadExec.partitionCount
    cases hcount : exec.lease.streams with
    | nil => simp [BigQueryReadExec.owed, hcount]
    | cons name names => rw [max_eq_left (by simp)]
  rw [howed]
  refine (hshared.map _).trans (List.Perm.of_eq ?_)
  rw [List.map_map]
  exact List.map_congr_left fun row _ => hlocates.project_row row

theorem createTableProvider_ok {reference : BigQueryReference} {snapshot : PinnedSnapshot} {ownerProject : String}
    {args : SessionInputArgs}
    (h : createTableProvider sha256 sessions reference snapshot ownerProject decodeLimit args = .ok provider) :
    provider.reference = reference ∧ provider.snapshot = snapshot ∧ ∃ spec lease, sessions spec = .ok lease ∧
      provider.schema = lease.schema ∧ provider.discoveryLocation = lease.name.location := by
  obtain ⟨spec, -, h⟩ := Lists.bind_eq_ok.mp h
  obtain ⟨lease, hlease, h⟩ := Lists.bind_eq_ok.mp h
  obtain rfl := Except.ok.inj h
  exact ⟨rfl, rfl, spec, lease, Lists.mapError_eq_ok.mp hlease, rfl, rfl⟩

/-- A planned scan reads the table at its snapshot, where the table was
discovered. At every moment of every run, whatever fails in it, the partitions
have together yielded rows that meet the restriction, each at most as often as
the table has it and with the columns asked for; once all have ended without an
error, they have yielded every one. There are no more partitions than streams
were asked for. -/
theorem scan_reads_table {reference : BigQueryReference} {snapshot : PinnedSnapshot} {ownerProject : String}
    {args : SessionInputArgs}
    (hcreated : createTableProvider sha256 sessions reference snapshot ownerProject decodeLimit args = .ok provider)
    (hnames : provider.schema.names.Nodup)
    (hprovides : service.Provides schemas decodeLimit provider.schema sessions)
    (h : provider.planScan sha256 sessions projection rowRestriction targetPartitions = .ok exec)
    (hserves : service.Serves reader exec run) :
    exec.outputSchema = provider.schema.project (requested provider.schema projection) ∧
      exec.lease.name.location = provider.discoveryLocation ∧
      exec.partitionCount ≤ provider.requestedStreams targetPartitions ∧
      ∃ rows, rows = (service.table reference.tableResource snapshot (rowRestriction.filter (· ≠ ""))).map
          (Row.project (requested provider.schema projection)) ∧
        List.Subperm (run.rows reader exec) rows ∧
        (run.Ended reader exec → List.Perm (run.rows reader exec) rows) := by
  obtain ⟨rfl, rfl, -⟩ := createTableProvider_ok hcreated
  obtain ⟨spec, hlease, -, -, -, hlocation, hstreams, -, houtput, -⟩ := planScan_ok hnames h
  obtain ⟨session, location, schema, deadline, hanswers, heq⟩ := hprovides.answered hlease
  have howed := owed_rows hnames hprovides h
  refine ⟨houtput, ?_, ?_, _, rfl, ?_, fun hended => ?_⟩
  · have hlocated := hanswers.located.2 _ hlocation
    rw [heq, ReadSession.lease, ← hlocated, String.ofList_toList]
  · have hcounted := hanswers.counted
    have hpos : 1 ≤ provider.requestedStreams targetPartitions := le_max_right ..
    unfold BigQueryReadExec.partitionCount
    rw [heq]
    rw [hstreams] at hcounted
    exact max_le (Int.ofNat_le.mp hcounted) hpos
  · have hbeginnings : (run.rows reader exec).Sublist ((List.range exec.partitionCount).flatMap (exec.owed service)) :=
      flatMap_sublist fun i _ => (partition_rows hserves i).1.sublist
    exact hbeginnings.subperm.trans howed.subperm
  · refine List.Perm.trans (List.Perm.of_eq ?_) howed
    unfold ScanRun.rows
    rw [List.flatMap_def, List.flatMap_def]
    exact congrArg List.flatten (List.map_congr_left fun i hi =>
      (partition_rows hserves i).2 (hended i (List.mem_range.mp hi)))

-- ---------------------------------------------------------------------------
-- One stream of three rows
-- ---------------------------------------------------------------------------

/-- A schema of one `Int64` field "id" that cannot be null. -/
def idSchemaMessage : Bytes :=
  [255, 255, 255, 255, 128, 0, 0, 0, 16, 0, 0, 0, 12, 0, 20, 0, 16, 0, 18, 0, 4, 0, 8, 0, 12, 0, 0, 0, 24, 0, 0, 0,
    0, 0, 0, 0, 0, 0, 0, 0, 4, 0, 1, 0, 8, 0, 8, 0, 0, 0, 4, 0, 8, 0, 0, 0, 4, 0, 0, 0, 1, 0, 0, 0, 20, 0, 0, 0,
    16, 0, 18, 0, 4, 0, 16, 0, 17, 0, 8, 0, 0, 0, 12, 0, 16, 0, 0, 0, 16, 0, 0, 0, 28, 0, 0, 0, 36, 0, 0, 0, 0, 2, 0, 0,
    2, 0, 0, 0, 105, 100, 0, 0, 8, 0, 9, 0, 4, 0, 8, 0, 8, 0, 0, 0, 64, 0, 0, 0, 1, 0, 0, 0, 0, 0, 0, 0]

def idIpcSchema : IpcSchema := ⟨.little, some [.mk false (.int (some ⟨64, true⟩)) (some [])]⟩

def idSchemas : SchemaReader Unit Schema where
  flatbuffers :=
    ⟨fun metadata => if metadata = idSchemaMessage.drop 8 then some ⟨.v5, .other, none, 0⟩ else none, by
      intro metadata message h
      split at h
      · cases h
        decide
      · cases h⟩
  isSchema message := message.headerType = .other
  headerAsSchema message := if message.headerType = .other then some idIpcSchema else none
  fbToSchema _ := idPartition.sessionSchema

set_option maxRecDepth 4000 in
theorem fromSerialized_idSchemas :
    SessionSchema.fromSerialized idSchemas idSchemaMessage idPartition.decodeLimit = .ok idPartition.sessionSchema := by
  have honly : ∀ field depth, FieldAt IpcField.nested [.mk false (.int (some ⟨64, true⟩)) (some [])] field depth →
      field = .mk false (.int (some ⟨64, true⟩)) (some []) ∧ depth = 1 := by
    intro field depth h
    induction h with
    | top hmem => exact ⟨List.mem_singleton.mp hmem, rfl⟩
    | child _ hmem ih =>
      rw [ih.1] at hmem
      cases hmem
  have hvalid : validateSchema idIpcSchema = .ok () := by
    refine validateSchema_ok.mpr ⟨rfl, _, rfl, fun field depth h => ?_⟩
    obtain ⟨rfl, rfl⟩ := honly field depth h
    exact ⟨⟨rfl, rfl⟩, by decide⟩
  have hparsed : Framing.parseEncapsulated idSchemas.flatbuffers idSchemaMessage idPartition.decodeLimit =
      .ok ⟨⟨.v5, .other, none, 0⟩, []⟩ := by rfl
  unfold SessionSchema.fromSerialized
  simp only [Lists.ite_throw_ok, Lists.bind_eq_ok]
  refine ⟨by decide, _, hparsed, by decide, by decide, ?_⟩
  exact Lists.bind_eq_ok.mpr ⟨(), Lists.mapError_eq_ok.mpr hvalid, rfl⟩

def oneStream (spec : ReadSessionSpec Bytes) : ReadSession where
  name := String.ofList (sessionPath spec.ownerProject.toList ['u', 's'] ['s'])
  expireTime := some ⟨0, 0⟩
  dataFormat := arrowDataFormat
  schema := some (.arrow idSchemaMessage)
  table := spec.tableResource
  tableModifiers := some ⟨some spec.snapshot.toProto⟩
  streams := [String.ofList (streamsFront (String.ofList (sessionPath spec.ownerProject.toList ['u', 's'] ['s'])) ++ ['0'])]

theorem oneStream_answers {spec : ReadSessionSpec Bytes}
    (hlocated : ∀ expected, spec.expectedLocation = some expected → expected.toList = ['u', 's']) :
    MadeFor idSchemas idPartition.decodeLimit spec (oneStream spec) ['u', 's'] idPartition.sessionSchema where
  format := rfl
  table := rfl
  snapshot := rfl
  options := .inl rfl
  schema := ⟨_, by decide, rfl, fromSerialized_idSchemas⟩
  expires := ⟨⟨0, 0, by decide, by decide⟩, rfl⟩
  name := ⟨['s'], String.toList_ofList, by decide⟩
  located := ⟨by decide, hlocated⟩
  counted := spec.count_pos
  streams := ⟨List.nodup_singleton _, List.forall_mem_singleton.mpr ⟨['0'], String.toList_ofList, by decide⟩⟩
  estimates := ⟨le_rfl, le_rfl, le_rfl⟩

def promptTurn (spec : ReadSessionSpec Bytes) : SessionTurn := ⟨secs 0, .ok (oneStream spec), secs 0, secs 0, 0⟩

def promptSessions : SessionOpener Bytes := fun spec =>
  ReadSessionClient.create idSchemas idPartition.decodeLimit spec (promptTurn spec)

def promptService : StorageService Nat := ⟨fun _ _ _ => idRows, fun _ => idRows⟩

theorem promptService_provides :
    promptService.Provides idSchemas idPartition.decodeLimit idPartition.sessionSchema promptSessions where
  opened spec lease h := by
    refine ⟨secs 0, secs 60, secs 0, [promptTurn spec], ?_⟩
    obtain ⟨budget, hbudget⟩ : ∃ budget, RetryBudget.createReadSession (secs 0) (secs 60) = .ok budget := ⟨_, rfl⟩
    have hlease : ReadSessionClient.create idSchemas idPartition.decodeLimit spec (promptTurn spec) = .ok lease := h
    simp [ReadSessionClient.openSession, hbudget, ReadSessionClient.createWithRetry, hlease]
  shared spec lease h := by
    obtain ⟨session, location, schema, deadline, hsession, hanswers, -, rfl⟩ := create_ok h
    obtain rfl := Except.ok.inj hsession
    obtain ⟨bytes, -, hbytes, hschema⟩ := hanswers.schema
    obtain rfl := ReadSessionSchema.arrow.inj (Option.some.inj hbytes)
    obtain rfl := Except.ok.inj (fromSerialized_idSchemas.symm.trans hschema)
    exact coe_flatMap_of_nodup hanswers.streams.1 promptService.stream

theorem promptSessions_ok {spec : ReadSessionSpec Bytes}
    (hlocated : ∀ expected, spec.expectedLocation = some expected → expected.toList = ['u', 's']) :
    promptSessions spec =
      .ok ((oneStream spec).lease spec ['u', 's'] idPartition.sessionSchema guaranteedSessionLifetime) := by
  have hvalid := validateResponse_ok.mpr ⟨_, _, guaranteedSessionLifetime, oneStream_answers hlocated,
    (show (secs 0).checkedAdd guaranteedSessionLifetime = some guaranteedSessionLifetime from rfl), rfl⟩
  exact Lists.bind_eq_ok.mpr ⟨_, rfl, Lists.ite_throw_ok.mpr ⟨lt_irrefl _, Lists.mapError_eq_ok.mpr hvalid⟩⟩

def promptArgs : SessionInputArgs :=
  { idPartition.args with arrowWireCompression := .none, picosTimestampPrecision := .micros, maxStreamCount := some 1 }

def promptSpec (purpose : SessionPurpose) (expectedLocation : Option String) : ReadSessionSpec Bytes :=
  { ReadSessionSpec.plainSpec [] with purpose, expectedLocation }

def promptLease (spec : ReadSessionSpec Bytes) : SessionLease Schema Bytes :=
  (oneStream spec).lease spec ['u', 's'] idPartition.sessionSchema guaranteedSessionLifetime

def promptProvider : BigQueryTableProvider where
  reference := ⟨"t", none⟩
  ownerProject := "p"
  snapshot := (promptSpec .discovery none).snapshot
  discoveryLocation := String.ofList ['u', 's']
  schema := idPartition.sessionSchema
  decodeLimit := idPartition.decodeLimit
  args := promptArgs

def promptExec : BigQueryReadExec Bytes where
  lease := promptLease (promptSpec .execution (some (String.ofList ['u', 's'])))
  outputSchema := idPartition.sessionSchema
  batchProjection := [0]
  decodeLimit := idPartition.decodeLimit
  args := promptArgs

theorem promptProvider_created :
    createTableProvider id promptSessions ⟨"t", none⟩ ⟨0, 0, by decide, by decide⟩ "p" idPartition.decodeLimit
      promptArgs = .ok promptProvider := by
  have hspec : ReadSessionSpec.discovery id ⟨"t", none⟩ ⟨0, 0, by decide, by decide⟩ "p" =
      .ok (promptSpec .discovery none) := by
    rw [ReadSessionSpec.discovery, ReadSessionSpec.new, dif_pos (by decide), dif_pos (by decide), if_neg (by decide),
      if_neg (by decide), if_neg (by decide)]
    rfl
  have hlease : promptSessions (promptSpec .discovery none) = .ok (promptLease (promptSpec .discovery none)) :=
    promptSessions_ok fun _ h => by cases h
  exact Lists.bind_eq_ok.mpr ⟨_, Lists.mapError_eq_ok.mpr hspec, Lists.bind_eq_ok.mpr
    ⟨_, Lists.mapError_eq_ok.mpr hlease, rfl⟩⟩

theorem promptProvider_planned : promptProvider.planScan id promptSessions none none 1 = .ok promptExec := by
  have hspec : ReadSessionSpec.execution id ⟨"t", none⟩ ⟨0, 0, by decide, by decide⟩ "p" (String.ofList ['u', 's']) []
      none 1 promptArgs = .ok (promptSpec .execution (some (String.ofList ['u', 's']))) := by
    have hcount : i32TryFrom (1 : Nat) = some 1 := by decide
    rw [ReadSessionSpec.execution, if_neg (by decide), hcount]
    dsimp only
    rw [ReadSessionSpec.new, dif_pos (by decide), dif_pos (by decide), if_neg (by decide), if_neg (by decide),
      if_neg (by decide)]
    rfl
  have hlease : promptSessions (promptSpec .execution (some (String.ofList ['u', 's']))) = .ok promptExec.lease :=
    promptSessions_ok fun _ h => by
      obtain rfl := Option.some.inj h
      exact String.toList_ofList
  exact Lists.bind_eq_ok.mpr ⟨⟨[], _⟩, rfl, Lists.bind_eq_ok.mpr ⟨_, Lists.mapError_eq_ok.mpr hspec,
    Lists.bind_eq_ok.mpr ⟨_, Lists.mapError_eq_ok.mpr hlease, Lists.bind_eq_ok.mpr ⟨(), rfl,
      Lists.bind_eq_ok.mpr ⟨[0], rfl, rfl⟩⟩⟩⟩⟩

def promptRun : ScanRun where
  started _ := secs 0
  turns _ := [quietTurn (.ready (some (.ok (idResponse [7, 8, 9])))), quietTurn (.ready none)]

def promptStream : String :=
  String.ofList (streamsFront (String.ofList (sessionPath "p".toList ['u', 's'] ['s'])) ++ ['0'])

def promptTrace : List (Event Nat) :=
  let request : ReadRowsRequest := ⟨promptStream, 0⟩
  [.sent request 1 (secs 1) (secs 60), .connected request, .awaited ⟨request⟩ (secs 1) (secs 60),
    .received (idResponse [7, 8, 9]), .emitted ⟨idPartition.outputSchema, idRows, by decide⟩,
    .awaited ⟨request⟩ (secs 1) (secs 60), .closed, .finished]

theorem promptRun_trace : promptRun.trace byteReader promptExec 0 = promptTrace := rfl

theorem promptRun_serves : promptService.Serves byteReader promptExec promptRun := by
  intro i partition h
  cases i with
  | succ i => cases h
  | zero =>
    obtain rfl := PartitionStream.readRows.inj (Except.ok.inj h)
    have hcarries : Carries byteReader (promptExec.readPartition 0 promptStream) (idResponse [7, 8, 9]) idRows :=
      carries_of_decode rfl rfl rfl
    rw [promptRun_trace]
    refine Throughout.of_from Throughout.nil ?_
    simp only [Throughout.From, Serving, and_true, true_and]
    exact ⟨⟨_, List.prefix_refl _, hcarries⟩, le_rfl⟩

theorem scan_reads_table_prompt : List.Perm (promptRun.rows byteReader promptExec) idRows := by
  obtain ⟨-, -, -, rows, hrows, -, hperm⟩ := scan_reads_table promptProvider_created (by decide) promptService_provides
    promptProvider_planned promptRun_serves
  refine (hperm fun i hi => ?_).trans (List.Perm.of_eq (hrows.trans rfl))
  obtain rfl : i = 0 := Nat.lt_one_iff.mp hi
  rw [promptRun_trace]
  simp [promptTrace]

end SilkChiffon.BigQuery
