import SilkChiffon.BigQuery.Classification
import SilkChiffon.Storage.Location

/-!
# Structured status details

A gRPC status may carry an envelope of structured details. The parse is one
pass that keeps at most one `RetryInfo` delay and at most one `StorageError`
code, and refuses everything it cannot read. What it finds is the status that
the retry classification looks at.
-/

namespace SilkChiffon.BigQuery

open Storage (splitOnce)

def retryInfoUrl : String := "type.googleapis.com/google.rpc.RetryInfo"

def storageErrorUrl : String := "type.googleapis.com/google.cloud.bigquery.storage.v1.StorageError"

def protoDurationMaxSeconds : Int := 315576000000

def Code.number : Code → Int
  | .ok => 0
  | .cancelled => 1
  | .unknown => 2
  | .invalidArgument => 3
  | .deadlineExceeded => 4
  | .notFound => 5
  | .alreadyExists => 6
  | .permissionDenied => 7
  | .resourceExhausted => 8
  | .failedPrecondition => 9
  | .aborted => 10
  | .outOfRange => 11
  | .unimplemented => 12
  | .internal => 13
  | .unavailable => 14
  | .dataLoss => 15
  | .unauthenticated => 16

def StorageErrorCode.unspecified : StorageErrorCode := .other 0

def StorageErrorCode.tryFrom (code : Int) : Option StorageErrorCode :=
  if code = 3 then some .streamNotFound
  else if 0 ≤ code ∧ code ≤ 14 then some (.other code)
  else none

structure Any where
  typeUrl : String
  value : List UInt8
  deriving DecidableEq

structure ProtoDuration where
  seconds : Int
  nanos : Int
  deriving DecidableEq

structure RetryInfo where
  retryDelay : Option ProtoDuration
  deriving DecidableEq

structure RpcStatus where
  code : Int
  details : List Any
  deriving DecidableEq

structure ProtoCrate where
  rpcStatus : List UInt8 → Option RpcStatus
  retryInfo : List UInt8 → Option RetryInfo
  storageError : List UInt8 → Option Int

inductive SourceError
  | hyper (isClosed isIncompleteMessage : Bool)
  | other
  deriving DecidableEq

/-- The details are bytes, the sources are listed from the outermost one. -/
structure GrpcStatus where
  code : Code
  details : List UInt8
  sources : List SourceError
  deriving DecidableEq

def TransportEvidence.fromStatus (status : GrpcStatus) : Option TransportEvidence :=
  status.sources.findSome? fun
    | .hyper true _ => some .channelClosed
    | .hyper false true => some .incompleteMessage
    | .hyper false false => none
    | .other => none

inductive StatusDetailErrorKind
  | malformedEnvelope
  | codeMismatch
  | malformedTypeUrl
  | malformedRetryInfo
  | missingRetryDelay
  | invalidRetryDelay
  | duplicateRetryInfo
  | malformedStorageError
  | duplicateStorageError
  | conflictingDetails
  deriving DecidableEq

def rsplitOnce (c : Char) (text : List Char) : Option (List Char × List Char) :=
  (splitOnce c text.reverse).map fun (after, before) => (before.reverse, after.reverse)

def validateTypeUrl (typeUrl : String) : Except StatusDetailErrorKind Unit :=
  match rsplitOnce '/' typeUrl.toList with
  | none => .error .malformedTypeUrl
  | some (front, name) =>
    if front = [] ∨ name = [] ∨
        ¬ (name.splitOn '.').all fun part => part ≠ [] && part.all fun c => c.isAlphanum || c = '_' then
      .error .malformedTypeUrl
    else .ok ()

def retryDuration (seconds nanos : Int) : Except StatusDetailErrorKind Duration :=
  if h : (0 ≤ seconds ∧ seconds ≤ protoDurationMaxSeconds) ∧ 0 ≤ nanos ∧ nanos < 1000000000 then
    .ok ⟨seconds.toNat * 1000000000 + nanos.toNat, by
      unfold protoDurationMaxSeconds at h
      unfold Duration.limit
      omega⟩
  else .error .invalidRetryDelay

namespace StatusDetails

/-- One round of the loop, `seen` being what the rounds before it found. -/
def parseDetail (proto : ProtoCrate) (seen : StatusDetails) (detail : Any) :
    Except StatusDetailErrorKind StatusDetails := do
  validateTypeUrl detail.typeUrl
  if detail.typeUrl = retryInfoUrl then
    if seen.retryDelay.isSome then
      throw .duplicateRetryInfo
    match proto.retryInfo detail.value with
    | none => throw .malformedRetryInfo
    | some ⟨none⟩ => throw .missingRetryDelay
    | some ⟨some duration⟩ =>
      let delay ← retryDuration duration.seconds duration.nanos
      pure { seen with retryDelay := some delay }
  else if detail.typeUrl = storageErrorUrl then
    if seen.storageErrorCode.isSome then
      throw .duplicateStorageError
    match (proto.storageError detail.value).bind StorageErrorCode.tryFrom with
    | none => throw .malformedStorageError
    | some code =>
      if code = .unspecified then
        throw .malformedStorageError
      pure { seen with storageErrorCode := some code }
  else
    pure seen

def parse (proto : ProtoCrate) (status : GrpcStatus) : Except StatusDetailErrorKind StatusDetails :=
  if status.details = [] then .ok ⟨none, none⟩
  else
    match proto.rpcStatus status.details with
    | none => .error .malformedEnvelope
    | some envelope =>
      if envelope.code ≠ status.code.number then .error .codeMismatch
      else do
        let found ← envelope.details.foldlM (parseDetail proto) ⟨none, none⟩
        if found.retryDelay.isSome ∧ found.storageErrorCode.isSome then
          throw .conflictingDetails
        pure found

end StatusDetails

def GrpcStatus.parsed (proto : ProtoCrate) (status : GrpcStatus) : Status where
  code := status.code
  details := (StatusDetails.parse proto status).toOption
  evidence := TransportEvidence.fromStatus status

def classifyCreateStatus (status : Status) : RetryDecision :=
  match status.details with
  | none => .permanent .createReadSession .malformedStatusDetails
  | some details =>
    match status.code with
    | .deadlineExceeded => .retry .createReadSession .grpcDeadlineExceeded details.retryDelay
    | .unavailable => .retry .createReadSession .grpcUnavailable details.retryDelay
    | code => .permanent .createReadSession (.grpcStatus code)

inductive CreateReadSessionFailure
  | status (status : Status)
  | transientCredentials
  | credentials
  | localResource
  deriving DecidableEq

def classifyCreateReadSession : CreateReadSessionFailure → RetryDecision
  | .transientCredentials => .retry .createReadSession .credentials none
  | .credentials => .permanent .createReadSession .credentials
  | .localResource => .permanent .createReadSession .localResource
  | .status status => classifyCreateStatus status

def classifyStatus (proto : ProtoCrate) (scope : RetryScope) (status : GrpcStatus) : RetryDecision :=
  match scope with
  | .createReadSession => classifyCreateReadSession (.status (status.parsed proto))
  | .readRows => classifyReadRows (.status (status.parsed proto))

-- ---------------------------------------------------------------------------
-- What a detail says on its own
-- ---------------------------------------------------------------------------

namespace Any

def retryDelay (proto : ProtoCrate) (detail : Any) : Option Duration :=
  if detail.typeUrl = retryInfoUrl then
    match proto.retryInfo detail.value with
    | some ⟨some duration⟩ => (retryDuration duration.seconds duration.nanos).toOption
    | _ => none
  else none

def storageErrorCode (proto : ProtoCrate) (detail : Any) : Option StorageErrorCode :=
  if detail.typeUrl = storageErrorUrl then
    match (proto.storageError detail.value).bind StorageErrorCode.tryFrom with
    | some code => if code = .unspecified then none else some code
    | none => none
  else none

/-- A well-formed type URL, and a payload in order where the URL is a known one. -/
structure WellFormed (proto : ProtoCrate) (detail : Any) : Prop where
  url : validateTypeUrl detail.typeUrl = .ok ()
  retryInfo : detail.typeUrl = retryInfoUrl → (detail.retryDelay proto).isSome
  storageError : detail.typeUrl = storageErrorUrl → (detail.storageErrorCode proto).isSome

def Unknown (detail : Any) : Prop := detail.typeUrl ≠ retryInfoUrl ∧ detail.typeUrl ≠ storageErrorUrl

end Any

theorem urls_ne : retryInfoUrl ≠ storageErrorUrl := by decide

theorem validateTypeUrl_retryInfoUrl : validateTypeUrl retryInfoUrl = .ok () := by decide +kernel

theorem validateTypeUrl_storageErrorUrl : validateTypeUrl storageErrorUrl = .ok () := by decide +kernel

theorem toList_append_some {o o' : Option α} : o.toList ++ [a] = o'.toList ↔ o = none ∧ o' = some a := by
  cases o with
  | none => cases o' <;> simp [eq_comm]
  | some b => cases o' <;> simp

theorem eq_toList_of_append {o : Option α} {l l' : List α} (h : l ++ l' = o.toList) : ∃ p : Option α, l = p.toList := by
  cases l with
  | nil => exact ⟨none, rfl⟩
  | cons a rest =>
    cases o with
    | none => cases h
    | some b =>
      obtain ⟨rfl, hrest⟩ := List.cons.inj h
      obtain ⟨rfl, -⟩ := List.append_eq_nil_iff.mp hrest
      exact ⟨some a, rfl⟩

theorem filterMap_cons_toList {f : α → Option β} {l : List α} :
    (a :: l).filterMap f = (f a).toList ++ l.filterMap f := by
  cases h : f a <;> simp [h]

theorem toList_inj {o o' : Option α} : o.toList = o'.toList ↔ o = o' := by
  cases o <;> cases o' <;> simp

namespace StatusDetails

theorem parseDetail_retryInfo (h : detail.typeUrl = retryInfoUrl) :
    parseDetail proto seen detail = .ok found ↔
      seen.retryDelay = none ∧
        ∃ delay, detail.retryDelay proto = some delay ∧ found = { seen with retryDelay := some delay } := by
  unfold parseDetail Any.retryDelay
  rw [if_pos h, h, validateTypeUrl_retryInfoUrl]
  obtain ⟨delay, code⟩ := seen
  cases delay with
  | some delay => simp [bind, Except.bind, throw, throwThe, MonadExceptOf.throw]
  | none =>
    cases proto.retryInfo detail.value with
    | none => simp [bind, Except.bind, throw, throwThe, MonadExceptOf.throw]
    | some retry =>
      obtain ⟨duration⟩ := retry
      cases duration with
      | none => simp [bind, Except.bind, throw, throwThe, MonadExceptOf.throw]
      | some duration =>
        cases hduration : retryDuration duration.seconds duration.nanos <;>
          simp [bind, Except.bind, pure, Except.pure, Except.toOption, hduration, eq_comm]

theorem parseDetail_storageError (h : detail.typeUrl = storageErrorUrl) :
    parseDetail proto seen detail = .ok found ↔
      seen.storageErrorCode = none ∧
        ∃ code, detail.storageErrorCode proto = some code ∧
          found = { seen with storageErrorCode := some code } := by
  unfold parseDetail Any.storageErrorCode
  rw [if_pos h, h, validateTypeUrl_storageErrorUrl]
  obtain ⟨delay, code⟩ := seen
  cases code with
  | some code => simp [bind, Except.bind, throw, throwThe, MonadExceptOf.throw, urls_ne.symm]
  | none =>
    cases (proto.storageError detail.value).bind StorageErrorCode.tryFrom with
    | none => simp [bind, Except.bind, throw, throwThe, MonadExceptOf.throw, urls_ne.symm]
    | some code =>
      by_cases hcode : code = .unspecified <;>
        simp [bind, Except.bind, throw, throwThe, MonadExceptOf.throw, pure, Except.pure, urls_ne.symm,
          hcode, eq_comm]

theorem parseDetail_unknown (h : detail.Unknown) :
    parseDetail proto seen detail = .ok found ↔ validateTypeUrl detail.typeUrl = .ok () ∧ found = seen := by
  unfold parseDetail
  rw [if_neg h.1, if_neg h.2]
  cases validateTypeUrl detail.typeUrl <;> simp [bind, Except.bind, pure, Except.pure, eq_comm]

/-- A round takes a detail in order, into a place that is still free. -/
theorem parseDetail_ok :
    parseDetail proto seen detail = .ok found ↔
      detail.WellFormed proto ∧
        seen.retryDelay.toList ++ (detail.retryDelay proto).toList = found.retryDelay.toList ∧
        seen.storageErrorCode.toList ++ (detail.storageErrorCode proto).toList =
          found.storageErrorCode.toList := by
  obtain ⟨delay, code⟩ := seen
  obtain ⟨delay', code'⟩ := found
  by_cases hretry : detail.typeUrl = retryInfoUrl
  · have hstorage : detail.typeUrl ≠ storageErrorUrl := hretry ▸ urls_ne
    have hcode : detail.storageErrorCode proto = none := if_neg hstorage
    rw [parseDetail_retryInfo hretry, hcode, Option.toList_none, List.append_nil, toList_inj]
    constructor
    · rintro ⟨rfl, delay, hdelay, heq⟩
      obtain ⟨rfl, rfl⟩ := StatusDetails.mk.inj heq
      refine ⟨⟨hretry ▸ validateTypeUrl_retryInfoUrl, fun _ => by rw [hdelay]; rfl, fun h => absurd h hstorage⟩, ?_⟩
      simp [hdelay]
    · rintro ⟨hwell, hfree, rfl⟩
      obtain ⟨d, hdelay⟩ := Option.isSome_iff_exists.mp (hwell.retryInfo hretry)
      rw [hdelay, Option.toList_some, toList_append_some] at hfree
      obtain ⟨rfl, rfl⟩ := hfree
      exact ⟨rfl, d, hdelay, rfl⟩
  · have hdelay : detail.retryDelay proto = none := if_neg hretry
    rw [hdelay, Option.toList_none, List.append_nil, toList_inj]
    by_cases hstorage : detail.typeUrl = storageErrorUrl
    · rw [parseDetail_storageError hstorage]
      constructor
      · rintro ⟨rfl, code, hcode, heq⟩
        obtain ⟨rfl, rfl⟩ := StatusDetails.mk.inj heq
        refine ⟨⟨hstorage ▸ validateTypeUrl_storageErrorUrl, fun h => absurd h hretry, fun _ => by rw [hcode]; rfl⟩, rfl, ?_⟩
        simp [hcode]
      · rintro ⟨hwell, rfl, hfree⟩
        obtain ⟨c, hcode⟩ := Option.isSome_iff_exists.mp (hwell.storageError hstorage)
        rw [hcode, Option.toList_some, toList_append_some] at hfree
        obtain ⟨rfl, rfl⟩ := hfree
        exact ⟨rfl, c, hcode, rfl⟩
    · have hcode : detail.storageErrorCode proto = none := if_neg hstorage
      rw [parseDetail_unknown ⟨hretry, hstorage⟩, hcode, Option.toList_none, List.append_nil, toList_inj]
      constructor
      · rintro ⟨hurl, heq⟩
        obtain ⟨rfl, rfl⟩ := StatusDetails.mk.inj heq
        exact ⟨⟨hurl, fun h => absurd h hretry, fun h => absurd h hstorage⟩, rfl, rfl⟩
      · rintro ⟨hwell, rfl, rfl⟩
        exact ⟨hwell.url, rfl⟩

/-- The whole loop: every detail is in order, and together they fill each
place at most once. -/
theorem foldlM_parseDetail_ok {details : List Any} :
    details.foldlM (parseDetail proto) seen = .ok found ↔
      (∀ detail ∈ details, detail.WellFormed proto) ∧
        seen.retryDelay.toList ++ details.filterMap (Any.retryDelay proto) = found.retryDelay.toList ∧
        seen.storageErrorCode.toList ++ details.filterMap (Any.storageErrorCode proto) =
          found.storageErrorCode.toList := by
  induction details generalizing seen with
  | nil =>
    obtain ⟨delay, code⟩ := seen
    obtain ⟨delay', code'⟩ := found
    simp [pure, Except.pure, toList_inj]
  | cons detail rest ih =>
    rw [List.foldlM_cons, Lists.bind_eq_ok, List.forall_mem_cons]
    simp only [parseDetail_ok, ih, filterMap_cons_toList, ← List.append_assoc]
    constructor
    · rintro ⟨middle, ⟨hwell, hdelay, hcode⟩, hrest, hdelays, hcodes⟩
      rw [hdelay, hcode]
      exact ⟨⟨hwell, hrest⟩, hdelays, hcodes⟩
    · rintro ⟨⟨hwell, hrest⟩, hdelays, hcodes⟩
      obtain ⟨delay, hdelay⟩ := eq_toList_of_append hdelays
      obtain ⟨code, hcode⟩ := eq_toList_of_append hcodes
      refine ⟨⟨delay, code⟩, ⟨hwell, hdelay, hcode⟩, hrest, ?_, ?_⟩
      · rw [← hdelays, ← hdelay]
      · rw [← hcodes, ← hcode]

end StatusDetails

/-- The envelope of a status: one without bytes has no details. -/
def GrpcStatus.envelope (proto : ProtoCrate) (status : GrpcStatus) : Option RpcStatus :=
  if status.details = [] then some ⟨status.code.number, []⟩ else proto.rpcStatus status.details

theorem StatusDetails.parse_ok {status : GrpcStatus} :
    StatusDetails.parse proto status = .ok found ↔
      ∃ envelope, status.envelope proto = some envelope ∧ envelope.code = status.code.number ∧
        (∀ detail ∈ envelope.details, detail.WellFormed proto) ∧
        envelope.details.filterMap (Any.retryDelay proto) = found.retryDelay.toList ∧
        envelope.details.filterMap (Any.storageErrorCode proto) = found.storageErrorCode.toList ∧
        ¬ (found.retryDelay.isSome ∧ found.storageErrorCode.isSome) := by
  obtain ⟨delay, code⟩ := found
  unfold StatusDetails.parse GrpcStatus.envelope
  by_cases hempty : status.details = []
  · rw [if_pos hempty, if_pos hempty]
    constructor
    · intro h
      obtain ⟨rfl, rfl⟩ := StatusDetails.mk.inj (Except.ok.inj h)
      exact ⟨_, rfl, rfl, by simp, rfl, rfl, by simp⟩
    · rintro ⟨_, ⟨⟩, -, -, hdelay, hcode, -⟩
      cases delay <;> cases code <;> simp_all
  · rw [if_neg hempty, if_neg hempty]
    cases proto.rpcStatus status.details with
    | none => simp
    | some envelope =>
      dsimp only
      by_cases hcode : envelope.code = status.code.number
      · rw [if_neg (not_not.mpr hcode), Lists.bind_eq_ok]
        simp only [foldlM_parseDetail_ok, Lists.ite_throw_ok, Option.toList_none, List.nil_append]
        constructor
        · rintro ⟨_, ⟨hwell, hdelay, hcode⟩, hboth, ⟨⟩⟩
          exact ⟨envelope, rfl, ‹_›, hwell, hdelay, hcode, hboth⟩
        · rintro ⟨_, ⟨⟩, -, hwell, hdelay, hcode, hboth⟩
          exact ⟨_, ⟨hwell, hdelay, hcode⟩, hboth, rfl⟩
      · rw [if_pos hcode]
        simp [hcode]

-- ---------------------------------------------------------------------------
-- Noise and order
-- ---------------------------------------------------------------------------

/-- Lists of details that differ in their order and in well-formed details of
unknown types. -/
inductive SameNoise : List Any → List Any → Prop
  | perm : details.Perm details' → SameNoise details details'
  | unknown {detail : Any} : validateTypeUrl detail.typeUrl = .ok () → detail.Unknown →
      SameNoise details (detail :: details)
  | symm : SameNoise details details' → SameNoise details' details
  | trans : SameNoise details details' → SameNoise details' details'' → SameNoise details details''

def GrpcStatus.Rearranged (proto : ProtoCrate) (status status' : GrpcStatus) : Prop :=
  status'.code = status.code ∧ status'.sources = status.sources ∧
    ∃ number details details', status.envelope proto = some ⟨number, details⟩ ∧
      status'.envelope proto = some ⟨number, details'⟩ ∧ SameNoise details details'

theorem Any.Unknown.wellFormed {detail : Any} (h : validateTypeUrl detail.typeUrl = .ok ())
    (hunknown : detail.Unknown) :
    detail.WellFormed proto :=
  ⟨h, fun hretry => absurd hretry hunknown.1, fun hstorage => absurd hstorage hunknown.2⟩

theorem SameNoise.keeps (proto : ProtoCrate) (h : SameNoise details details') :
    ((∀ detail ∈ details, detail.WellFormed proto) ↔ ∀ detail ∈ details', detail.WellFormed proto) ∧
      (details.filterMap (Any.retryDelay proto)).Perm (details'.filterMap (Any.retryDelay proto)) ∧
      (details.filterMap (Any.storageErrorCode proto)).Perm (details'.filterMap (Any.storageErrorCode proto)) := by
  induction h with
  | perm h => exact ⟨by simp only [h.mem_iff], h.filterMap _, h.filterMap _⟩
  | @unknown details detail hurl hunknown =>
    have hdelay : detail.retryDelay proto = none := if_neg hunknown.1
    have hcode : detail.storageErrorCode proto = none := if_neg hunknown.2
    rw [List.filterMap_cons_none hdelay, List.filterMap_cons_none hcode, List.forall_mem_cons]
    exact ⟨⟨fun h => ⟨hunknown.wellFormed hurl, h⟩, And.right⟩, .refl _, .refl _⟩
  | symm _ ih => exact ⟨ih.1.symm, ih.2.1.symm, ih.2.2.symm⟩
  | trans _ _ ih ih' => exact ⟨ih.1.trans ih'.1, ih.2.1.trans ih'.2.1, ih.2.2.trans ih'.2.2⟩

theorem eq_toList_of_perm {o : Option α} (h : List.Perm l l') (hl : l = o.toList) : l' = o.toList := by
  subst hl
  cases o with
  | none => exact List.nil_perm.mp h
  | some a => exact List.singleton_perm.mp h |>.symm

theorem GrpcStatus.Rearranged.symm (h : GrpcStatus.Rearranged proto status status') :
    GrpcStatus.Rearranged proto status' status := by
  obtain ⟨hcode, hsources, number, details, details', henvelope, henvelope', hsame⟩ := h
  exact ⟨hcode.symm, hsources.symm, number, details', details, henvelope', henvelope, hsame.symm⟩

theorem GrpcStatus.Rearranged.parse_ok (h : GrpcStatus.Rearranged proto status status')
    (hparse : StatusDetails.parse proto status = .ok found) : StatusDetails.parse proto status' = .ok found := by
  obtain ⟨hcode, -, number, details, details', henvelope, henvelope', hsame⟩ := h
  obtain ⟨_, henv, hnumber, hwell, hdelay, hstorage, hboth⟩ := StatusDetails.parse_ok.mp hparse
  obtain rfl := Option.some.inj (henvelope.symm.trans henv)
  obtain ⟨hwells, hdelays, hcodes⟩ := hsame.keeps proto
  exact StatusDetails.parse_ok.mpr ⟨_, henvelope', hnumber.trans (congrArg _ hcode.symm), hwells.mp hwell,
    eq_toList_of_perm hdelays hdelay, eq_toList_of_perm hcodes hstorage, hboth⟩

theorem GrpcStatus.Rearranged.parsed_eq (h : GrpcStatus.Rearranged proto status status') :
    status'.parsed proto = status.parsed proto := by
  have hdetails : (StatusDetails.parse proto status').toOption = (StatusDetails.parse proto status).toOption := by
    cases hparse : StatusDetails.parse proto status with
    | ok found => rw [h.parse_ok hparse]
    | error e =>
      cases hparse' : StatusDetails.parse proto status' with
      | ok found => exact absurd ((h.symm.parse_ok hparse').symm.trans hparse) (by simp)
      | error e' => rfl
  unfold GrpcStatus.parsed TransportEvidence.fromStatus
  rw [hdetails, h.1, h.2.1]

-- ---------------------------------------------------------------------------
-- Malformed statuses
-- ---------------------------------------------------------------------------

/-- What no retry may rest on: an envelope that does not decode or names
another code, a detail out of order, two details of one known type, or one of
each. -/
inductive GrpcStatus.Malformed (proto : ProtoCrate) (status : GrpcStatus) : Prop
  | envelope : status.envelope proto = none → Malformed proto status
  | code {envelope : RpcStatus} : status.envelope proto = some envelope → envelope.code ≠ status.code.number →
      Malformed proto status
  | detail {envelope : RpcStatus} {detail : Any} : status.envelope proto = some envelope →
      detail ∈ envelope.details → ¬ detail.WellFormed proto → Malformed proto status
  | duplicate {envelope : RpcStatus} {url : String} : status.envelope proto = some envelope →
      url = retryInfoUrl ∨ url = storageErrorUrl → 1 < envelope.details.countP (·.typeUrl = url) →
      Malformed proto status
  | conflicting {envelope : RpcStatus} {retry storage : Any} : status.envelope proto = some envelope →
      retry ∈ envelope.details → retry.typeUrl = retryInfoUrl →
      storage ∈ envelope.details → storage.typeUrl = storageErrorUrl → Malformed proto status

theorem length_filterMap_of_url {details : List Any} {f : Any → Option α}
    (hwell : ∀ detail ∈ details, (f detail).isSome = decide (detail.typeUrl = url)) :
    (details.filterMap f).length = details.countP (·.typeUrl = url) := by
  induction details with
  | nil => rfl
  | cons detail rest ih =>
    obtain ⟨hdetail, hrest⟩ := List.forall_mem_cons.mp hwell
    rw [filterMap_cons_toList, List.length_append, ih hrest, List.countP_cons]
    cases hf : f detail with
    | none =>
      rw [hf] at hdetail
      simp [← hdetail]
    | some a =>
      rw [hf] at hdetail
      simp [← hdetail, Nat.add_comm]

theorem Any.WellFormed.retryDelay_isSome {detail : Any} (h : detail.WellFormed proto) :
    (detail.retryDelay proto).isSome = decide (detail.typeUrl = retryInfoUrl) := by
  by_cases hurl : detail.typeUrl = retryInfoUrl
  · simp [hurl, h.retryInfo hurl]
  · simp [Any.retryDelay, hurl]

theorem Any.WellFormed.storageErrorCode_isSome {detail : Any} (h : detail.WellFormed proto) :
    (detail.storageErrorCode proto).isSome = decide (detail.typeUrl = storageErrorUrl) := by
  by_cases hurl : detail.typeUrl = storageErrorUrl
  · simp [hurl, h.storageError hurl]
  · simp [Any.storageErrorCode, hurl]

theorem toList_length_le (o : Option α) : o.toList.length ≤ 1 := by
  cases o <;> simp

theorem isSome_of_mem_toList {o : Option α} (h : a ∈ o.toList) : o.isSome = true := by
  cases o with
  | none => cases h
  | some b => rfl

theorem GrpcStatus.Malformed.parse_ne_ok (h : GrpcStatus.Malformed proto status) :
    StatusDetails.parse proto status ≠ .ok found := by
  intro hparse
  obtain ⟨envelope, henv, hnumber, hwell, hdelay, hstorage, hboth⟩ := StatusDetails.parse_ok.mp hparse
  have hsame : ∀ {envelope' : RpcStatus}, status.envelope proto = some envelope' → envelope' = envelope :=
    fun h => Option.some.inj (h.symm.trans henv)
  have hdelays := length_filterMap_of_url fun detail hmem => (hwell detail hmem).retryDelay_isSome
  have hcodes := length_filterMap_of_url fun detail hmem => (hwell detail hmem).storageErrorCode_isSome
  cases h with
  | envelope h => rw [h] at henv; cases henv
  | code h hne => exact hne (hsame h ▸ hnumber)
  | detail h hmem hnot =>
    obtain rfl := hsame h
    exact hnot (hwell _ hmem)
  | duplicate h hurl hmany =>
    obtain rfl := hsame h
    rcases hurl with rfl | rfl
    · rw [← hdelays, hdelay] at hmany
      exact absurd (toList_length_le _) (Nat.not_le.mpr hmany)
    · rw [← hcodes, hstorage] at hmany
      exact absurd (toList_length_le _) (Nat.not_le.mpr hmany)
  | conflicting h hretry hretryUrl hmem hstorageUrl =>
    obtain rfl := hsame h
    obtain ⟨delay, hd⟩ := Option.isSome_iff_exists.mp ((hwell _ hretry).retryInfo hretryUrl)
    obtain ⟨code, hc⟩ := Option.isSome_iff_exists.mp ((hwell _ hmem).storageError hstorageUrl)
    refine hboth ⟨isSome_of_mem_toList (a := delay) ?_, isSome_of_mem_toList (a := code) ?_⟩
    · exact hdelay ▸ List.mem_filterMap.mpr ⟨_, hretry, hd⟩
    · exact hstorage ▸ List.mem_filterMap.mpr ⟨_, hmem, hc⟩

theorem eq_toList_of_length {l : List α} (h : l.length ≤ 1) : ∃ o : Option α, l = o.toList := by
  match l, h with
  | [], _ => exact ⟨none, rfl⟩
  | [a], _ => exact ⟨some a, rfl⟩

theorem StatusDetails.parse_ok_of_not_malformed (h : ¬ GrpcStatus.Malformed proto status) :
    ∃ found, StatusDetails.parse proto status = .ok found := by
  cases henv : status.envelope proto with
  | none => exact absurd (.envelope henv) h
  | some envelope =>
    have hnumber : envelope.code = status.code.number := by
      by_contra hne
      exact h (.code henv hne)
    have hwell : ∀ detail ∈ envelope.details, detail.WellFormed proto := by
      intro detail hmem
      by_contra hnot
      exact h (.detail henv hmem hnot)
    have honce : ∀ url, url = retryInfoUrl ∨ url = storageErrorUrl → envelope.details.countP (·.typeUrl = url) ≤ 1 := by
      intro url hurl
      by_contra hmany
      exact h (.duplicate henv hurl (by omega))
    have hdelays := length_filterMap_of_url fun detail hmem => (hwell detail hmem).retryDelay_isSome
    have hcodes := length_filterMap_of_url fun detail hmem => (hwell detail hmem).storageErrorCode_isSome
    obtain ⟨delay, hdelay⟩ := eq_toList_of_length (hdelays ▸ honce _ (.inl rfl))
    obtain ⟨code, hcode⟩ := eq_toList_of_length (hcodes ▸ honce _ (.inr rfl))
    refine ⟨⟨delay, code⟩, parse_ok.mpr ⟨envelope, henv, hnumber, hwell, hdelay, hcode, ?_⟩⟩
    rintro ⟨hd, hc⟩
    obtain ⟨d, rfl⟩ := Option.isSome_iff_exists.mp hd
    obtain ⟨c, rfl⟩ := Option.isSome_iff_exists.mp hc
    have hdmem : d ∈ envelope.details.filterMap (Any.retryDelay proto) := by simp [hdelay]
    have hcmem : c ∈ envelope.details.filterMap (Any.storageErrorCode proto) := by simp [hcode]
    obtain ⟨retry, hretry, hd⟩ := List.mem_filterMap.mp hdmem
    obtain ⟨storage, hstorage, hc⟩ := List.mem_filterMap.mp hcmem
    refine h (.conflicting henv hretry ?_ hstorage ?_)
    · exact of_decide_eq_true ((hwell _ hretry).retryDelay_isSome.symm.trans (by rw [hd]; rfl))
    · exact of_decide_eq_true ((hwell _ hstorage).storageErrorCode_isSome.symm.trans (by rw [hc]; rfl))

-- ---------------------------------------------------------------------------
-- The retry decisions
-- ---------------------------------------------------------------------------

def RetryDecision.isRetry : RetryDecision → Bool
  | .retry .. => true
  | .permanent .. => false

def RetryDelay.amount : RetryDelay → Duration
  | .backoff delay => delay
  | .serverMinimum delay => delay

def GrpcStatus.Carries (proto : ProtoCrate) (status : GrpcStatus) (delay : Duration) : Prop :=
  ∃ envelope detail, status.envelope proto = some envelope ∧ detail ∈ envelope.details ∧
    detail.retryDelay proto = some delay

/-- Noise and order do not count, nothing malformed is retried, and a retry
waits at least as long as the server asks. -/
structure SoundClassification (proto : ProtoCrate) (status : GrpcStatus) : Prop where
  noise : ∀ status', status.Rearranged proto status' → ∀ scope,
    classifyStatus proto scope status' = classifyStatus proto scope status
  malformed : status.Malformed proto → ∀ scope, (classifyStatus proto scope status).isRetry = false
  delay : ∀ asked, status.Carries proto asked → ∀ scope backoff planned,
    (classifyStatus proto scope status).delay backoff = some planned → asked ≤ planned.amount

theorem GrpcStatus.Rearranged.classifyStatus_eq (h : GrpcStatus.Rearranged proto status status') :
    classifyStatus proto scope status' = classifyStatus proto scope status := by
  cases scope <;> simp only [classifyStatus, h.parsed_eq]

theorem GrpcStatus.Malformed.classifyStatus_eq (h : GrpcStatus.Malformed proto status) :
    classifyStatus proto scope status = .permanent scope .malformedStatusDetails := by
  have hparsed : (status.parsed proto).details = none := by
    cases hparse : StatusDetails.parse proto status with
    | ok found => exact absurd hparse h.parse_ne_ok
    | error e => simp [GrpcStatus.parsed, hparse, Except.toOption]
  cases scope with
  | createReadSession => simp [classifyStatus, classifyCreateReadSession, classifyCreateStatus, hparsed]
  | readRows => simp [classifyStatus, classifyReadRows, classifyReadRowsStatus, hparsed]

theorem GrpcStatus.Carries.details_eq (h : GrpcStatus.Carries proto status asked)
    (hwell : ¬ GrpcStatus.Malformed proto status) :
    (status.parsed proto).details = some ⟨some asked, none⟩ := by
  obtain ⟨⟨delay, code⟩, hparse⟩ := StatusDetails.parse_ok_of_not_malformed hwell
  obtain ⟨envelope, henv, -, -, hdelay, -, hboth⟩ := StatusDetails.parse_ok.mp hparse
  obtain ⟨envelope', detail, henv', hmem, hasked⟩ := h
  obtain rfl := Option.some.inj (henv.symm.trans henv')
  have hfound : asked ∈ delay.toList := hdelay ▸ List.mem_filterMap.mpr ⟨detail, hmem, hasked⟩
  obtain rfl := Option.mem_toList.mp hfound
  have hcode : code = none := by
    by_contra hsome
    exact hboth ⟨rfl, Option.isSome_iff_ne_none.mpr hsome⟩
  rw [GrpcStatus.parsed, hparse, hcode]
  rfl

theorem asked_le_of_retry {decision : RetryDecision}
    (h : (∃ scope why, decision = .retry scope why (some asked)) ∨ decision.isRetry = false)
    (hplanned : decision.delay backoff = some planned) : asked ≤ planned.amount := by
  rcases h with ⟨scope, why, rfl⟩ | h
  · obtain rfl := Option.some.inj hplanned
    exact le_max_left ..
  · cases decision with
    | retry => cases h
    | permanent => cases hplanned

/-- Without transport evidence every retry hands the delay on. -/
theorem classifyStatus_of_delay (scope : RetryScope) (hevidence : TransportEvidence.fromStatus status = none)
    (hdetails : (status.parsed proto).details = some ⟨some asked, none⟩) :
    (∃ scope' why, classifyStatus proto scope status = .retry scope' why (some asked)) ∨
      (classifyStatus proto scope status).isRetry = false := by
  have hparsed : status.parsed proto = ⟨status.code, some ⟨some asked, none⟩, none⟩ := by
    rw [← hdetails, ← hevidence]
    rfl
  cases scope with
  | createReadSession =>
    simp only [classifyStatus, classifyCreateReadSession, classifyCreateStatus, hparsed]
    split
    · exact .inl ⟨_, _, rfl⟩
    · exact .inl ⟨_, _, rfl⟩
    · exact .inr rfl
  | readRows =>
    simp only [classifyStatus, classifyReadRows, classifyReadRowsStatus, hparsed]
    cases status.code <;> first | exact .inl ⟨_, _, rfl⟩ | exact .inr rfl

/-- The classification is sound for a status unless transport evidence takes
the place of the delay that its details ask for. -/
theorem classification_sound_iff (proto : ProtoCrate) (status : GrpcStatus) :
    SoundClassification proto status ↔
      TransportEvidence.fromStatus status = none ∨ status.Malformed proto ∨
        ∀ asked, status.Carries proto asked → asked = .zero := by
  constructor
  · intro hsound
    by_contra hnot
    obtain ⟨hevidence, hwell, hasked⟩ : TransportEvidence.fromStatus status ≠ none ∧ ¬ status.Malformed proto ∧
        ∃ asked, status.Carries proto asked ∧ asked ≠ .zero := by
      simpa only [not_or, not_forall, exists_prop] using hnot
    obtain ⟨evidence, hevidence⟩ := Option.ne_none_iff_exists'.mp hevidence
    obtain ⟨asked, hcarries, hne⟩ := hasked
    have hparsed : status.parsed proto = ⟨status.code, some ⟨some asked, none⟩, some evidence⟩ := by
      rw [← hcarries.details_eq hwell, ← hevidence]
      rfl
    have hdecision : classifyStatus proto .readRows status = .retry .readRows (.transport evidence) none := by
      rw [classifyStatus, hparsed]
      rfl
    have hle := hsound.delay asked hcarries .readRows .zero (.backoff .zero) (by rw [hdecision]; rfl)
    exact hne (le_antisymm hle (Nat.zero_le _))
  · intro h
    refine ⟨fun status' hsame scope => hsame.classifyStatus_eq, fun hbad scope => ?_, ?_⟩
    · rw [hbad.classifyStatus_eq]
      rfl
    · intro asked hcarries scope backoff planned hplanned
      by_cases hwell : status.Malformed proto
      · rw [hwell.classifyStatus_eq] at hplanned
        cases hplanned
      · rcases h with hevidence | hbad | hzero
        · exact asked_le_of_retry (classifyStatus_of_delay scope hevidence (hcarries.details_eq hwell)) hplanned
        · exact absurd hbad hwell
        · rw [hzero asked hcarries]
          exact Nat.zero_le _

def thirtySeconds : Any := ⟨retryInfoUrl, [0x0a, 0x02, 0x08, 0x1e]⟩

/-- The bytes of code 14 with `thirtySeconds` as the only detail. -/
def unavailableBytes : List UInt8 :=
  [0x08, 0x0e, 0x1a, 0x30, 0x0a, 0x28] ++ Text.utf8 retryInfoUrl.toList ++ [0x12, 0x04, 0x0a, 0x02, 0x08, 0x1e]

def sampleProto : ProtoCrate where
  rpcStatus bytes := if bytes = unavailableBytes then some ⟨14, [thirtySeconds]⟩ else none
  retryInfo bytes := if bytes = thirtySeconds.value then some ⟨some ⟨30, 0⟩⟩ else none
  storageError _ := none

/-- The server was about to be reached again in thirty seconds when the
connection was closed. -/
def closedUnavailable : GrpcStatus := ⟨.unavailable, unavailableBytes, [.other, .hyper true false]⟩

theorem closedUnavailable_carries : closedUnavailable.Carries sampleProto (secs 30) := by
  have henvelope : closedUnavailable.envelope sampleProto = some ⟨14, [thirtySeconds]⟩ := by decide +kernel
  have hdelay : thirtySeconds.retryDelay sampleProto = some (secs 30) := by decide +kernel
  exact ⟨_, thirtySeconds, henvelope, List.mem_cons_self, hdelay⟩

/-- The retry does not wait for the thirty seconds the details ask for. -/
theorem closed_retry_early :
    ¬ SoundClassification sampleProto closedUnavailable ∧
      (classifyStatus sampleProto .readRows closedUnavailable).delay (millis 100) = some (.backoff (millis 100)) := by
  have hdetails : StatusDetails.parse sampleProto closedUnavailable = .ok ⟨some (secs 30), none⟩ := by
    decide +kernel
  have hdecision : classifyStatus sampleProto .readRows closedUnavailable =
      .retry .readRows (.transport .channelClosed) none := by
    rw [classifyStatus, GrpcStatus.parsed, hdetails]
    rfl
  have hdelay : (classifyStatus sampleProto .readRows closedUnavailable).delay (millis 100) =
      some (.backoff (millis 100)) := by
    rw [hdecision]
    rfl
  exact ⟨fun h => absurd (h.delay _ closedUnavailable_carries _ _ _ hdelay) (by decide), hdelay⟩

end SilkChiffon.BigQuery
