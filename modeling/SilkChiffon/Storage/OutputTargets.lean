import SilkChiffon.Storage.Location

/-!
# Claiming output targets

Any number of calls prepare output targets of one session, and their steps
interleave as the executor likes. A call resolves its location, claims the
target under the session's lock, then checks for an existing object and lets
the backend prepare; it may be dropped where it waits.
-/

namespace SilkChiffon.Storage

-- ---------------------------------------------------------------------------
-- Handles
-- ---------------------------------------------------------------------------

structure BackendBinding (U : Type) where
  name : String
  supports : StorageDirection → Bool
  mapBareLocation : Option (String → Except String (Location U))
  validateLocation : Location U → Except String Unit

/-- The routes of a session lead to its backends, and bare locations to one
that maps them. -/
structure StorageSession (U P : Type) where
  crate : UrlCrate U
  /-- `object_store`'s path of a percent-encoded URL path. -/
  fromUrlPath : String → Except String P
  backends : List (BackendBinding U)
  backendIndexByScheme : String → Option (Fin backends.length)
  bareLocationBackendIndex : Option { i : Fin backends.length // (backends.get i).mapBareLocation.isSome }

structure OutputTargetIdentity (U P : Type) where
  storeUrl : U
  objectPath : P
  deriving DecidableEq

structure OutputTarget (U P : Type) where
  url : U
  storeUrl : U
  objectPath : P
  deriving DecidableEq

def OutputTarget.identity (target : OutputTarget U P) : OutputTargetIdentity U P :=
  ⟨target.storeUrl, target.objectPath⟩

namespace StorageSession

variable (session : StorageSession U P)

def backend (i : Fin session.backends.length) : BackendBinding U := session.backends.get i

def storeUrl (url : U) : U :=
  session.crate.clearFragment (session.crate.clearQuery (session.crate.setRootPath url))

def backendIndex : LocationInput U → Except (StorageError U) (Fin session.backends.length)
  | .url location =>
    match session.backendIndexByScheme (session.crate.scheme location.url) with
    | some i => .ok i
    | none => .error (.unsupportedScheme (session.crate.scheme location.url))
  | .bare text =>
    match session.bareLocationBackendIndex with
    | some i => .ok i.1
    | none => .error (.unsupportedBareLocation text)

def mapLocation (i : Fin session.backends.length) : LocationInput U → Except (StorageError U) (Location U)
  | .url location => .ok location
  | .bare text =>
    match (session.backend i).mapBareLocation with
    | some mapper => (mapper text).mapError (.bareLocationMapping (session.backend i).name text)
    | none => .error (.unsupportedBareLocation text)

def locate (input : LocationInput U) (direction : StorageDirection) :
    Except (StorageError U) (Location U × Fin session.backends.length) := do
  let i ← session.backendIndex input
  if !(session.backend i).supports direction then
    throw (.directionUnsupported (session.backend i).name direction)
  let location ← session.mapLocation i input
  if session.backendIndexByScheme (session.crate.scheme location.url) ≠ some i then
    throw (.bareLocationSchemeMismatch (session.backend i).name (session.crate.scheme location.url))
  return (location, i)

/-- The handle of a location, but for the store's client. -/
def handleForLocation (location : Location U) (i : Fin session.backends.length)
    (direction : StorageDirection) : Except (StorageError U) (OutputTarget U P) := do
  if !(session.backend i).supports direction then
    throw (.directionUnsupported (session.backend i).name direction)
  ((session.backend i).validateLocation location).mapError
    (.locationValidation (session.backend i).name location.url)
  let objectPath ← (session.fromUrlPath (session.crate.path location.url)).mapError
    (.invalidObjectPath location.url)
  return ⟨location.url, session.storeUrl location.url, objectPath⟩

def cacheObjectStore [DecidableEq U] (cache : List U) (i : Fin session.backends.length) (storeUrl : U)
    (creation : Except String Unit) : Except (StorageError U) (List U) :=
  if storeUrl ∈ cache then .ok cache
  else
    (creation.map fun _ => storeUrl :: cache).mapError
      (.objectStoreCreation (session.backend i).name storeUrl)

def createHandle [DecidableEq U] (cache : List U) (creation : Except String Unit)
    (input : LocationInput U) (direction : StorageDirection) :
    Except (StorageError U) (OutputTarget U P × List U) := do
  let (location, i) ← session.locate input direction
  let target ← session.handleForLocation location i direction
  let cache ← session.cacheObjectStore cache i target.storeUrl creation
  return (target, cache)

def prepared (target : OutputTarget U P) (answer : Except String Unit) :
    Except (StorageError U) (OutputTarget U P) :=
  match session.backendIndexByScheme (session.crate.scheme target.url) with
  | none => .error (.unsupportedScheme (session.crate.scheme target.url))
  | some i =>
    (answer.map fun _ => target).mapError (.outputTargetPreparation (session.backend i).name target.url)

end StorageSession

/-- The target an input stands for, whatever the cache holds. -/
def StorageSession.target (session : StorageSession U P) (input : LocationInput U) :
    Except (StorageError U) (OutputTarget U P) := do
  let (location, i) ← session.locate input .output
  session.handleForLocation location i .output

theorem handleForLocation_ok {session : StorageSession U P} {i : Fin session.backends.length}
    {location : Location U}
    (h : session.handleForLocation location i direction = .ok target) :
    target.storeUrl = session.storeUrl location.url ∧
      session.fromUrlPath (session.crate.path location.url) = .ok target.objectPath := by
  unfold StorageSession.handleForLocation at h
  simp only [Lists.ite_throw_ok, Lists.bind_eq_ok] at h
  obtain ⟨_, _, _, objectPath, hpath, h⟩ := h
  obtain rfl := Except.ok.inj h
  exact ⟨rfl, Lists.mapError_eq_ok.mp hpath⟩

theorem target_ok {session : StorageSession U P} {input : LocationInput U} (h : session.target input = .ok target) :
    ∃ i location, session.mapLocation i input = .ok location ∧
      session.fromUrlPath (session.crate.path location.url) = .ok target.objectPath := by
  obtain ⟨⟨location, i⟩, hlocate, htarget⟩ := Lists.bind_eq_ok.mp h
  unfold StorageSession.locate at hlocate
  simp only [Lists.ite_throw_ok, Lists.bind_eq_ok] at hlocate
  obtain ⟨j, _, _, location', hlocation, _, h⟩ := hlocate
  obtain ⟨rfl, rfl⟩ := Prod.mk.inj (Except.ok.inj h)
  exact ⟨j, location', hlocation, (handleForLocation_ok htarget).2⟩

-- ---------------------------------------------------------------------------
-- What a session relies on
-- ---------------------------------------------------------------------------

def stripSlashes (path : Bytes) : Bytes :=
  let path := if path.head? = some 47 then path.tail else path
  if path.getLast? = some 47 then path.dropLast else path

/-- An object path tells what its URL path decodes to, but for the slashes at
the ends. -/
def StorageSession.ReadsPaths (session : StorageSession U P) : Prop :=
  ∀ path path' objectPath, session.fromUrlPath path = .ok objectPath →
    session.fromUrlPath path' = .ok objectPath →
    stripSlashes (Percent.decode (asBytes path)) = stripSlashes (Percent.decode (asBytes path'))

def StorageSession.MapsPaths (session : StorageSession U P) (currentDir : List Char) : Prop :=
  ∀ i mapper, (session.backend i).mapBareLocation = some mapper →
    mapper = mapBareLocation session.crate currentDir

theorem stripSlashes_cons (h : path.getLast? ≠ some 47) : stripSlashes (47 :: path) = path := by
  simp [stripSlashes, h]

-- ---------------------------------------------------------------------------
-- Calls
-- ---------------------------------------------------------------------------

inductive ExistingOutput
  | allow | rejectIfObserved
  deriving DecidableEq, Repr

structure PrepareCall (U : Type) where
  input : LocationInput U
  existingOutput : ExistingOutput

inductive CallState (U P : Type)
  | waiting
  | resolved (target : OutputTarget U P)
  | claimed (target : OutputTarget U P)
  | checked (target : OutputTarget U P)
  | done (result : Except (StorageError U) (OutputTarget U P))
  | dropped

inductive Observation
  | found | notFound
  | failed (source : String)
  deriving DecidableEq, Repr

def observed (target : OutputTarget U P) : Observation → CallState U P
  | .found => .done (.error (.outputTargetAlreadyExists target.url))
  | .notFound => .checked target
  | .failed source => .done (.error (.objectStore source))

abbrev CallId := Nat

inductive TargetEvent (U P : Type)
  | claimed (call : CallId) (target : OutputTargetIdentity U P)
  | rejected (call : CallId) (target : OutputTargetIdentity U P)
  | headed (call : CallId) (target : OutputTargetIdentity U P)
  | prepared (call : CallId) (target : OutputTargetIdentity U P)
  deriving DecidableEq

structure ClaimState (U P : Type) where
  objectStoreCache : List U
  claimedOutputTargets : List (OutputTargetIdentity U P)
  calls : CallId → CallState U P
  log : List (TargetEvent U P)

namespace ClaimState

def initial : ClaimState U P := ⟨[], [], fun _ => .waiting, []⟩

def setCall (s : ClaimState U P) (i : CallId) (call : CallState U P) : ClaimState U P :=
  { s with calls := Function.update s.calls i call }

def note (s : ClaimState U P) (e : TargetEvent U P) : ClaimState U P := { s with log := s.log ++ [e] }

@[simp] theorem setCall_log (s : ClaimState U P) : (s.setCall i call).log = s.log := rfl

@[simp] theorem setCall_claimedOutputTargets (s : ClaimState U P) :
    (s.setCall i call).claimedOutputTargets = s.claimedOutputTargets := rfl

@[simp] theorem setCall_calls (s : ClaimState U P) :
    (s.setCall i call).calls = Function.update s.calls i call := rfl

@[simp] theorem note_log (s : ClaimState U P) : (s.note e).log = s.log ++ [e] := rfl

@[simp] theorem note_claimedOutputTargets (s : ClaimState U P) :
    (s.note e).claimedOutputTargets = s.claimedOutputTargets := rfl

@[simp] theorem note_calls (s : ClaimState U P) : (s.note e).calls = s.calls := rfl

end ClaimState

/-- A step of one call. Client creation, the store and the backend answer as
they like. -/
inductive ClaimStep [DecidableEq U] (session : StorageSession U P) (calls : CallId → PrepareCall U) :
    ClaimState U P → ClaimState U P → Prop
  | unresolved {i : CallId} (hcall : s.calls i = .waiting)
      (h : session.createHandle s.objectStoreCache creation (calls i).input .output = .error e) :
      ClaimStep session calls s (s.setCall i (.done (.error e)))
  | resolve {i : CallId} {target : OutputTarget U P} (hcall : s.calls i = .waiting)
      (h : session.createHandle s.objectStoreCache creation (calls i).input .output = .ok (target, cache)) :
      ClaimStep session calls s ({ s with objectStoreCache := cache }.setCall i (.resolved target))
  | claim {i : CallId} {target : OutputTarget U P} (hcall : s.calls i = .resolved target)
      (h : target.identity ∉ s.claimedOutputTargets) :
      ClaimStep session calls s
        (({ s with claimedOutputTargets := target.identity :: s.claimedOutputTargets }.setCall i
          (.claimed target)).note (.claimed i target.identity))
  | reject {i : CallId} {target : OutputTarget U P} (hcall : s.calls i = .resolved target)
      (h : target.identity ∈ s.claimedOutputTargets) :
      ClaimStep session calls s
        ((s.setCall i (.done (.error (.outputTargetAlreadyClaimed target.url)))).note
          (.rejected i target.identity))
  | head {i : CallId} {target : OutputTarget U P} (answer : Observation)
      (hcall : s.calls i = .claimed target)
      (h : (calls i).existingOutput = .rejectIfObserved) :
      ClaimStep session calls s
        ((s.setCall i (observed target answer)).note (.headed i target.identity))
  | skipHead {i : CallId} {target : OutputTarget U P} (hcall : s.calls i = .claimed target)
      (h : (calls i).existingOutput ≠ .rejectIfObserved) :
      ClaimStep session calls s (s.setCall i (.checked target))
  | prepare {i : CallId} {target : OutputTarget U P} (answer : Except String Unit)
      (hcall : s.calls i = .checked target) :
      ClaimStep session calls s
        ((s.setCall i (.done (session.prepared target answer))).note (.prepared i target.identity))
  | drop {i : CallId} {target : OutputTarget U P} (hcall : s.calls i = .claimed target ∨ s.calls i = .checked target) :
      ClaimStep session calls s (s.setCall i .dropped)

inductive Claims [DecidableEq U] (session : StorageSession U P) (calls : CallId → PrepareCall U) :
    ClaimState U P → Prop
  | initial : Claims session calls .initial
  | step (hs : Claims session calls s) (h : ClaimStep session calls s s') : Claims session calls s'

end SilkChiffon.Storage
