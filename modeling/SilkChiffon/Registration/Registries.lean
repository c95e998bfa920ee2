import SilkChiffon.Lib.KeyClaims
import SilkChiffon.Registration.CommandKeys
import SilkChiffon.Storage.Location

/-!
# Registries of definitions

Formats, storage backends and services are defined on their own and checked
when they are put together. A registry carries what its checks ensure.
-/

namespace SilkChiffon.Registration

open Storage (StorageDirection)
open Text (Mentions mentions_self mentions_intercalate)

variable (debug : String → String)

def debugList (texts : List String) : String := "[" ++ ", ".intercalate (texts.map debug) ++ "]"

theorem mentions_debugList (h : text ∈ texts.map debug) : Mentions (debugList debug texts) text :=
  ((mentions_intercalate h _).prepend _).append _

-- ---------------------------------------------------------------------------
-- Formats
-- ---------------------------------------------------------------------------

structure FormatDefinition where
  name : String
  aliases : List String
  extensions : List String
  detectionPriority : Nat
  hasDetector : Bool
  /-- The arguments of its transform definition. -/
  transform : Option Command

inductive FormatRegistryError
  | duplicateName (name : String) (formats : List String)
  | duplicateExtension (extension : String) (formats : List String)
  | duplicateCliArgument (argument : String) (formats : List String)
  deriving DecidableEq, Repr

def FormatRegistryError.display : FormatRegistryError → String
  | duplicateName name formats => s!"duplicate format name {name}: {debugList debug formats}"
  | duplicateExtension extension formats =>
    s!"duplicate format extension {extension}: {debugList debug formats}"
  | duplicateCliArgument argument formats =>
    s!"duplicate format CLI argument {argument}: {debugList debug formats}"

def FormatRegistryError.mentioned : FormatRegistryError → List String
  | duplicateName key formats | duplicateExtension key formats | duplicateCliArgument key formats =>
    key :: formats.map debug

theorem FormatRegistryError.display_mentions (error : FormatRegistryError) :
    ∀ text ∈ error.mentioned debug, Mentions (error.display debug) text := by
  cases error with
  | duplicateName key formats | duplicateExtension key formats | duplicateCliArgument key formats =>
    rw [mentioned, List.forall_mem_cons]
    exact ⟨(((mentions_self key).prepend _).append _).append _, fun _ h =>
      (mentions_debugList debug h).prepend _⟩

def toAsciiLowercase (text : String) : String := String.ofList (text.toList.map Char.toLower)

/-- What the format registry takes for an argument's keys. -/
def Argument.registryKeys (a : Argument) : List String :=
  s!"id:{a.id}" :: ((a.long.toList.map fun long => s!"long:{long}") ++
    a.short.toList.map fun short => s!"short:{short}")

def argumentKeys (command : Command) : List (String × String) :=
  command.arguments.flatMap fun a => a.registryKeys.map fun key => (key, a.id)

namespace FormatDefinition

def names (format : FormatDefinition) : List String :=
  (format.name :: format.aliases).map toAsciiLowercase

def canonicalExtension (extension : String) : String :=
  toAsciiLowercase (String.ofList (extension.toList.dropWhile (· = '.')))

def argumentClaims (format : FormatDefinition) : List (String × String × String) :=
  (format.transform.toList.flatMap argumentKeys).map fun (key, argument) => (key, argument, format.name)

end FormatDefinition

def detectionOrder (formats : List FormatDefinition) : List Nat :=
  let detectors := formats.zipIdx.filter (·.1.hasDetector)
  let before (a b : FormatDefinition × Nat) : Bool :=
    a.1.detectionPriority < b.1.detectionPriority ||
      (a.1.detectionPriority = b.1.detectionPriority && a.2 ≤ b.2)
  (detectors.mergeSort before).map (·.2)

structure FormatRegistry where
  formats : List FormatDefinition
  names : List (String × Nat)
  extensions : List (String × Nat)
  detectionOrder : List Nat
  argumentKeys_nodup : ((formats.flatMap FormatDefinition.argumentClaims).map (·.1)).Nodup

open KeyClaims (conflict sorted inOrder latest) in
def FormatRegistry.fromFormats (formats : List FormatDefinition) :
    Except FormatRegistryError FormatRegistry :=
  let nameClaims := formats.flatMap fun format => format.names.map fun name => (name, format.name)
  let extensionClaims := formats.flatMap fun format =>
    (format.extensions.map FormatDefinition.canonicalExtension).map fun extension => (extension, format.name)
  let argumentClaims := formats.flatMap FormatDefinition.argumentClaims
  match conflict (sorted nameClaims) nameClaims with
  | some (name, formats) => .error (.duplicateName name formats)
  | none =>
    match conflict (sorted extensionClaims) extensionClaims with
    | some (extension, formats) => .error (.duplicateExtension extension formats)
    | none =>
      match harguments : conflict (sorted argumentClaims) argumentClaims with
      | some (_, claimants) =>
        .error (.duplicateCliArgument ((claimants.head?.map (·.1)).getD "") (claimants.map (·.2)))
      | none =>
        .ok {
          formats
          names := formats.zipIdx.flatMap fun (format, i) => format.names.map (·, i)
          extensions := formats.zipIdx.flatMap fun (format, i) =>
            (format.extensions.map FormatDefinition.canonicalExtension).map (·, i)
          detectionOrder := Registration.detectionOrder formats
          argumentKeys_nodup := KeyClaims.sorted_eq_none.mp harguments }

theorem exists_fromFormats {formats : List FormatDefinition} (hnames : (formats.flatMap (·.names)).Nodup)
    (hextensions : (formats.flatMap (·.extensions.map FormatDefinition.canonicalExtension)).Nodup)
    (harguments : ((formats.flatMap FormatDefinition.argumentClaims).map (·.1)).Nodup) :
    ∃ registry, FormatRegistry.fromFormats formats = .ok registry ∧ registry.formats = formats := by
  let nameClaims := formats.flatMap fun format => format.names.map fun name => (name, format.name)
  let extensionClaims := formats.flatMap fun format =>
    (format.extensions.map FormatDefinition.canonicalExtension).map fun extension => (extension, format.name)
  have hname : KeyClaims.conflict (KeyClaims.sorted nameClaims) nameClaims = none :=
    KeyClaims.sorted_eq_none.mpr (by simpa [nameClaims, List.map_flatMap, Function.comp_def] using hnames)
  have hextension : KeyClaims.conflict (KeyClaims.sorted extensionClaims) extensionClaims = none :=
    KeyClaims.sorted_eq_none.mpr (by simpa [extensionClaims, List.map_flatMap, Function.comp_def] using hextensions)
  unfold FormatRegistry.fromFormats
  simp only
  rw [hname, hextension]
  simp only
  split
  · rename_i hsome
    rw [KeyClaims.sorted_eq_none.mpr harguments] at hsome
    cases hsome
  · exact ⟨_, rfl, rfl⟩

def FormatRegistry.transforms (registry : FormatRegistry) : List Command :=
  registry.formats.filterMap (·.transform)

def FormatRegistry.augmentTransformArgs (registry : FormatRegistry) (command : Command) : Command :=
  registry.transforms.foldl Command.augment command

-- ---------------------------------------------------------------------------
-- Names and schemes
-- ---------------------------------------------------------------------------

def isLowerOrDigit (c : Char) : Bool := c.isLower || c.isDigit

def validName (name : String) : Bool :=
  match name.toList with
  | [] => false
  | first :: rest => first.isLower && rest.all fun c => isLowerOrDigit c || c = '-'

def validScheme (scheme : String) : Bool :=
  match scheme.toList with
  | [] => false
  | first :: rest => first.isLower && rest.all fun c => isLowerOrDigit c || ['+', '-', '.'].contains c

/-- The loop over a definition's schemes, which have to be valid and new. -/
def validateSchemes (invalid duplicate : String → ε) (seen : List String) : List String → Except ε Unit
  | [] => .ok ()
  | scheme :: schemes =>
    if !validScheme scheme then .error (invalid scheme)
    else if scheme ∈ seen then .error (duplicate scheme)
    else validateSchemes invalid duplicate (scheme :: seen) schemes

theorem validateSchemes_ok {schemes : List String} {invalid duplicate : String → ε}
    (h : validateSchemes invalid duplicate seen schemes = .ok ()) :
    schemes.Nodup ∧ schemes.Disjoint seen := by
  induction schemes generalizing seen with
  | nil => exact ⟨List.nodup_nil, List.disjoint_nil_left _⟩
  | cons scheme schemes ih =>
    unfold validateSchemes at h
    split at h
    · cases h
    split at h
    · cases h
    rename_i hnew
    obtain ⟨hnodup, hdisjoint⟩ := ih h
    have hscheme : scheme ∉ schemes := fun hmem => hdisjoint hmem List.mem_cons_self
    refine ⟨List.nodup_cons.mpr ⟨hscheme, hnodup⟩, ?_⟩
    rw [List.disjoint_cons_left]
    exact ⟨hnew, (List.disjoint_cons_right.mp hdisjoint).2⟩

-- ---------------------------------------------------------------------------
-- Storage backends
-- ---------------------------------------------------------------------------

inductive StorageAccess
  | readOnly | writeOnly | readWrite
  deriving DecidableEq, Repr

def StorageAccess.supports : StorageAccess → StorageDirection → Bool
  | readOnly, .input | readWrite, .input | writeOnly, .output | readWrite, .output => true
  | _, _ => false

structure StorageBackend where
  name : String
  schemes : List String
  access : StorageAccess
  claimsBareLocations : Bool
  usesSharedRetries : Bool
  args : Command
  schemes_nodup : schemes.Nodup
  args_nodup : args.cliKeys.Nodup

structure StorageBackendBuilder where
  name : Option String
  schemes : List String
  access : Option StorageAccess
  hasBareLocationMapper : Bool
  hasBarePatternMapper : Bool
  hasLocationValidator : Bool
  hasObjectStoreCreator : Bool
  usesSharedRetries : Bool
  args : Command

inductive StorageBackendBuildError
  | missingName
  | invalidName (name : String)
  | missingSchemes
  | invalidScheme (scheme : String)
  | duplicateScheme (scheme : String)
  | duplicateCliArgument (argument : CliKey)
  | missingAccess
  | missingLocationValidator
  | barePatternMapperWithoutBareLocationMapper
  | missingObjectStoreCreator
  deriving DecidableEq, Repr

def StorageBackendBuildError.display : StorageBackendBuildError → String
  | missingName => "storage backend name is required"
  | invalidName name => s!"invalid storage backend name: {name}"
  | missingSchemes => "storage backend must claim at least one URL scheme"
  | invalidScheme scheme => s!"invalid storage backend URL scheme: {scheme}"
  | duplicateScheme scheme => s!"duplicate storage backend URL scheme: {scheme}"
  | duplicateCliArgument argument =>
    s!"storage backend defines CLI argument more than once: {argument.display debug}"
  | missingAccess => "storage backend access is required"
  | missingLocationValidator => "storage backend location validator is required"
  | barePatternMapperWithoutBareLocationMapper =>
    "storage backend cannot map bare patterns without mapping bare locations"
  | missingObjectStoreCreator => "storage backend object-store creator is required"

def StorageBackendBuildError.mentioned : StorageBackendBuildError → Option String
  | invalidName text | invalidScheme text | duplicateScheme text => some text
  | duplicateCliArgument argument => some (argument.display debug)
  | missingName | missingSchemes | missingAccess | missingLocationValidator
  | barePatternMapperWithoutBareLocationMapper | missingObjectStoreCreator => none

theorem StorageBackendBuildError.display_mentions (error : StorageBackendBuildError) :
    ∀ text ∈ error.mentioned debug, Mentions (error.display debug) text := by
  intro text htext
  cases error with
  | invalidName _ | invalidScheme _ | duplicateScheme _ | duplicateCliArgument _ =>
    obtain rfl := Option.some.inj htext
    exact (mentions_self _).prepend _
  | _ => cases htext

def repeatedKey (seen : List CliKey) : List CliKey → Option CliKey
  | [] => none
  | key :: keys => if key ∈ seen then some key else repeatedKey (key :: seen) keys

theorem repeatedKey_none {keys : List CliKey} (h : repeatedKey seen keys = none) :
    keys.Nodup ∧ keys.Disjoint seen := by
  induction keys generalizing seen with
  | nil => exact ⟨List.nodup_nil, List.disjoint_nil_left _⟩
  | cons key keys ih =>
    unfold repeatedKey at h
    split at h
    · cases h
    rename_i hnew
    obtain ⟨hnodup, hdisjoint⟩ := ih h
    have hkey : key ∉ keys := fun hmem => hdisjoint hmem List.mem_cons_self
    refine ⟨List.nodup_cons.mpr ⟨hkey, hnodup⟩, ?_⟩
    rw [List.disjoint_cons_left]
    exact ⟨hnew, (List.disjoint_cons_right.mp hdisjoint).2⟩

def StorageBackendBuilder.build (builder : StorageBackendBuilder) :
    Except StorageBackendBuildError StorageBackend :=
  match builder.name with
  | none => .error .missingName
  | some name =>
    if !validName name then .error (.invalidName name)
    else if builder.schemes = [] then .error .missingSchemes
    else
      match hschemes : validateSchemes StorageBackendBuildError.invalidScheme .duplicateScheme []
          builder.schemes with
      | .error e => .error e
      | .ok () =>
        match hkeys : repeatedKey [] builder.args.cliKeys with
        | some key => .error (.duplicateCliArgument key)
        | none =>
          match builder.access with
          | none => .error .missingAccess
          | some access =>
            if builder.hasBarePatternMapper && !builder.hasBareLocationMapper then
              .error .barePatternMapperWithoutBareLocationMapper
            else if !builder.hasLocationValidator then .error .missingLocationValidator
            else if !builder.hasObjectStoreCreator then .error .missingObjectStoreCreator
            else
              .ok {
                name
                schemes := builder.schemes
                access
                claimsBareLocations := builder.hasBareLocationMapper
                usesSharedRetries := builder.usesSharedRetries
                args := builder.args
                schemes_nodup := (validateSchemes_ok hschemes).1
                args_nodup := (repeatedKey_none hkeys).1 }

-- ---------------------------------------------------------------------------
-- The storage registry
-- ---------------------------------------------------------------------------

def Argument.named (id long : String) : Argument := ⟨id, some long, [], none, []⟩

def objectUploadArgs : Command where
  arguments := [
    .named "part_size" "object-store-upload-part-size",
    .named "max_in_flight_parts" "object-store-max-in-flight-parts"]
  groups := ["ObjectUploadArgs"]

def retryArgs : Command where
  arguments := [
    .named "max_retries" "storage-max-retries",
    .named "retry_timeout" "storage-retry-timeout",
    .named "initial_backoff" "storage-initial-backoff",
    .named "max_backoff" "storage-max-backoff",
    .named "backoff_base" "storage-backoff-base"]
  groups := ["RetryArgs"]

inductive StorageRegistryError
  | duplicateBackendName (name : String) (occurrences : Nat)
  | duplicateScheme (scheme : String) (backends : List String)
  | duplicateCliArgument (argument : CliKey) (contributors : List String)
  | multipleBareLocationBackends (backends : List String)
  deriving DecidableEq, Repr

def StorageRegistryError.display : StorageRegistryError → String
  | duplicateBackendName name occurrences =>
    s!"storage backend name {debug name} is registered {occurrences} times"
  | duplicateScheme scheme backends =>
    s!"storage URL scheme {debug scheme} is claimed by multiple backends: " ++ ", ".intercalate backends
  | duplicateCliArgument argument contributors =>
    s!"multiple storage CLI contributors define {argument.display debug}: " ++
      ", ".intercalate contributors
  | multipleBareLocationBackends backends =>
    "multiple storage backends claim bare locations: " ++ ", ".intercalate backends

def StorageRegistryError.mentioned : StorageRegistryError → List String
  | duplicateBackendName name occurrences => [debug name, toString occurrences]
  | duplicateScheme scheme backends => debug scheme :: backends
  | duplicateCliArgument argument contributors => argument.display debug :: contributors
  | multipleBareLocationBackends backends => backends

theorem StorageRegistryError.display_mentions (error : StorageRegistryError) :
    ∀ text ∈ error.mentioned debug, Mentions (error.display debug) text := by
  cases error with
  | duplicateBackendName name occurrences =>
    rw [mentioned, List.forall_mem_cons, List.forall_mem_singleton]
    exact ⟨((((mentions_self _).prepend _).append _).append _).append _,
      ((mentions_self _).prepend _).append _⟩
  | duplicateScheme _ _ | duplicateCliArgument _ _ =>
    rw [mentioned, List.forall_mem_cons]
    exact ⟨(((mentions_self _).prepend _).append _).append _, fun _ h =>
      (mentions_intercalate h _).prepend _⟩
  | multipleBareLocationBackends backends => exact fun _ h => (mentions_intercalate h _).prepend _

def schemeClaims (backends : List StorageBackend) : List (String × String) :=
  backends.flatMap fun backend => backend.schemes.map (·, backend.name)

def usesSharedRetries (backends : List StorageBackend) : Bool := backends.any (·.usesSharedRetries)

/-- Who adds arguments to a command with storage: shared arguments first. -/
def contributors (retries : Bool) (backends : List StorageBackend) : List (String × Command) :=
  ("shared object uploads", objectUploadArgs) ::
    (if retries then [("shared storage retries", retryArgs)] else []) ++
    backends.map fun backend => (backend.name, backend.args)

def cliClaims (contributors : List (String × Command)) : List (CliKey × String) :=
  contributors.flatMap fun (name, args) => args.cliKeys.map (·, name)

structure StorageRegistry where
  backends : List StorageBackend
  backendIndexByScheme : List (String × Nat)
  bareLocationBackendIndex : Option Nat
  usesSharedRetries : Bool
  indexed : backendIndexByScheme = backends.zipIdx.flatMap fun (backend, i) => backend.schemes.map (·, i)
  schemes_nodup : ((schemeClaims backends).map (·.1)).Nodup
  cliKeys_nodup : ((cliClaims (contributors usesSharedRetries backends)).map (·.1)).Nodup

open KeyClaims (conflict inOrder) in
def StorageRegistry.fromBackends (backends : List StorageBackend) :
    Except StorageRegistryError StorageRegistry :=
  let nameClaims := backends.map fun backend => (backend.name, ())
  match conflict (inOrder nameClaims) nameClaims with
  | some (name, occurrences) => .error (.duplicateBackendName name occurrences.length)
  | none =>
    match hschemes : conflict (inOrder (schemeClaims backends)) (schemeClaims backends) with
    | some (scheme, backends) => .error (.duplicateScheme scheme backends)
    | none =>
      let claims := cliClaims (contributors (Registration.usesSharedRetries backends) backends)
      match hkeys : conflict (inOrder claims) claims with
      | some (key, contributors) => .error (.duplicateCliArgument key contributors)
      | none =>
        let bare := backends.filter (·.claimsBareLocations)
        if 1 < bare.length then .error (.multipleBareLocationBackends (bare.map (·.name)))
        else
          .ok {
            backends
            backendIndexByScheme := backends.zipIdx.flatMap fun (backend, i) => backend.schemes.map (·, i)
            bareLocationBackendIndex :=
              (backends.zipIdx.filter (·.1.claimsBareLocations)).getLast?.map (·.2)
            usesSharedRetries := Registration.usesSharedRetries backends
            indexed := rfl
            schemes_nodup := KeyClaims.inOrder_eq_none.mp hschemes
            cliKeys_nodup := KeyClaims.inOrder_eq_none.mp hkeys }

def StorageRegistry.augmentArgs (registry : StorageRegistry) (command : Command) : Command :=
  ((contributors registry.usesSharedRetries registry.backends).map (·.2)).foldl Command.augment command

def StorageRegistry.byScheme (registry : StorageRegistry) (scheme : String) : Option StorageBackend :=
  (KeyClaims.latest registry.backendIndexByScheme scheme).bind (registry.backends[·]?)

-- ---------------------------------------------------------------------------
-- Services
-- ---------------------------------------------------------------------------

structure ServiceDefinition where
  name : String
  schemes : List String
  args : Command
  schemes_nodup : schemes.Nodup

abbrev ServiceInputDefinition := ServiceDefinition

abbrev ServiceOutputDefinition := ServiceDefinition

structure ServiceDefinitionBuilder where
  name : Option String
  schemes : List String
  args : Command

inductive ServiceDefinitionBuildError
  | missingName
  | invalidName (name : String)
  | missingSchemes
  | invalidScheme (scheme : String)
  | duplicateScheme (scheme : String)
  deriving DecidableEq, Repr

def ServiceDefinitionBuildError.display (direction : StorageDirection) : ServiceDefinitionBuildError → String
  | missingName => s!"service {direction.display} definition requires a name"
  | invalidName name => s!"invalid service {direction.display} name {debug name}"
  | missingSchemes => s!"service {direction.display} definition requires at least one scheme"
  | invalidScheme scheme => s!"invalid service {direction.display} scheme {debug scheme}"
  | duplicateScheme scheme => s!"duplicate service {direction.display} scheme {debug scheme}"

def ServiceDefinitionBuildError.mentioned : ServiceDefinitionBuildError → Option String
  | invalidName text | invalidScheme text | duplicateScheme text => some (debug text)
  | missingName | missingSchemes => none

theorem ServiceDefinitionBuildError.display_mentions (direction : StorageDirection)
    (error : ServiceDefinitionBuildError) : Mentions (error.display debug direction) direction.display ∧
      ∀ text ∈ error.mentioned debug, Mentions (error.display debug direction) text := by
  cases error with
  | invalidName _ | invalidScheme _ | duplicateScheme _ =>
    refine ⟨(((mentions_self _).prepend _).append _).append _, fun text htext => ?_⟩
    obtain rfl := Option.some.inj htext
    exact (mentions_self _).prepend _
  | missingName | missingSchemes =>
    exact ⟨((mentions_self _).prepend _).append _, fun _ htext => by cases htext⟩

def ServiceDefinitionBuilder.build (builder : ServiceDefinitionBuilder) :
    Except ServiceDefinitionBuildError ServiceDefinition :=
  match builder.name with
  | none => .error .missingName
  | some name =>
    if !validName name then .error (.invalidName name)
    else if builder.schemes = [] then .error .missingSchemes
    else
      match hschemes : validateSchemes ServiceDefinitionBuildError.invalidScheme .duplicateScheme []
          builder.schemes with
      | .error e => .error e
      | .ok () =>
        .ok {
          name
          schemes := builder.schemes
          args := builder.args
          schemes_nodup := (validateSchemes_ok hschemes).1 }

end SilkChiffon.Registration
