import SilkChiffon.Registration.Registries

/-!
# Application assembly

Formats, storage and services become one application when no two services have
a name, no two routes a scheme, and no two definitions a command-line key. All
formats together are one definition, and so is storage.
-/

namespace SilkChiffon.Registration

open Storage (StorageDirection)
open KeyClaims (conflict sorted latest)
open Text (Mentions mentions_self mentions_intercalate)

variable (debug : String → String)

-- ---------------------------------------------------------------------------
-- Errors
-- ---------------------------------------------------------------------------

structure DefinitionSnapshot where
  position : Nat
  name : String
  schemes : List String
  deriving DecidableEq, Repr

def DefinitionSnapshot.display (snapshot : DefinitionSnapshot) : String :=
  s!"definition #{snapshot.position} {debug snapshot.name} schemes {debugList debug snapshot.schemes}"

inductive ApplicationAssemblyError
  | duplicateServiceInputName (name : String) (definitions : List DefinitionSnapshot)
  | duplicateServiceOutputName (name : String) (definitions : List DefinitionSnapshot)
  | inputSchemeClaimConflict (scheme : String) (claimants : List String)
  | outputSchemeClaimConflict (scheme : String) (claimants : List String)
  | cliKeyClaimConflict (key : String) (claimants : List String)
  deriving DecidableEq, Repr

def ApplicationAssemblyError.display : ApplicationAssemblyError → String
  | duplicateServiceInputName name definitions =>
    s!"duplicate service input name {debug name}: " ++ ", ".intercalate (definitions.map (·.display debug))
  | duplicateServiceOutputName name definitions =>
    s!"duplicate service output name {debug name}: " ++ ", ".intercalate (definitions.map (·.display debug))
  | inputSchemeClaimConflict scheme claimants =>
    s!"input scheme {debug scheme} is claimed by multiple routes: " ++ ", ".intercalate claimants
  | outputSchemeClaimConflict scheme claimants =>
    s!"output scheme {debug scheme} is claimed by multiple routes: " ++ ", ".intercalate claimants
  | cliKeyClaimConflict key claimants =>
    s!"CLI key {debug key} is claimed by multiple definitions: " ++ ", ".intercalate claimants

def ApplicationAssemblyError.mentioned : ApplicationAssemblyError → List String
  | duplicateServiceInputName name definitions | duplicateServiceOutputName name definitions =>
    debug name :: definitions.map (·.display debug)
  | inputSchemeClaimConflict key claimants | outputSchemeClaimConflict key claimants
  | cliKeyClaimConflict key claimants => debug key :: claimants

theorem ApplicationAssemblyError.display_mentions (error : ApplicationAssemblyError) :
    ∀ text ∈ error.mentioned debug, Mentions (error.display debug) text := by
  cases error <;>
    rw [mentioned, List.forall_mem_cons] <;>
    exact ⟨(((mentions_self _).prepend _).append _).append _, fun _ h =>
      (mentions_intercalate h _).prepend _⟩

-- ---------------------------------------------------------------------------
-- Service names
-- ---------------------------------------------------------------------------

def snapshots (definitions : List ServiceDefinition) (name : String) : List DefinitionSnapshot :=
  (definitions.zipIdx.filter (·.1.name = name)).map fun (definition, position) =>
    ⟨position + 1, definition.name, definition.schemes⟩

def validateServiceNames (definitions : List ServiceDefinition) :
    Except (String × List DefinitionSnapshot) Unit :=
  match definitions.find? fun definition => 1 < (snapshots definitions definition.name).length with
  | some definition => .error (definition.name, snapshots definitions definition.name)
  | none => .ok ()

def validateServiceInputNames (definitions : List ServiceInputDefinition) :
    Except ApplicationAssemblyError Unit :=
  (validateServiceNames definitions).mapError fun (name, definitions) =>
    .duplicateServiceInputName name definitions

def validateServiceOutputNames (definitions : List ServiceOutputDefinition) :
    Except ApplicationAssemblyError Unit :=
  (validateServiceNames definitions).mapError fun (name, definitions) =>
    .duplicateServiceOutputName name definitions

-- ---------------------------------------------------------------------------
-- Scheme ownership
-- ---------------------------------------------------------------------------

inductive Claimant
  | backend (position : Nat) (definition : StorageBackend)
  | service (position : Nat) (definition : ServiceDefinition)

/-- Where a location of a scheme goes: to storage, or to a service. -/
inductive SchemeOwner
  | file
  | service (position : Nat)
  deriving DecidableEq, Repr

namespace Claimant

def schemes : Claimant → List String
  | backend _ definition => definition.schemes
  | service _ definition => definition.schemes

def owner : Claimant → SchemeOwner
  | backend .. => .file
  | service position _ => .service position

def display (direction : StorageDirection) : Claimant → String
  | backend _ definition => s!"file {direction.display} storage {debug definition.name}"
  | service position definition =>
    s!"service {direction.display} {debug definition.name} at position {position + 1}"

end Claimant

def schemeClaimants (direction : StorageDirection) (storage : StorageRegistry)
    (services : List ServiceDefinition) : List (String × Claimant) :=
  let backends := storage.backends.zipIdx.filter (·.1.access.supports direction)
  let claimants := (backends.map fun (backend, i) => Claimant.backend i backend) ++
    services.zipIdx.map fun (service, i) => Claimant.service i service
  claimants.flatMap fun claimant => claimant.schemes.map (·, claimant)

abbrev SchemeIndex := List (String × SchemeOwner)

def SchemeIndex.owner (index : SchemeIndex) (scheme : String) : Option SchemeOwner := latest index scheme

def schemeIndex (direction : StorageDirection)
    (claimConflict : String → List String → ApplicationAssemblyError) (storage : StorageRegistry)
    (services : List ServiceDefinition) : Except ApplicationAssemblyError SchemeIndex :=
  let claimants := schemeClaimants direction storage services
  let claims := claimants.map fun (scheme, claimant) => (scheme, claimant.display debug direction)
  match conflict (sorted claims) claims with
  | some (scheme, claimants) => .error (claimConflict scheme claimants)
  | none => .ok (claimants.map fun (scheme, claimant) => (scheme, claimant.owner))

def InputSchemeIndex.new (storage : StorageRegistry) (services : List ServiceInputDefinition) :
    Except ApplicationAssemblyError SchemeIndex :=
  schemeIndex debug .input .inputSchemeClaimConflict storage services

def OutputSchemeIndex.new (storage : StorageRegistry) (services : List ServiceOutputDefinition) :
    Except ApplicationAssemblyError SchemeIndex :=
  schemeIndex debug .output .outputSchemeClaimConflict storage services

-- ---------------------------------------------------------------------------
-- Command-line keys
-- ---------------------------------------------------------------------------

def Argument.plain (id : String) (short : Option Char) : Argument :=
  ⟨id, some (String.ofList (id.toList.map fun c => if c = '_' then '-' else c)), [], short, []⟩

def transformArgs : Command where
  arguments := [
    .plain "from" none, .plain "from_pattern" none, .plain "allow_unmatched_patterns" none,
    .plain "input_format" none, .plain "output_format" none, .plain "to" none, .plain "to_many" none,
    .plain "dialect" (some 'd'), .plain "exclude_columns" (some 'e'), .plain "query" (some 'q'),
    .plain "sort_by" (some 's'), .plain "memory_budget" none, .plain "non_spillable_reserve" none,
    .plain "memory_pool_top_consumers" none, .plain "thread_budget" (some 't'),
    .plain "target_partitions" none, .plain "spill_path" none, .plain "spill_compression" none,
    .plain "preserve_input_order" none, .plain "by" (some 'b'), .plain "partition_strategy" none,
    .plain "max_open_partitions" none, .plain "list_outputs" (some 'l'), .plain "list_outputs_file" none,
    .plain "create_dirs" none, .plain "overwrite" none]
  groups := ["TransformArgs"]

/-- The claims of one definition, which names each of its keys once. -/
def cliKeyClaims (claimant : String) (command : Command) : List (CliKey × String) :=
  command.cliKeys.dedup.map (·, claimant)

def serviceClaimants (direction : StorageDirection) (services : List ServiceDefinition) :
    List (String × Command) :=
  services.zipIdx.map fun (service, i) =>
    (s!"service {direction.display} {debug service.name} at position {i + 1}", service.args)

def cliKeyClaimants (formats : FormatRegistry) (storage : StorageRegistry)
    (serviceInputs : List ServiceInputDefinition) (serviceOutputs : List ServiceOutputDefinition) :
    List (String × Command) :=
  [("application transform arguments", transformArgs),
    ("format definitions", formats.augmentTransformArgs .new),
    ("storage definitions", storage.augmentArgs .new)] ++
  serviceClaimants debug .input serviceInputs ++ serviceClaimants debug .output serviceOutputs

def validateCliKeyClaims (formats : FormatRegistry) (storage : StorageRegistry)
    (serviceInputs : List ServiceInputDefinition) (serviceOutputs : List ServiceOutputDefinition) :
    Except ApplicationAssemblyError Unit :=
  let claims := (cliKeyClaimants debug formats storage serviceInputs serviceOutputs).flatMap
    fun (claimant, command) => cliKeyClaims claimant command
  match conflict (sorted claims) claims with
  | some (key, claimants) => .error (.cliKeyClaimConflict (key.display debug) claimants)
  | none => .ok ()

-- ---------------------------------------------------------------------------
-- The application
-- ---------------------------------------------------------------------------

structure ApplicationDefinition where
  formats : FormatRegistry
  storage : StorageRegistry
  serviceInputs : List ServiceInputDefinition
  serviceOutputs : List ServiceOutputDefinition
  inputSchemes : SchemeIndex
  outputSchemes : SchemeIndex

namespace ApplicationDefinition

def fromParts (formats : FormatRegistry) (storage : StorageRegistry)
    (serviceInputs : List ServiceInputDefinition) (serviceOutputs : List ServiceOutputDefinition) :
    Except ApplicationAssemblyError ApplicationDefinition := do
  validateServiceInputNames serviceInputs
  validateServiceOutputNames serviceOutputs
  let inputSchemes ← InputSchemeIndex.new debug storage serviceInputs
  let outputSchemes ← OutputSchemeIndex.new debug storage serviceOutputs
  validateCliKeyClaims debug formats storage serviceInputs serviceOutputs
  return ⟨formats, storage, serviceInputs, serviceOutputs, inputSchemes, outputSchemes⟩

/-- The arguments of the definitions behind those of the command itself. -/
def augmentTransformCommand (app : ApplicationDefinition) (command : Command) : Command :=
  let command := app.formats.augmentTransformArgs (app.storage.augmentArgs command)
  let command := (app.serviceInputs.map (·.args)).foldl Command.augment command
  (app.serviceOutputs.map (·.args)).foldl Command.augment command

end ApplicationDefinition

end SilkChiffon.Registration
