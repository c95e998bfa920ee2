import SilkChiffon.Cli.SortSpec
import SilkChiffon.FileOutput.Exact
import SilkChiffon.FileOutput.TargetTemplate

/-!
# Binding a partitioned output

A request is checked against the schema and its template before anything is
written: its columns are the schema's, `--by` selects every field that the
template refers to, and a template whose files are numbered has the number in
it. What the engine reports of a template is a parameter.
-/

namespace SilkChiffon.FileOutput

open Arrow
open Cli (isWhitespace)
open ColumnReference (PartitionStrategy)
open SilkChiffon.Lists (trim)
open Storage (UrlCrate)

-- ---------------------------------------------------------------------------
-- The file number of a template
-- ---------------------------------------------------------------------------

def fileNumberName : List Char := "file_number".toList

/-- Whether an occurrence has no other identifier character beside it. The
identifier does not overlap itself. -/
def containsIdentifier (alphanumeric : Char → Bool) (identifier : List Char) : Option Char → List Char → Bool
  | _, [] => false
  | before, c :: rest =>
    let joins : Option Char → Bool := fun beside => beside.any fun c => c = '_' || alphanumeric c
    identifier.isPrefixOf (c :: rest) && !joins before && !joins ((c :: rest).drop identifier.length).head? ||
      containsIdentifier alphanumeric identifier (some c) rest

def firstWord (body : List Char) : List Char := (body.dropWhile isWhitespace).takeWhile (!isWhitespace ·)

def opensBlock (keyword body : List Char) : Bool :=
  ["if", "for", "block", "filter", "macro", "with", "autoescape", "call", "raw"].any (·.toList = keyword) ||
    keyword = "set".toList && !body.contains '='

/-- The depth of blocks, and whether the file number was interpolated directly. -/
def fileNumberTag (alphanumeric : Char → Bool) (scan : Nat × Bool) :
    TagKind × List Char → Except Error (Nat × Bool)
  | (.expression, body) =>
    if containsIdentifier alphanumeric fileNumberName none body then
      if trim isWhitespace body = fileNumberName ∧ scan.1 = 0 then .ok (scan.1, true)
      else .error (.message "nosort-evict requires file_number as a direct unconditional interpolation")
    else .ok scan
  | (.block, body) =>
    if containsIdentifier alphanumeric fileNumberName none body then
      .error (.message "file_number cannot be shadowed or used in template control flow")
    else
      let keyword := firstWord body
      if "end".toList.isPrefixOf keyword then .ok (scan.1 - 1, scan.2)
      else if opensBlock keyword body then .ok (scan.1 + 1, scan.2)
      else .ok scan
  | (.comment, _) => .ok scan

namespace OutputTargetTemplate

def requireFileNumber (alphanumeric : Char → Bool) (template : OutputTargetTemplate U) : Except Error Unit := do
  let tags ← templateTags template.objectPathTemplate
  let scan ← tags.foldlM (fileNumberTag alphanumeric) (0, false)
  if !scan.2 then
    throw (.message "nosort-evict output template must directly interpolate \x7b file_number \x7d")

def staticExtension (template : OutputTargetTemplate U) : Option (List Char) :=
  let component := template.objectPathTemplate.rtakeWhile (· ≠ '/')
  let extension := component.rtakeWhile (· ≠ '.')
  let tagged := ["\x7b\x7b", "\x7b%", "\x7b#"].any fun opening => (splitAt? opening.toList extension).isSome
  if component.contains '.' && extension ≠ [] && !tagged then some extension else none

end OutputTargetTemplate

-- ---------------------------------------------------------------------------
-- Binding
-- ---------------------------------------------------------------------------

/-- `undeclaredVariables` are the sorted names that the engine reports for a
template, each once. -/
structure TemplateBinder (U L T B α : Type) extends FileOutputBinder L T B α where
  crate : UrlCrate U
  engine : Engine
  undeclaredVariables : List Char → List String
  alphanumeric : Char → Bool

structure TemplateRequest where
  pattern : String
  partitionFields : List String
  strategy : PartitionStrategy
  maxOpenPartitions : Option Nat
  excludeColumns : List String

structure BoundPartitions (U T α : Type) where
  template : OutputTargetTemplate U
  sinkBinding : SinkBinding T α
  partitionFields : List String
  excludeColumns : List String
  strategy : Strategy

namespace TemplateBinder

variable (binder : TemplateBinder U L T B α)

def referencedFields (template : OutputTargetTemplate U) : Except Error (List String) := do
  binder.engine.templateFromStr template.objectPathTemplate
  return binder.undeclaredVariables template.objectPathTemplate

def selectedFields (strategy : PartitionStrategy) (template : OutputTargetTemplate U) (fields : List String) :
    Except Error (List String) :=
  if strategy = .nosortEvict then
    (template.requireFileNumber binder.alphanumeric).map fun _ => fields.filter (· ≠ "file_number")
  else if fields.contains "file_number" then
    .error (.message "file_number is available only with --partition-strategy=nosort-evict")
  else .ok fields

def requireSelected (partitionFields : List String) : List String → Except Error Unit
  | [] => .ok ()
  | field :: fields =>
    if partitionFields.contains field then requireSelected partitionFields fields
    else .error (.message s!"file output template field {binder.debug.string field} is not selected by --by")

def boundStrategy (maxOpen : { n : Nat // 0 < n }) : PartitionStrategy → Strategy
  | .sortSingle => .sortSingle
  | .nosortMulti => .nosortMulti
  | .nosortEvict => .nosortEvict maxOpen

def maxOpen (maxOpenPartitions : Option Nat) : Except Error { n : Nat // 0 < n } :=
  if h : 0 < maxOpenPartitions.getD 100 then .ok ⟨_, h⟩
  else .error (.message "--max-open-partitions must be at least 1")

def bindTemplate (outputSchema : Schema) (request : TemplateRequest) : Except Error (BoundPartitions U T α) := do
  let text := binder.debug.string request.pattern
  validateExcludedColumns binder.debug outputSchema request.excludeColumns
  validatePartitionColumnsPrimitive binder.debug outputSchema request.partitionFields
  if request.partitionFields.contains "file_number" then
    throw (.message "partition field \"file_number\" is reserved for nosort-evict output templates")
  let template ← (OutputTargetTemplate.new binder.debug binder.crate binder.engine request.pattern).mapError
    (.context s!"invalid file output template {text}")
  let referenced ← (binder.referencedFields template).mapError (.context s!"invalid file output template {text}")
  let selected ← binder.selectedFields request.strategy template referenced
  binder.requireSelected request.partitionFields selected
  if request.maxOpenPartitions.isSome && request.strategy ≠ .nosortEvict then
    throw (.message "--max-open-partitions is only supported with --partition-strategy=nosort-evict")
  let maxOpen ← maxOpen request.maxOpenPartitions
  let format ← binder.formatForExtension (template.staticExtension.map String.ofList) request.pattern
  let sinkBinding ← (binder.bindSink format).mapError
    (.context s!"while binding format for partitioned file output {text}")
  return ⟨template, sinkBinding, request.partitionFields, request.excludeColumns,
    boundStrategy maxOpen request.strategy⟩

end TemplateBinder

-- ---------------------------------------------------------------------------
-- What is bound
-- ---------------------------------------------------------------------------

def Strategy.numbers : Strategy → Bool
  | nosortEvict _ => true
  | _ => false

structure BoundTo (binder : TemplateBinder U L T B α) (schema : Schema) (bound : BoundPartitions U T α) : Prop where
  columns : validateExcludedColumns binder.debug schema bound.excludeColumns = .ok ()
  primitive : validatePartitionColumnsPrimitive binder.debug schema bound.partitionFields = .ok ()
  reserved : "file_number" ∉ bound.partitionFields
  selected : ∀ field ∈ binder.undeclaredVariables bound.template.objectPathTemplate,
    field ∈ bound.partitionFields ∨ field = "file_number" ∧ bound.strategy.numbers = true

variable {binder : TemplateBinder U L T B α}

theorem requireSelected_ok (h : binder.requireSelected partitionFields fields = .ok ()) :
    ∀ field ∈ fields, field ∈ partitionFields := by
  induction fields with
  | nil => exact List.forall_mem_nil _
  | cons field fields ih =>
    unfold TemplateBinder.requireSelected at h
    split at h
    · rename_i hfield
      exact List.forall_mem_cons.mpr ⟨by simpa using hfield, ih h⟩
    · cases h

theorem selectedFields_ok {fields selected partitionFields : List String}
    (h : binder.selectedFields strategy template fields = .ok selected)
    (hall : ∀ field ∈ selected, field ∈ partitionFields) (maxOpen : { n : Nat // 0 < n }) :
    ∀ field ∈ fields, field ∈ partitionFields ∨
      field = "file_number" ∧ (TemplateBinder.boundStrategy maxOpen strategy).numbers = true := by
  intro field hfield
  unfold TemplateBinder.selectedFields at h
  split at h
  · rename_i hevict
    obtain ⟨_, _, rfl⟩ := Lists.map_eq_ok.mp h
    by_cases hnumber : field = "file_number"
    · exact .inr ⟨hnumber, by rw [hevict]; rfl⟩
    · exact .inl (hall field (List.mem_filter.mpr ⟨hfield, by simpa using hnumber⟩))
  · split at h
    · cases h
    · obtain rfl := Except.ok.inj h
      exact .inl (hall field hfield)

theorem bindTemplate_ok {bound : BoundPartitions U T α} (h : binder.bindTemplate schema request = .ok bound) :
    BoundTo binder schema bound := by
  obtain ⟨⟨⟩, hcolumns, h⟩ := Lists.bind_eq_ok.mp h
  obtain ⟨⟨⟩, hprimitive, h⟩ := Lists.bind_eq_ok.mp h
  obtain ⟨hreserved, h⟩ := Lists.ite_throw_ok.mp h
  obtain ⟨template, -, h⟩ := Lists.bind_eq_ok.mp h
  obtain ⟨referenced, hreferenced, h⟩ := Lists.bind_eq_ok.mp h
  obtain ⟨selected, hselected, h⟩ := Lists.bind_eq_ok.mp h
  obtain ⟨⟨⟩, hrequired, h⟩ := Lists.bind_eq_ok.mp h
  obtain ⟨-, h⟩ := Lists.ite_throw_ok.mp h
  obtain ⟨maxOpen, -, h⟩ := Lists.bind_eq_ok.mp h
  obtain ⟨format, -, h⟩ := Lists.bind_eq_ok.mp h
  obtain ⟨sinkBinding, -, h⟩ := Lists.bind_eq_ok.mp h
  obtain rfl := Except.ok.inj h
  obtain ⟨_, -, hreferenced⟩ := Lists.bind_eq_ok.mp (Lists.mapError_eq_ok.mp hreferenced)
  obtain rfl := Except.ok.inj hreferenced
  have hselected := selectedFields_ok hselected (requireSelected_ok hrequired) maxOpen
  exact ⟨hcolumns, hprimitive, by simpa using hreserved, hselected⟩

end SilkChiffon.FileOutput
