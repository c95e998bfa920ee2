import SilkChiffon.FileOutput.PartitionRuns
import SilkChiffon.Storage.Location

/-!
# Output target templates

A template's envelope is fixed when it is made: a bare path, or a URL whose
object path alone holds tags. Values are escaped as Hive does, and in a URL
once more, so that decoding the rendered path leaves Hive's escapes alone.
The template engine is a parameter.
-/

namespace SilkChiffon.FileOutput

open Arrow
open Storage (UrlCrate Location LocationInput)

-- ---------------------------------------------------------------------------
-- Hive names
-- ---------------------------------------------------------------------------

def hiveDefaultPartition : List Char := "__HIVE_DEFAULT_PARTITION__".toList

/-- What `HIVE_ENCODE_SET` adds to the control characters. -/
def hiveMarks : List Char := "\"#%'*/:=?\\\x7b[]^".toList

/-- Percent encoding always encodes what is not ASCII. -/
def hiveEncodeSet (b : UInt8) : Bool :=
  b < 32 || b = 127 || 128 ≤ b || (Text.utf8 hiveMarks).contains b

def hiveEscapePath (path : List Char) : List Char :=
  if path = [] then hiveDefaultPartition
  else (Percent.encode hiveEncodeSet (Text.utf8 path)).map Text.asciiChar

-- ---------------------------------------------------------------------------
-- The engine
-- ---------------------------------------------------------------------------

/-- A value of the engine; a safe one is not escaped. -/
structure Value where
  text : List Char
  safe : Bool
  deriving DecidableEq, Repr

structure TemplateEnvironment where
  formatter : Value → List Char
  rawFilter : List Char → Value

def rawFilter (value : List Char) : Value :=
  ⟨if value = [] ∨ value = hiveDefaultPartition then hiveDefaultPartition else value, true⟩

/-- `text.replace('%', "%25")`. -/
def protectPercent (text : List Char) : List Char :=
  text.flatMap fun c => if c = '%' then ['%', '2', '5'] else [c]

def formatter (protectsPercentEncoding : Bool) (value : Value) : List Char :=
  let formatted := if value.safe then value.text else hiveEscapePath value.text
  if protectsPercentEncoding then protectPercent formatted else formatted

abbrev TemplateContext := List (String × Value)

structure Engine where
  templateFromStr : List Char → Except Error Unit
  render : List Char → TemplateEnvironment → TemplateContext → Except Error (List Char)

-- ---------------------------------------------------------------------------
-- Tags
-- ---------------------------------------------------------------------------

inductive TagKind
  | expression | block | comment
  deriving DecidableEq, Repr

inductive Lexeme
  | plain (c : Char)
  | tag (kind : TagKind) (body : List Char)
  deriving DecidableEq, Repr

def opening : List Char → Option (TagKind × List Char)
  | '\x7b' :: '\x7b' :: rest => some (.expression, rest)
  | '\x7b' :: '%' :: rest => some (.block, rest)
  | '\x7b' :: '#' :: rest => some (.comment, rest)
  | _ => none

def TagKind.closing : TagKind → List Char
  | expression => ['\x7d', '\x7d']
  | block => ['%', '\x7d']
  | comment => ['#', '\x7d']

def splitAt? (needle : List Char) : List Char → Option (List Char × List Char)
  | [] => if needle = [] then some ([], []) else none
  | c :: rest =>
    if needle.isPrefixOf (c :: rest) then some ([], (c :: rest).drop needle.length)
    else (splitAt? needle rest).map fun (before, after) => (c :: before, after)

/-- The tags of a source and the characters around them. Each lexeme takes at
least one of the `fuel` characters. -/
def lexemesWithin : Nat → List Char → Except Error (List Lexeme)
  | _, [] => .ok []
  | 0, _ => .ok []
  | fuel + 1, c :: rest =>
    match opening (c :: rest) with
    | none => (lexemesWithin fuel rest).map (.plain c :: ·)
    | some (kind, body) =>
      match splitAt? kind.closing body with
      | none => .error (.message "unclosed output target template tag")
      | some (body, after) => (lexemesWithin fuel after).map (.tag kind body :: ·)

def lexemes (source : List Char) : Except Error (List Lexeme) := lexemesWithin source.length source

def Lexeme.tag? : Lexeme → Option (TagKind × List Char)
  | plain _ => none
  | tag kind body => some (kind, body)

def templateTags (source : List Char) : Except Error (List (TagKind × List Char)) :=
  (lexemes source).map (·.filterMap Lexeme.tag?)

def Lexeme.masked : Lexeme → Char
  | plain c => c
  | tag .. => 'x'

def maskTemplateTags (source : List Char) : Except Error (List Char) :=
  (lexemes source).map (·.map Lexeme.masked)

-- ---------------------------------------------------------------------------
-- The envelope
-- ---------------------------------------------------------------------------

inductive OutputEnvelope (U : Type)
  | bare (absolute : Bool)
  | url (base : U)

def OutputEnvelope.isUrl : OutputEnvelope U → Bool
  | bare _ => false
  | url _ => true

def hasBrace (text : List Char) : Bool := text.any fun c => c = '\x7b' || c = '\x7d'

def ofStorage (debug : Debug) (crate : UrlCrate U) (e : Storage.StorageError U) : Error :=
  .message (e.display debug.string crate.asStr)

def emptyObjectPath : Error := .message "output target template object path cannot be empty"

/-- The envelope of `scheme://rest`. The query begins at the first `?`, which
may not stand in front of the path. -/
def parseUrlEnvelope (debug : Debug) (crate : UrlCrate U) (scheme rest : List Char) :
    Except Error (OutputEnvelope U × List Char) :=
  if (scheme ++ rest).contains '#' then
    .error (.message "output target templates cannot contain URL fragments")
  else
    match Storage.splitOnce '/' rest with
    | none => .error (.message "explicit output target template requires an object path")
    | some (authority, path) =>
      if (scheme ++ authority).contains '?' then
        .error (.message "output target template query cannot appear before its object path")
      else
        let fixedPrefix := scheme ++ "://".toList ++ authority ++ ['/']
        let objectPathTemplate := path.takeWhile (· ≠ '?')
        let fixedQuery := path.dropWhile (· ≠ '?')
        if hasBrace fixedPrefix || hasBrace fixedQuery then
          .error (.message "only the output object path may contain template syntax")
        else if objectPathTemplate = [] then .error emptyObjectPath
        else do
          let maskedPath ← maskTemplateTags objectPathTemplate
          let candidate := String.ofList (fixedPrefix ++ maskedPath ++ fixedQuery)
          match ← (LocationInput.parse crate candidate).mapError (ofStorage debug crate) with
          | .url location => return (.url (crate.setRootPath location.url), objectPathTemplate)
          | .bare _ =>
            throw (.message "explicit output target template did not retain its URL envelope")

def parseEnvelope (debug : Debug) (crate : UrlCrate U) (pattern : List Char) :
    Except Error (OutputEnvelope U × List Char) :=
  match splitAt? "://".toList pattern with
  | some (scheme, rest) => parseUrlEnvelope debug crate scheme rest
  | none =>
    let absolute := pattern.head? = some '/'
    let objectPathTemplate := if absolute then pattern.tail else pattern
    if objectPathTemplate = [] then .error emptyObjectPath
    else .ok (.bare absolute, objectPathTemplate)

structure OutputTargetTemplate (U : Type) where
  objectPathTemplate : List Char
  envelope : OutputEnvelope U

namespace OutputTargetTemplate

def environment (template : OutputTargetTemplate U) : TemplateEnvironment :=
  ⟨formatter template.envelope.isUrl, rawFilter⟩

def new (debug : Debug) (crate : UrlCrate U) (engine : Engine) (pattern : String) :
    Except Error (OutputTargetTemplate U) := do
  let (envelope, objectPathTemplate) ← parseEnvelope debug crate pattern.toList
  (engine.templateFromStr objectPathTemplate).mapError
    (.context s!"invalid output target template {debug.string pattern}")
  return ⟨objectPathTemplate, envelope⟩

-- ---------------------------------------------------------------------------
-- Rendering
-- ---------------------------------------------------------------------------

def validateSegments : List (List Char) → Except Error Unit
  | [] => .ok ()
  | segment :: segments =>
    if segment = [] then
      .error (.message "rendered output object path cannot contain empty segments")
    else if segment = ['.'] ∨ segment = ['.', '.'] then
      .error (.message "rendered output object path cannot contain dot segments")
    else validateSegments segments

def validateObjectPath (path : List Char) : Except Error Unit :=
  if path = [] then .error (.message "rendered output object path cannot be empty")
  else validateSegments (path.splitOn '/')

def valueText (format : Formatter α) : Cell α → Except Error (List Char)
  | none => .ok hiveDefaultPartition
  | some value =>
    match format value with
    | some text => .ok text.toList
    | none => .error (.message "the value cannot be formatted")

def fieldValues (format : Formatter α) : PartitionValues α → Except Error TemplateContext
  | [] => .ok []
  | (column, cell) :: rest => do
    let text ← valueText format cell
    let context ← fieldValues format rest
    return (column, ⟨text, false⟩) :: context

def context (format : Formatter α) (values : PartitionValues α) (fileNumber : Option Nat) :
    Except Error TemplateContext := do
  let context ← fieldValues format values
  match fileNumber with
  | some n => return ("file_number", ⟨(toString n).toList, false⟩) :: context
  | none => return context

def objectPath (template : OutputTargetTemplate U) (rendered : List Char) : Except Error (List Char) :=
  match template.envelope with
  | .url _ =>
    match Text.decodeUtf8 (Percent.decode (Text.utf8 rendered)) with
    | some path => .ok path
    | none => .error (.message "rendered output object path is not UTF-8")
  | .bare _ => .ok rendered

def locationOf (debug : Debug) (crate : UrlCrate U) (objectPath : List Char) :
    OutputEnvelope U → Except Error (LocationInput U)
  | .bare absolute => .ok (.bare (String.ofList ((if absolute then ['/'] else []) ++ objectPath)))
  | .url base =>
    match crate.withSegments base ((objectPath.splitOn '/').map String.ofList) with
    | none => .error (.message "output URL cannot contain path segments")
    | some target =>
      ((Location.parseUrl crate (crate.asStr target)).map .url).mapError (ofStorage debug crate)

def render (debug : Debug) (crate : UrlCrate U) (engine : Engine) (format : Formatter α)
    (template : OutputTargetTemplate U) (values : PartitionValues α) (fileNumber : Option Nat) :
    Except Error (LocationInput U) := do
  if (values.get "file_number").isSome then
    throw (.message "partition field file_number is reserved for nosort-evict output templates")
  let context ← context format values fileNumber
  let rendered ← (engine.render template.objectPathTemplate template.environment context).mapError
    (.context "failed to render output target template")
  let objectPath ← template.objectPath rendered
  validateObjectPath objectPath
  locationOf debug crate objectPath template.envelope

end OutputTargetTemplate

-- ---------------------------------------------------------------------------
-- What a template was made from
-- ---------------------------------------------------------------------------

variable {debug : Debug} {crate : UrlCrate U} {engine : Engine} {template : OutputTargetTemplate U}

theorem parseUrlEnvelope_ok (h : parseUrlEnvelope debug crate scheme rest = .ok (envelope, source)) :
    ∃ fixed masked query location, maskTemplateTags source = .ok masked ∧
      LocationInput.parse crate (String.ofList (fixed ++ ['/'] ++ masked ++ query)) =
        .ok (.url location) ∧ envelope = .url (crate.setRootPath location.url) ∧
      scheme ++ "://".toList ++ rest = fixed ++ ['/'] ++ source ++ query := by
  unfold parseUrlEnvelope at h
  split at h
  · cases h
  split at h
  · cases h
  rename_i authority path hsplit
  split at h
  · cases h
  simp only at h
  split at h
  · cases h
  split at h
  · cases h
  obtain ⟨masked, hmasked, h⟩ := Lists.bind_eq_ok.mp h
  obtain ⟨input, hinput, h⟩ := Lists.bind_eq_ok.mp h
  cases input with
  | bare text => cases h
  | url location =>
    obtain ⟨rfl, rfl⟩ := Prod.mk.inj (Except.ok.inj h)
    exact ⟨scheme ++ "://".toList ++ authority, masked, path.dropWhile (· ≠ '?'), location, hmasked,
      Lists.mapError_eq_ok.mp hinput, rfl, by simp [Storage.splitOnce_ok hsplit]⟩

theorem splitAt?_ok (h : splitAt? needle text = some (before, after)) : text = before ++ needle ++ after := by
  induction text generalizing before with
  | nil =>
    unfold splitAt? at h
    split at h
    · cases h
      simp [*]
    · cases h
  | cons c text ih =>
    unfold splitAt? at h
    split at h
    · rename_i hprefix
      obtain ⟨rfl, rfl⟩ := Prod.mk.inj (Option.some.inj h)
      obtain ⟨after, hafter⟩ := List.isPrefixOf_iff_prefix.mp hprefix
      simp [← hafter]
    · obtain ⟨⟨before', after'⟩, hsplit, heq⟩ := Option.map_eq_some_iff.mp h
      obtain ⟨rfl, rfl⟩ := Prod.mk.inj heq
      simp [ih hsplit]

theorem new_ok (h : OutputTargetTemplate.new debug crate engine pattern = .ok template) :
    parseEnvelope debug crate pattern.toList = .ok (template.envelope, template.objectPathTemplate) := by
  obtain ⟨⟨envelope, source⟩, henvelope, h⟩ := Lists.bind_eq_ok.mp h
  obtain ⟨_, _, h⟩ := Lists.bind_eq_ok.mp h
  obtain rfl := Except.ok.inj h
  exact henvelope

theorem new_url_ok (h : OutputTargetTemplate.new debug crate engine pattern = .ok template)
    (hurl : template.envelope.isUrl = true) : ∃ scheme rest,
      parseUrlEnvelope debug crate scheme rest = .ok (template.envelope, template.objectPathTemplate) ∧
        pattern.toList = scheme ++ "://".toList ++ rest := by
  have h := new_ok h
  unfold parseEnvelope at h
  split at h
  · rename_i hsplit
    exact ⟨_, _, h, splitAt?_ok hsplit⟩
  · simp only at h
    split at h <;> split at h
    · cases h
    · obtain ⟨henvelope, -⟩ := Prod.mk.inj (Except.ok.inj h)
      rw [← henvelope] at hurl
      cases hurl
    · cases h
    · obtain ⟨henvelope, -⟩ := Prod.mk.inj (Except.ok.inj h)
      rw [← henvelope] at hurl
      cases hurl

end SilkChiffon.FileOutput
