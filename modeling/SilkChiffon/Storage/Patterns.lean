import SilkChiffon.Lib.EncodedText
import SilkChiffon.Lib.Fallible
import SilkChiffon.Lib.Glob
import SilkChiffon.Storage.Location

/-!
# Location patterns

Text that may select more than one object. A pattern is checked as the exact URL
it would be with its metacharacters encoded, and compiled to a glob over object
paths. The glob crate, the object paths and the stores are parameters.
-/

namespace SilkChiffon.Storage

-- ---------------------------------------------------------------------------
-- Crates
-- ---------------------------------------------------------------------------

structure GlobError where
  pos : Nat
  msg : String
  deriving DecidableEq, Repr

/-- What the `glob` crate does; matching minds case, and separators are literal. -/
structure GlobCrate (P : Type) where
  new : String → Except GlobError P
  escape : String → String
  matchesWith : P → String → Bool

structure GlobCrate.Lawful (glob : GlobCrate P) : Prop where
  new : ∀ text matcher, glob.new text = .ok matcher → ∃ tokens, Glob.parse text.toList = some tokens ∧
    ∀ path, glob.matchesWith matcher path = Glob.matchTokens tokens path.toList
  escape : ∀ text, glob.escape text = String.ofList (Glob.escape text.toList)

def docGlob : GlobCrate (List Glob.Token) where
  new text := match Glob.parse text.toList with
    | some tokens => .ok tokens
    | none => .error ⟨0, "invalid range pattern"⟩
  escape text := String.ofList (Glob.escape text.toList)
  matchesWith tokens path := Glob.matchTokens tokens path.toList

theorem docGlob_lawful : docGlob.Lawful where
  new text tokens h := by
    unfold docGlob at h
    dsimp only at h
    split at h
    · rename_i hparse
      obtain rfl := Except.ok.inj h
      exact ⟨_, hparse, fun _ => rfl⟩
    · cases h
  escape _ := rfl

/-- ASCII texts as the URLs they spell: `scheme://authority/path?query`. -/
def textUrls : UrlCrate String where
  parse text := if text.toList.all (·.toNat < 128) then .ok text else .error "invalid international domain name"
  asStr := id
  scheme text := String.ofList (text.toList.takeWhile (· ≠ ':'))
  username _ := ""
  password _ := none
  path text := String.ofList
    ((((text.toList.dropWhile (· ≠ ':')).drop 3).dropWhile (· ≠ '/')).takeWhile (· ≠ '?'))
  toFilePath text := if "file:///".toList.isPrefixOf text.toList then some (String.ofList (text.toList.drop 7)) else none
  fromFilePath path := some ("file://" ++ path)
  setRootPath := id
  clearQuery := id
  clearFragment := id
  withSegments _ _ := none

/-- What parsing accepts prints in ASCII. -/
def UrlCrate.PrintsAscii (crate : UrlCrate U) : Prop :=
  ∀ text url, crate.parse text = .ok url → ∀ c ∈ (crate.asStr url).toList, c.toNat < 128

theorem textUrls_printsAscii : textUrls.PrintsAscii := by
  intro text url h
  change (if text.toList.all (·.toNat < 128) then Except.ok text else .error _) = .ok url at h
  split at h
  · rename_i hascii
    obtain rfl := Except.ok.inj h
    exact fun c hc => of_decide_eq_true (List.all_eq_true.mp hascii c hc)
  · cases h

/-- Segments of an object path are not empty, no dots and without control
characters. -/
def IsObjectPath (text : List Char) : Prop :=
  text = [] ∨ ∀ s ∈ text.splitOn '/', s ≠ [] ∧ s ≠ ['.'] ∧ s ≠ ['.', '.'] ∧
    ∀ c ∈ s, 32 ≤ c.toNat ∧ c.toNat ≠ 127

instance (text : List Char) : Decidable (IsObjectPath text) :=
  decidable_of_iff (text = [] ∨ (text.splitOn '/').all (fun s => s ≠ [] && s ≠ ['.'] && s ≠ ['.', '.'] &&
      s.all fun c => 32 ≤ c.toNat && c.toNat ≠ 127) = true)
    (by simp only [IsObjectPath, List.all_eq_true, Bool.and_eq_true, decide_eq_true_eq, and_assoc])

structure ObjectPath where
  text : List Char
  valid : IsObjectPath text

/-- Behind a prefix at the border of a segment. -/
def Under (front path : List Char) : Prop := ∃ rest, rest ≠ [] ∧ path = front ++ '/' :: rest

structure ObjectPathCrate where
  parse : String → Except String ObjectPath
  fromUrlPath : String → Except String ObjectPath

/-- Only slashes at the ends are dropped. -/
def ObjectPathCrate.Lawful (paths : ObjectPathCrate) : Prop :=
  ∀ text path, paths.parse text = .ok path → text.toList.head? ≠ some '/' → text.toList.getLast? ≠ some '/' →
    path.text = text.toList

structure ObjectStore where
  list : Option ObjectPath → List ObjectPath

/-- A listing with a prefix has the objects of the full one that are under it. -/
def ObjectStore.Lawful (store : ObjectStore) : Prop :=
  ∀ front path, path ∈ store.list (some front) ↔
    path ∈ store.list none ∧ (front.text = [] ∨ Under front.text path.text)

-- ---------------------------------------------------------------------------
-- Patterns and their errors
-- ---------------------------------------------------------------------------

inductive PatternError (U : Type)
  | location (error : StorageError U)
  | invalidLocationPattern (input : String) (source : GlobError)
  | patternOutsideUrlPath (input : String)
  deriving DecidableEq

def PatternError.display (debug : String → String) (asStr : U → String) (syntaxError : GlobError → String) :
    PatternError U → String
  | location error => error.display debug asStr
  | invalidLocationPattern input source =>
    s!"invalid storage location pattern {debug input}: {syntaxError source}"
  | patternOutsideUrlPath input => s!"storage pattern syntax is allowed only in the URL path: {input}"

def PatternError.Quotes (input : String) : PatternError U → Prop
  | location _ => True
  | invalidLocationPattern quoted _ | patternOutsideUrlPath quoted => quoted = input

theorem PatternError.display_quotes {debug : String → String} {asStr : U → String}
    {syntaxError : GlobError → String} {error : PatternError U} (h : error.Quotes input) :
    (∃ fault, error = .location fault) ∨ Text.Mentions (error.display debug asStr syntaxError) input ∨
      Text.Mentions (error.display debug asStr syntaxError) (debug input) := by
  cases error with
  | location fault => exact .inl ⟨fault, rfl⟩
  | invalidLocationPattern _ source =>
    obtain rfl := h
    exact .inr (.inr ((((Text.mentions_self _).prepend _).append _).append _))
  | patternOutsideUrlPath _ =>
    obtain rfl := h
    exact .inr (.inl ((Text.mentions_self _).prepend _))

inductive PatternInput (U P : Type)
  | exact (input : LocationInput U)
  | bare (source : String)
  | url (source : String) (location : Location U) (matcher : P) (literalPrefix : String)
  deriving DecidableEq

structure LocationPattern (U P : Type) where
  input : PatternInput U P
  deriving DecidableEq

def splitOnceAt (separator : List Char) : List Char → Option (List Char × List Char)
  | [] => none
  | c :: rest =>
    if separator.isPrefixOf (c :: rest) then some ([], (c :: rest).drop separator.length)
    else (splitOnceAt separator rest).map fun parts => (c :: parts.1, parts.2)

def hasActiveGlob (input : List Char) : Bool := input.any fun c => c = '*' || c = '?' || c = '['

def globBeforeUrlSeparator (input : String) : Bool :=
  (splitOnceAt "://".toList input.toList).any fun parts => hasActiveGlob parts.1

def recursiveGlobError (path : List Char) : GlobError where
  pos := match splitOnceAt "**".toList path with
    | some (before, _) => (Text.utf8 before).length
    | none => 0
  msg := "recursive ** must occupy a complete path segment"

def validateRecursiveGlobs (path : List Char) (input : String) : Except (PatternError U) Unit :=
  if (path.splitOn '/').any fun segment =>
      (splitOnceAt "**".toList segment).isSome && segment ≠ "**".toList then
    .error (.invalidLocationPattern input (recursiveGlobError path))
  else .ok ()

/-- Metacharacters are encoded; any other byte becomes the character of its
number. -/
def canonicalByte (b : UInt8) : List Char :=
  if b = 42 then "%2A".toList
  else if b = 63 then "%3F".toList
  else if b = 91 then "%5B".toList
  else if b = 93 then "%5D".toList
  else [Text.asciiChar b]

def canonicalPatternUrl (beforeQuery : List Char) (pathStart : Nat) (query : Option (List Char)) : String :=
  String.ofList (beforeQuery.take pathStart ++ (Text.utf8 (beforeQuery.drop pathStart)).flatMap canonicalByte ++
    match query with
    | some query => '?' :: query
    | none => [])

def decodedMatcher (glob : GlobCrate P) (rawPath : List Char) (input : String) :
    Except (PatternError U) String :=
  match Percent.readRuns (fun b => [Text.asciiChar b]) (fun text => (glob.escape (String.ofList text)).toList)
      (Text.utf8 rawPath) with
  | some matcher => .ok (String.ofList matcher)
  | none => .error (.location (.invalidPercentEncoding input))

def unescapeMatcherLiterals : List Char → List Char
  | x :: c :: close :: rest =>
    if x = '[' && close = ']' && Glob.isMeta c then c :: unescapeMatcherLiterals rest
    else x :: unescapeMatcherLiterals (c :: close :: rest)
  | c :: rest => c :: unescapeMatcherLiterals rest
  | [] => []

def literalSegments (path : List Char) : List (List Char) :=
  (path.splitOn '/').takeWhile fun segment => !hasActiveGlob segment

def activeSegments (path : List Char) : List (List Char) :=
  (path.splitOn '/').dropWhile fun segment => !hasActiveGlob segment

def decodedLiteralPrefix (glob : GlobCrate P) (rawPath : List Char) (input : String) :
    Except (PatternError U) String :=
  (decodedMatcher glob (['/'].intercalate (literalSegments rawPath)) input).map fun literal =>
    String.ofList (unescapeMatcherLiterals literal.toList)

/-- The parts of an explicit pattern: `scheme://authority/path??query`. -/
structure UrlPatternParts where
  authority : List Char
  beforeQuery : List Char
  query : Option (List Char)
  pathStart : Nat

def urlPatternParts (scheme input : String) : UrlPatternParts :=
  let authority := (input.toList.drop (scheme.length + 3)).takeWhile (· ≠ '/')
  let (beforeQuery, query) := match splitOnceAt "??".toList input.toList with
    | some (beforeQuery, query) => (beforeQuery, some query)
    | none => (input.toList, none)
  ⟨authority, beforeQuery, query, scheme.length + 3 + authority.length⟩

def UrlPatternParts.rawPath (parts : UrlPatternParts) : List Char :=
  match parts.beforeQuery.drop parts.pathStart with
  | '/' :: path => path
  | _ => []

section
variable (crate : UrlCrate U) (glob : GlobCrate P)

def LocationPattern.parseUrl (input : String) : Except (PatternError U) (LocationPattern U P) := do
  if input = "" then throw (.location .emptyLocation)
  if globBeforeUrlSeparator input then throw (.patternOutsideUrlPath input)
  match ← (schemeLikePrefix input).mapError .location with
  | none => throw (.location (.urlSchemeRequired input))
  | some scheme =>
    if ¬ (scheme ++ "://").toList.isPrefixOf input.toList then
      throw (.location (.nonCanonicalStorageUrl scheme.toLower input))
    let parts := urlPatternParts scheme input
    if (parts.authority.any fun c => c = '*' || c = '?') ||
        ((parts.authority.contains '[' || parts.authority.contains ']') &&
          !(crate.parse (scheme ++ "://" ++ String.ofList parts.authority ++ "/")).isOk) then
      throw (.patternOutsideUrlPath input)
    if parts.rawPath.contains '#' || parts.query.any (·.contains '#') then
      throw (.location (.fragmentNotSupported input))
    validateRecursiveGlobs parts.rawPath input
    let canonical := canonicalPatternUrl parts.beforeQuery parts.pathStart parts.query
    let location ← (Location.parseUrl crate canonical).mapError .location
    if !hasActiveGlob parts.rawPath then return ⟨.exact (.url location)⟩
    let matcherSource ← decodedMatcher glob parts.rawPath input
    let literalPrefix ← decodedLiteralPrefix glob parts.rawPath input
    let matcher ← (glob.new matcherSource).mapError (.invalidLocationPattern input)
    return ⟨.url input location matcher literalPrefix⟩

def LocationPattern.parse (input : String) : Except (PatternError U) (LocationPattern U P) := do
  if input = "" then throw (.location .emptyLocation)
  if globBeforeUrlSeparator input then throw (.patternOutsideUrlPath input)
  match ← (schemeLikePrefix input).mapError .location with
  | some _ => LocationPattern.parseUrl crate glob input
  | none =>
    if hasActiveGlob input.toList then
      validateRecursiveGlobs input.toList input
      let _ ← (glob.new input).mapError (.invalidLocationPattern input)
      return ⟨.bare input⟩
    else
      return ⟨.exact (← (LocationInput.parse crate input).mapError .location)⟩

end

def LocationPattern.rawPath (input : String) : List Char :=
  match splitOnce ':' input.toList with
  | some (scheme, _) => (urlPatternParts (String.ofList scheme) input).rawPath
  | none => []

theorem schemeLikePrefix_ok (h : schemeLikePrefix (U := U) input = .ok (some scheme)) :
    ∃ after, splitOnce ':' input.toList = some (scheme.toList, after) ∧ isScheme scheme.toList = true := by
  unfold schemeLikePrefix at h
  split at h
  · cases h
  · rename_i before after hsplit
    split at h
    · cases h
    · split at h
      · rename_i hscheme
        obtain rfl := Option.some.inj (Except.ok.inj h)
        exact ⟨after, by simpa using hsplit, by simpa using hscheme⟩
      · cases h

variable {U P : Type} {crate : UrlCrate U} {glob : GlobCrate P}

structure ParsedPattern (crate : UrlCrate U) (input scheme : String) (location : Location U) : Prop where
  explicit : schemeLikePrefix (U := U) input = .ok (some scheme)
  start : (scheme ++ "://").toList.isPrefixOf input.toList = true
  recursive : validateRecursiveGlobs (U := U) (LocationPattern.rawPath input) input = .ok ()
  canonical : Location.parseUrl crate (canonicalPatternUrl (urlPatternParts scheme input).beforeQuery
    (urlPatternParts scheme input).pathStart (urlPatternParts scheme input).query) = .ok location

theorem parseUrl_cases (h : LocationPattern.parseUrl crate glob input = .ok pattern) :
    ∃ scheme location, ParsedPattern crate input scheme location ∧
      ((hasActiveGlob (LocationPattern.rawPath input) = false ∧ pattern = ⟨.exact (.url location)⟩) ∨
        ∃ matcherSource literalPrefix matcher,
          hasActiveGlob (LocationPattern.rawPath input) = true ∧
          decodedMatcher (U := U) glob (LocationPattern.rawPath input) input = .ok matcherSource ∧
          decodedLiteralPrefix (U := U) glob (LocationPattern.rawPath input) input = .ok literalPrefix ∧
          glob.new matcherSource = .ok matcher ∧
          pattern = ⟨.url input location matcher literalPrefix⟩) := by
  unfold LocationPattern.parseUrl at h
  simp only [Lists.ite_throw_ok, Lists.bind_eq_ok, Lists.mapError_eq_ok] at h
  obtain ⟨_, _, scheme?, hscheme, h⟩ := h
  cases scheme? with
  | none => cases h
  | some scheme =>
    simp only [Lists.ite_throw_ok, Lists.bind_eq_ok, Lists.mapError_eq_ok] at h
    obtain ⟨hstart, _, _, _, hrecursive, location, hlocation, h⟩ := h
    have hpath : LocationPattern.rawPath input = (urlPatternParts scheme input).rawPath := by
      obtain ⟨after, hsplit, -⟩ := schemeLikePrefix_ok hscheme
      simp [LocationPattern.rawPath, hsplit]
    rw [← hpath] at h hrecursive
    refine ⟨scheme, location, ⟨hscheme, by simpa using hstart, hrecursive, hlocation⟩, ?_⟩
    split at h
    · rename_i hactive
      exact .inl ⟨by simpa using hactive, (Except.ok.inj h).symm⟩
    · rename_i hactive
      simp only [Lists.bind_eq_ok, Lists.mapError_eq_ok] at h
      obtain ⟨matcherSource, hsource, literalPrefix, hprefix, matcher, hmatcher, h⟩ := h
      exact .inr ⟨matcherSource, literalPrefix, matcher, by simpa using hactive, hsource, hprefix, hmatcher,
        (Except.ok.inj h).symm⟩

-- What a refused pattern is told: the errors that only patterns have quote it as
-- it was given, and not the canonical URL made of it.

open Fallible (Ensures ensures_ite_throw ensures_throw ensures_pure)

theorem ensures_location {x : Except (StorageError U) β} :
    Ensures (x.mapError PatternError.location) (fun _ => True) (PatternError.Quotes input) := by
  cases x <;> trivial

theorem ensures_glob {x : Except GlobError β} :
    Ensures (x.mapError (PatternError.invalidLocationPattern (U := U) input)) (fun _ => True)
      (PatternError.Quotes input) := by
  cases x with
  | ok _ => trivial
  | error _ => exact rfl

theorem ensures_validateRecursiveGlobs (path : List Char) :
    Ensures (validateRecursiveGlobs (U := U) path input) (fun _ => True) (PatternError.Quotes input) := by
  unfold validateRecursiveGlobs
  split
  · exact rfl
  · trivial

theorem ensures_decodedMatcher (rawPath : List Char) :
    Ensures (decodedMatcher (U := U) glob rawPath input) (fun _ => True) (PatternError.Quotes input) := by
  unfold decodedMatcher
  split <;> trivial

theorem ensures_decodedLiteralPrefix (rawPath : List Char) :
    Ensures (decodedLiteralPrefix (U := U) glob rawPath input) (fun _ => True)
      (PatternError.Quotes input) := by
  unfold decodedLiteralPrefix decodedMatcher
  split <;> trivial

section
-- The rules are applied to the whole parser, which must not be evaluated there.
attribute [local irreducible] Fallible.Ensures

theorem parseUrl_quotes (input : String) :
    Ensures (LocationPattern.parseUrl crate glob input) (fun _ => True) (PatternError.Quotes input) := by
  unfold LocationPattern.parseUrl
  refine ensures_ite_throw trivial ?_
  refine ensures_ite_throw rfl ?_
  refine ensures_location.bind fun scheme? _ => ?_
  cases scheme? with
  | none => exact ensures_throw trivial
  | some scheme =>
    refine ensures_ite_throw trivial ?_
    refine ensures_ite_throw rfl ?_
    refine ensures_ite_throw trivial ?_
    refine (ensures_validateRecursiveGlobs _).bind fun _ _ => ?_
    refine ensures_location.bind fun location _ => ?_
    split
    · exact ensures_pure trivial
    · refine (ensures_decodedMatcher _).bind fun _ _ => ?_
      refine (ensures_decodedLiteralPrefix _).bind fun _ _ => ?_
      exact ensures_glob.bind fun _ _ => ensures_pure trivial

theorem parse_quotes (input : String) :
    Ensures (LocationPattern.parse crate glob input) (fun _ => True) (PatternError.Quotes input) := by
  unfold LocationPattern.parse
  refine ensures_ite_throw trivial ?_
  refine ensures_ite_throw rfl ?_
  refine ensures_location.bind fun scheme? _ => ?_
  cases scheme? with
  | some scheme => exact parseUrl_quotes input
  | none =>
    dsimp only
    split
    · refine (ensures_validateRecursiveGlobs _).bind fun _ _ => ?_
      exact ensures_glob.bind fun _ _ => ensures_pure trivial
    · exact ensures_location.bind fun _ _ => ensures_pure trivial

end

/-- The message has the pattern, or is that of a location. -/
theorem parse_error_mentions {debug : String → String} {asStr : U → String} {syntaxError : GlobError → String}
    (h : LocationPattern.parse crate glob input = .error error) :
    (∃ fault, error = .location fault) ∨ Text.Mentions (error.display debug asStr syntaxError) input ∨
      Text.Mentions (error.display debug asStr syntaxError) (debug input) :=
  PatternError.display_quotes ((parse_quotes input).error h)

-- ---------------------------------------------------------------------------
-- File paths
-- ---------------------------------------------------------------------------

/-- A path below another one; an absolute path replaces it. -/
def pushPath (base segment : List Char) : List Char :=
  if segment.head? = some '/' then segment
  else if base = [] ∨ base.getLast? = some '/' then base ++ segment
  else base ++ '/' :: segment

def normalizedComponent (components : List (List Char)) (segment : List Char) : List (List Char) :=
  if segment = [] ∨ segment = ['.'] then components
  else if segment = ['.', '.'] then components.dropLast
  else components ++ [segment]

def lexicallyNormalizeAbsolutePath (path : List Char) : List Char :=
  '/' :: ['/'].intercalate ((path.splitOn '/').foldl normalizedComponent [])

def fromFilePath (crate : UrlCrate U) (path : List Char) : Except (PatternError U) U :=
  match crate.fromFilePath (String.ofList path) with
  | some url => .ok url
  | none => .error (.location (.invalidFilePath (String.ofList path)))

def LocationPattern.fromFilePathPattern (crate : UrlCrate U) (glob : GlobCrate P) (paths : ObjectPathCrate)
    (literalBase pattern : List Char) (source : String) :
    Except (PatternError U) (LocationPattern U P) := do
  validateRecursiveGlobs pattern source
  let literalPath := lexicallyNormalizeAbsolutePath ((literalSegments pattern).foldl pushPath literalBase)
  let activePattern := ['/'].intercalate (activeSegments pattern)
  let url ← fromFilePath crate (pushPath literalPath activePattern)
  let location ← (Location.parseUrl crate (crate.asStr url)).mapError .location
  let literalUrl ← fromFilePath crate literalPath
  let literalLocation ← (Location.parseUrl crate (crate.asStr literalUrl)).mapError .location
  let literalPrefix ← (paths.fromUrlPath (crate.path literalLocation.url)).mapError fun source =>
    .location (.invalidObjectPath literalLocation.url source)
  let escaped := (glob.escape (String.ofList literalPrefix.text)).toList
  let separator := if escaped ≠ [] ∧ activePattern ≠ [] then ['/'] else []
  let matcher ← (glob.new (String.ofList (escaped ++ separator ++ activePattern))).mapError
    (.invalidLocationPattern source)
  return ⟨.url source location matcher (String.ofList literalPrefix.text)⟩

-- ---------------------------------------------------------------------------
-- Listing
-- ---------------------------------------------------------------------------

def matchedObjects (glob : GlobCrate P) (paths : ObjectPathCrate) (store : ObjectStore) (location : Location U)
    (matcher : P) (literalPrefix : String) : Except (PatternError U) (List ObjectPath) := do
  let listingPrefix ← if literalPrefix = "" then pure none else
    (paths.parse literalPrefix).map some |>.mapError fun source =>
      .location (.invalidObjectPath location.url source)
  return (store.list listingPrefix).filter fun path => glob.matchesWith matcher (String.ofList path.text)

end SilkChiffon.Storage
