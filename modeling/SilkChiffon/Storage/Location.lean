import SilkChiffon.Lib.Lists
import SilkChiffon.Lib.Text

/-!
# Storage locations

Explicit URLs are checked for canonical spelling; schemeless text is kept as it
is. The URL standard's parser and setters are a parameter.
-/

namespace SilkChiffon.Storage

/-- What the `url` crate does. A URL is what it prints as. -/
structure UrlCrate (U : Type) where
  parse : String → Except String U
  asStr : U → String
  scheme : U → String
  username : U → String
  password : U → Option String
  path : U → String
  toFilePath : U → Option String
  fromFilePath : String → Option U
  setRootPath : U → U
  clearQuery : U → U
  clearFragment : U → U
  /-- The path made of these segments, if the URL can have path segments. -/
  withSegments : U → List String → Option U

structure Location (U : Type) where
  url : U
  deriving DecidableEq

inductive LocationInput (U : Type)
  | url (location : Location U)
  | bare (text : String)
  deriving DecidableEq

inductive StorageDirection
  | input | output
  deriving DecidableEq, Repr

inductive StorageError (U : Type)
  | emptyLocation
  | ambiguousLocation (input : String)
  | unsupportedBareLocation (input : String)
  | urlSchemeRequired (input : String)
  | unsupportedScheme (scheme : String)
  | nonCanonicalStorageUrl (scheme input : String)
  | bareLocationSchemeMismatch (backend scheme : String)
  | directionUnsupported (backend : String) (direction : StorageDirection)
  | bareLocationMapping (backend bareLocation source : String)
  | locationValidation (backend : String) (location : U) (source : String)
  | invalidObjectPath (location : U) (source : String)
  | objectStoreCreation (backend : String) (storeUrl : U) (source : String)
  | nonCanonicalFileUrl (input : String)
  | invalidUrl (input source : String)
  | fragmentNotSupported (input : String)
  | userInfoNotSupported (input : String)
  | invalidPercentEncoding (input : String)
  | nonCanonicalUrlPath (input : String)
  | invalidFilePath (path : String)
  | objectStore (source : String)
  | outputTargetAlreadyExists (target : U)
  | outputTargetAlreadyClaimed (target : U)
  | outputTargetPreparation (backend : String) (target : U) (source : String)
  deriving DecidableEq

def StorageDirection.display : StorageDirection → String
  | input => "input"
  | output => "output"

/-- The messages. `debug` is how Rust quotes a text, `asStr` how a URL prints. -/
def StorageError.display (debug : String → String) (asStr : U → String) : StorageError U → String
  | emptyLocation => "storage location cannot be empty"
  | ambiguousLocation input => s!"ambiguous storage location: {input}"
  | unsupportedBareLocation input => s!"bare storage locations are unsupported: {input}"
  | urlSchemeRequired input => s!"storage URL requires an explicit scheme: {input}"
  | unsupportedScheme scheme => s!"unsupported storage scheme: {scheme}"
  | nonCanonicalStorageUrl scheme input =>
    s!"storage URL must use the exact lowercase {scheme}:// form: {input}"
  | bareLocationSchemeMismatch backend scheme =>
    s!"storage backend {backend} mapped a bare location to unclaimed scheme: {scheme}"
  | directionUnsupported backend direction =>
    s!"storage backend {backend} does not support {direction.display} access"
  | bareLocationMapping backend bareLocation source =>
    s!"storage backend {backend} failed to map bare location {debug bareLocation}: {source}"
  | locationValidation backend location source =>
    s!"storage backend {backend} rejected location {asStr location}: {source}"
  | invalidObjectPath location source =>
    s!"storage location has an invalid object path {asStr location}: {source}"
  | objectStoreCreation backend storeUrl source =>
    s!"storage backend {backend} failed to create an object store for {asStr storeUrl}: {source}"
  | nonCanonicalFileUrl input => s!"local file URL must use the exact lowercase file:/// form: {input}"
  | invalidUrl input source => s!"invalid storage URL {input}: {source}"
  | fragmentNotSupported input => s!"storage URLs cannot contain fragments: {input}"
  | userInfoNotSupported input => s!"storage URLs cannot contain user information: {input}"
  | invalidPercentEncoding input => s!"invalid percent encoding in storage URL: {input}"
  | nonCanonicalUrlPath input => s!"storage URL path is not canonical: {input}"
  | invalidFilePath path => s!"filesystem path cannot be represented as a local file URL: {path}"
  | objectStore source => source
  | outputTargetAlreadyExists target => s!"output target already exists: {asStr target}"
  | outputTargetAlreadyClaimed target =>
    s!"output target is already claimed by this storage session: {asStr target}"
  | outputTargetPreparation backend target source =>
    s!"storage backend {backend} failed to prepare output target {asStr target}: {source}"

def asBytes (input : String) : Bytes := Text.utf8 input.toList

def hasValidPercentEncoding (input : String) : Bool := Percent.complete (asBytes input)

def splitOnce (c : Char) (text : List Char) : Option (List Char × List Char) :=
  match text.dropWhile (· ≠ c) with
  | [] => none
  | _ :: after => some (text.takeWhile (· ≠ c), after)

theorem splitOnce_ok (h : splitOnce c text = some (before, after)) : text = before ++ c :: after := by
  unfold splitOnce at h
  split at h
  · cases h
  · rename_i d rest hdrop
    obtain ⟨rfl, rfl⟩ := Prod.mk.inj (Option.some.inj h)
    have hne : text.dropWhile (· ≠ c) ≠ [] := by rw [hdrop]; exact List.cons_ne_nil _ _
    have hhead := List.head_dropWhile_not (fun x => decide (x ≠ c)) hne
    simp only [hdrop, List.head_cons, decide_eq_false_iff_not, Decidable.not_not] at hhead
    have happend := List.takeWhile_append_dropWhile (p := fun x => decide (x ≠ c)) (l := text)
    rw [hdrop, hhead] at happend
    exact happend.symm

theorem takeWhile_append_cons {c : Char} {before : List Char} (h : c ∉ before) (after : List Char) :
    (before ++ c :: after).takeWhile (· ≠ c) = before ∧ (before ++ c :: after).dropWhile (· ≠ c) = c :: after := by
  have hkeep : ∀ d ∈ before, decide (d ≠ c) = true := by
    intro d hd
    rw [decide_eq_true_eq]
    rintro rfl
    exact h hd
  constructor
  · rw [List.takeWhile_append_of_pos hkeep, List.takeWhile_cons_of_neg (by simp), List.append_nil]
  · rw [List.dropWhile_append_of_pos hkeep, List.dropWhile_cons_of_neg (by simp)]

theorem takeWhile_of_notMem {c : Char} {text : List Char} (h : c ∉ text) :
    text.takeWhile (· ≠ c) = text ∧ text.dropWhile (· ≠ c) = [] := by
  have hkeep : ∀ d ∈ text, decide (d ≠ c) = true := by
    intro d hd
    rw [decide_eq_true_eq]
    rintro rfl
    exact h hd
  exact ⟨List.takeWhile_eq_self_iff.mpr hkeep, List.dropWhile_eq_nil_iff.mpr hkeep⟩

theorem splitOnce_of_notMem (h : c ∉ before) : splitOnce c (before ++ c :: after) = some (before, after) := by
  obtain ⟨htake, hdrop⟩ := takeWhile_append_cons h after
  rw [splitOnce, hdrop, htake]

theorem splitOnce_eq_none (h : c ∉ text) : splitOnce c text = none := by
  rw [splitOnce, (takeWhile_of_notMem h).2]

def isScheme : List Char → Bool
  | [] => false
  | first :: characters =>
    first.isAlpha && characters.all fun c => c.isAlphanum || ['+', '-', '.'].contains c

/-- What is in front of a colon that no path separator comes before. -/
def schemeLikePrefix (input : String) : Except (StorageError U) (Option String) :=
  match splitOnce ':' input.toList with
  | none => .ok none
  | some (scheme, _) =>
    if scheme.any fun c => c = '/' || c = '\\' then .ok none
    else if isScheme scheme then .ok (some (String.ofList scheme))
    else .error (.ambiguousLocation input)

/-- Of `authority/path?query`: the authority, and the path as it was written. -/
def authorityAndPath (remainder : List Char) : List Char × List Char :=
  (splitOnce '/' (remainder.takeWhile (· ≠ '?'))).getD (remainder.takeWhile (· ≠ '?'), [])

variable (crate : UrlCrate U)

def validateCanonicalUrlPath (input : String) (rawPath : List Char) (url : U) :
    Except (StorageError U) Unit :=
  let path := (crate.path url).toList
  let stripped := match path with
    | '/' :: rest => rest
    | _ => path
  if stripped = rawPath then .ok () else .error (.nonCanonicalUrlPath input)

def parseStorageUrl (input scheme : String) : Except (StorageError U) U := do
  let normalizedScheme := scheme.toLower
  if scheme ≠ normalizedScheme ∨ ¬ (scheme ++ "://").toList.isPrefixOf input.toList then
    throw (.nonCanonicalStorageUrl normalizedScheme input)
  if !hasValidPercentEncoding input then throw (.invalidPercentEncoding input)
  if input.toList.contains '#' then throw (.fragmentNotSupported input)
  let (authority, rawPath) := authorityAndPath (input.toList.drop (scheme.length + 3))
  if authority.contains '@' then throw (.userInfoNotSupported input)
  let url ← (crate.parse input).mapError (.invalidUrl input)
  if crate.username url ≠ "" ∨ (crate.password url).isSome then throw (.userInfoNotSupported input)
  validateCanonicalUrlPath crate input rawPath url
  if crate.asStr url ≠ input then throw (.nonCanonicalStorageUrl normalizedScheme input)
  return url

def parseFileUrl (input : String) (rawPath : List Char) : Except (StorageError U) U := do
  if !hasValidPercentEncoding input then throw (.invalidPercentEncoding input)
  if rawPath.contains '#' then throw (.fragmentNotSupported input)
  let url ← (crate.parse input).mapError (.invalidUrl input)
  validateCanonicalUrlPath crate input (rawPath.takeWhile (· ≠ '?')) url
  if crate.asStr url ≠ input then throw (.nonCanonicalFileUrl input)
  if (crate.toFilePath url).isNone then throw (.invalidFilePath input)
  return url

def Location.parseUrl (input : String) : Except (StorageError U) (Location U) :=
  if input = "" then .error .emptyLocation
  else if "file:///".toList.isPrefixOf input.toList then
    let rawPath := input.toList.drop 8
    if rawPath.head? = some '/' then .error (.nonCanonicalFileUrl input)
    else (parseFileUrl crate input rawPath).map .mk
  else do
    match ← schemeLikePrefix input with
    | some scheme =>
      if scheme.toLower = "file" then throw (.nonCanonicalFileUrl input)
      else (parseStorageUrl crate input scheme).map .mk
    | none => throw (.urlSchemeRequired input)

def LocationInput.parse (input : String) : Except (StorageError U) (LocationInput U) :=
  if input = "" then .error .emptyLocation
  else do
    match ← schemeLikePrefix input with
    | some _ => (Location.parseUrl crate input).map .url
    | none => return .bare input

-- ---------------------------------------------------------------------------
-- What an accepted URL is like
-- ---------------------------------------------------------------------------

variable {crate : UrlCrate U}

/-- A URL that is accepted prints as it was written, and its escapes are
complete. -/
structure Canonical (crate : UrlCrate U) (input : String) (url : U) : Prop where
  asStr : crate.asStr url = input
  escapes : hasValidPercentEncoding input = true

theorem parseStorageUrl_eq_ok : parseStorageUrl crate input scheme = .ok url ↔
    (scheme = scheme.toLower ∧ (scheme ++ "://").toList.isPrefixOf input.toList = true) ∧
      '#' ∉ input.toList ∧ '@' ∉ (authorityAndPath (input.toList.drop (scheme.length + 3))).1 ∧
      crate.parse input = .ok url ∧ (crate.username url = "" ∧ crate.password url = none) ∧
      validateCanonicalUrlPath crate input (authorityAndPath (input.toList.drop (scheme.length + 3))).2 url =
        .ok () ∧
      Canonical crate input url := by
  unfold parseStorageUrl
  simp only [Lists.ite_throw_ok, Lists.bind_eq_ok, Lists.mapError_eq_ok, List.contains_eq_mem]
  constructor
  · rintro ⟨hstart, hvalid, hfragment, hauthority, url', hparse, huser, _, hpath, hasStr, h⟩
    obtain rfl := Except.ok.inj h
    simp only [not_or, Decidable.not_not] at hstart huser hasStr
    exact ⟨hstart, by simpa using hfragment, by simpa using hauthority, hparse, by simpa using huser, hpath,
      hasStr, by simpa using hvalid⟩
  · rintro ⟨hstart, hfragment, hauthority, hparse, huser, hpath, hasStr, hvalid⟩
    exact ⟨by simpa using hstart, by simpa using hvalid, by simpa using hfragment, by simpa using hauthority, url,
      hparse, by simpa using huser, (), hpath, by simpa using hasStr, rfl⟩

theorem parseFileUrl_ok (h : parseFileUrl crate input rawPath = .ok url) :
    Canonical crate input url ∧ crate.parse input = .ok url ∧ '#' ∉ rawPath := by
  unfold parseFileUrl at h
  simp only [Lists.ite_throw_ok, Lists.bind_eq_ok, Lists.mapError_eq_ok, List.contains_eq_mem] at h
  obtain ⟨hvalid, hfragment, url', hparse, _, _, hasStr, _, h⟩ := h
  obtain rfl := Except.ok.inj h
  exact ⟨⟨Decidable.not_not.mp hasStr, by simpa using hvalid⟩, hparse, by simpa using hfragment⟩

theorem map_mk_ok {x : Except (StorageError U) U} (h : x.map Location.mk = .ok location) :
    x = .ok location.url := by
  obtain ⟨url, hurl, rfl⟩ := Lists.map_eq_ok.mp h
  exact hurl

theorem Location.parseUrl_cases (h : Location.parseUrl crate input = .ok location) :
    ("file:///".toList.isPrefixOf input.toList = true ∧
        parseFileUrl crate input (input.toList.drop 8) = .ok location.url) ∨
      ∃ scheme, schemeLikePrefix (U := U) input = .ok (some scheme) ∧ scheme.toLower ≠ "file" ∧
        parseStorageUrl crate input scheme = .ok location.url := by
  unfold Location.parseUrl at h
  split at h
  · cases h
  · split at h
    · rename_i hfile
      simp only at h
      split at h
      · cases h
      · exact .inl ⟨hfile, map_mk_ok h⟩
    · obtain ⟨scheme, hscheme, h⟩ := Lists.bind_eq_ok.mp h
      cases scheme with
      | none => cases h
      | some scheme =>
        simp only at h
        split at h
        · cases h
        · rename_i hother
          exact .inr ⟨scheme, hscheme, hother, map_mk_ok h⟩

theorem Location.parseUrl_of_storage {url : U} (hfile : "file:///".toList.isPrefixOf input.toList = false)
    (hscheme : schemeLikePrefix (U := U) input = .ok (some scheme)) (hother : scheme.toLower ≠ "file")
    (h : parseStorageUrl crate input scheme = .ok url) : Location.parseUrl crate input = .ok ⟨url⟩ := by
  have hne : input ≠ "" := by
    rintro rfl
    cases hscheme
  unfold Location.parseUrl
  rw [if_neg hne, if_neg (Bool.eq_false_iff.mp hfile), hscheme]
  change (if scheme.toLower = "file" then throw (.nonCanonicalFileUrl input)
    else (parseStorageUrl crate input scheme).map Location.mk) = _
  rw [if_neg hother, h]
  rfl

theorem parseUrl_ok (h : Location.parseUrl crate input = .ok location) :
    Canonical crate input location.url := by
  rcases Location.parseUrl_cases h with ⟨_, hfile⟩ | ⟨_, _, _, hstorage⟩
  · exact (parseFileUrl_ok hfile).1
  · exact (parseStorageUrl_eq_ok.mp hstorage).2.2.2.2.2.2

theorem parseUrl_parsed (h : Location.parseUrl crate input = .ok location) :
    crate.parse input = .ok location.url := by
  rcases Location.parseUrl_cases h with ⟨_, hfile⟩ | ⟨_, _, _, hstorage⟩
  · exact (parseFileUrl_ok hfile).2.1
  · exact (parseStorageUrl_eq_ok.mp hstorage).2.2.2.1

theorem parse_url_ok (h : LocationInput.parse crate input = .ok (.url location)) :
    Location.parseUrl crate input = .ok location := by
  unfold LocationInput.parse at h
  split at h
  · cases h
  · obtain ⟨scheme, _, h⟩ := Lists.bind_eq_ok.mp h
    cases scheme with
    | none => cases h
    | some scheme =>
      cases hparse : Location.parseUrl crate input with
      | error e => simp [hparse, Except.map] at h
      | ok parsed => simpa [hparse, Except.map] using h

-- ---------------------------------------------------------------------------
-- What the crate promises
-- ---------------------------------------------------------------------------

/-- A path segment that URL parsing takes as it is. It skips tabs and line
breaks wherever they are. -/
def PlainSegment (segment : List Char) : Prop :=
  segment ≠ [] ∧ segment ≠ ['.'] ∧ segment ≠ ['.', '.'] ∧
    ∀ c ∈ segment, c ≠ '/' ∧ c ≠ '\t' ∧ c ≠ '\n' ∧ c ≠ '\r'

def asciiLetter (b : UInt8) : Bool := (65 ≤ b && b ≤ 90) || (97 ≤ b && b ≤ 122)

def hasDriveBar : Bytes → Bool
  | letter :: mark :: rest =>
    mark = 124 && asciiLetter letter && (rest.head?.isNone || rest.head? = some 47)
  | _ => false

/-- In a `file` URL the bar becomes a colon. -/
def driveLetter (path : Bytes) : Bytes := if hasDriveBar path then path.set 1 58 else path

def PlainPath (path : List Char) : Prop :=
  path.head? = some '/' ∧ ∀ s ∈ path.tail.splitOn '/', s ≠ [] ∧ s ≠ ['.'] ∧ s ≠ ['.', '.']

def UrlCrate.decodedPath (crate : UrlCrate U) (url : U) : Bytes := Percent.decode (asBytes (crate.path url))

/-- Segments and file paths are encoded as needed, so that the path decodes to
them. -/
structure UrlCrate.Lawful (crate : UrlCrate U) : Prop where
  asStr_inj : ∀ u v, crate.asStr u = crate.asStr v → u = v
  withSegments : ∀ base segments url, (∀ s ∈ segments, PlainSegment s) →
    crate.withSegments base (segments.map String.ofList) = some url →
      crate.decodedPath url =
        47 :: if crate.scheme base = "file" then driveLetter (Text.utf8 (['/'].intercalate segments))
          else Text.utf8 (['/'].intercalate segments)
  fromFilePath : ∀ path url, PlainPath path → crate.fromFilePath (String.ofList path) = some url →
    crate.decodedPath url = Text.utf8 path

theorem hasDriveBar_eq {path : Bytes} (h : hasDriveBar path = true) :
    ∃ letter rest, path = letter :: 124 :: rest ∧ driveLetter path = letter :: 58 :: rest := by
  have hset : driveLetter path = path.set 1 58 := by rw [driveLetter, if_pos h]
  unfold hasDriveBar at h
  split at h
  · rename_i letter mark rest
    simp only [Bool.and_eq_true, decide_eq_true_eq] at h
    obtain ⟨⟨rfl, _⟩, _⟩ := h
    exact ⟨letter, rest, rfl, hset⟩
  · cases h

theorem driveLetter_getLast {path : Bytes} (h : path.getLast? ≠ some 47) :
    (driveLetter path).getLast? ≠ some 47 := by
  by_cases hp : hasDriveBar path = true
  · obtain ⟨letter, rest, rfl, heq⟩ := hasDriveBar_eq hp
    rw [heq]
    cases rest with
    | nil => simp
    | cons b rest => simpa using h
  · rwa [driveLetter, if_neg hp]

theorem driveLetter_inj {path path' : Bytes} (h : driveLetter path = driveLetter path')
    (hcount : path.count 58 = path'.count 58) : path = path' := by
  have hplain : ∀ {p : Bytes}, ¬ hasDriveBar p = true → driveLetter p = p := fun hp => if_neg hp
  by_cases hp : hasDriveBar path = true <;> by_cases hp' : hasDriveBar path' = true
  · obtain ⟨letter, rest, rfl, heq⟩ := hasDriveBar_eq hp
    obtain ⟨letter', rest', rfl, heq'⟩ := hasDriveBar_eq hp'
    rw [heq, heq'] at h
    obtain ⟨rfl, -, rfl⟩ := by simpa using h
    rfl
  · obtain ⟨letter, rest, rfl, heq⟩ := hasDriveBar_eq hp
    rw [heq, hplain hp'] at h
    subst h
    simp [List.count_cons] at hcount
  · obtain ⟨letter, rest, rfl, heq⟩ := hasDriveBar_eq hp'
    rw [heq, hplain hp] at h
    subst h
    simp [List.count_cons] at hcount
  · rwa [hplain hp, hplain hp'] at h

-- ---------------------------------------------------------------------------
-- Bare paths
-- ---------------------------------------------------------------------------

def absolutePath (currentDir path : List Char) : List Char :=
  if path.head? = some '/' then path
  else if currentDir.getLast? = some '/' then currentDir ++ path
  else currentDir ++ '/' :: path

def mapBareLocation (crate : UrlCrate U) (currentDir : List Char) (input : String) :
    Except String (Location U) :=
  let absolute := String.ofList (absolutePath currentDir input.toList)
  match crate.fromFilePath absolute with
  | some url => .ok ⟨url⟩
  | none => .error s!"filesystem path cannot be represented as a local file URL: {absolute}"

def IsDirectory (currentDir : List Char) : Prop := currentDir = ['/'] ∨ PlainPath currentDir

theorem PlainPath.getLast (h : PlainPath path) : path.getLast? ≠ some '/' := by
  intro hlast
  obtain ⟨hhead, hsegments⟩ := h
  obtain ⟨before, rfl⟩ := List.getLast?_eq_some_iff.mp hlast
  cases before with
  | nil => exact (hsegments [] (by simp)).1 rfl
  | cons c before =>
    refine (hsegments [] ?_).1 rfl
    rw [List.cons_append, List.tail_cons, List.splitOn_append_cons_self]
    simp

theorem absolutePath_plain (hdir : IsDirectory currentDir) (hpath : ∀ s ∈ path.splitOn '/',
    s ≠ [] ∧ s ≠ ['.'] ∧ s ≠ ['.', '.']) :
    ∃ before, (∀ path', path'.head? ≠ some '/' → absolutePath currentDir path' = before ++ path') ∧
      PlainPath (before ++ path) := by
  rcases hdir with rfl | hdir
  · refine ⟨['/'], fun path' h => by simp [absolutePath, h], by simp, ?_⟩
    simpa using hpath
  · have hlast := hdir.getLast
    refine ⟨currentDir ++ ['/'], fun path' h => by simp [absolutePath, h, hlast], ?_, ?_⟩
    · obtain ⟨c, rest, rfl⟩ := List.exists_cons_of_ne_nil (fun h : currentDir = [] => by
        rw [h] at hdir
        cases hdir.1)
      simpa using hdir.1
    · obtain ⟨c, rest, rfl⟩ := List.exists_cons_of_ne_nil (fun h : currentDir = [] => by
        rw [h] at hdir
        cases hdir.1)
      intro s hs
      rw [List.append_assoc, List.cons_append, List.tail_cons, List.singleton_append,
        List.splitOn_append_cons_self] at hs
      rcases List.mem_append.mp hs with hs | hs
      · exact hdir.2 s hs
      · exact hpath s hs

end SilkChiffon.Storage
