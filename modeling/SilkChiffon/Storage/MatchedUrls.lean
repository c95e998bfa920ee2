import SilkChiffon.Storage.ListingPrefix

/-!
# URLs of matched objects

A matched object gets the URL of its pattern with its own path. Path segments
are escaped by the URL crate, and then the metacharacters that it leaves as they
are, so that the URL names the object both as a location and as a pattern.
-/

namespace SilkChiffon.Storage

-- ---------------------------------------------------------------------------
-- The text of a URL
-- ---------------------------------------------------------------------------

/-- The parts of a URL. Which bytes of a path segment are escaped depends on the
scheme. -/
structure PathUrls (U : Type) extends UrlCrate U where
  authority : U → String
  query : U → Option String
  /-- The text in front of the path. -/
  beforePath : U → String
  cannotBeABase : U → Bool
  escapes : String → UInt8 → Bool

def queryText : Option String → List Char
  | some query => '?' :: query.toList
  | none => []

def pathSet (escapes : UInt8 → Bool) (b : UInt8) : Bool := b ≠ 47 && escapes b

def pathText (escapes : UInt8 → Bool) (path : List Char) : List Char :=
  (Percent.encode (pathSet escapes) (47 :: Text.utf8 path)).map Text.asciiChar

def ObjectPath.parts (path : ObjectPath) : List (List Char) :=
  if path.text = [] then [] else path.text.splitOn '/'

def escapeGlobs (path : List Char) : List Char :=
  path.flatMap fun c =>
    if c = '*' then "%2A".toList
    else if c = '[' then "%5B".toList
    else if c = ']' then "%5D".toList
    else [c]

/-- None where the URL cannot have path segments, at which the code panics. -/
def matchedUrl (urls : PathUrls U) (base : U) (objectPath : ObjectPath) : Option (Except (StorageError U) U) :=
  let query := urls.query base
  let exact := urls.setRootPath (urls.clearQuery base)
  (urls.withSegments exact (objectPath.parts.map String.ofList)).map fun exact =>
    let source := (urls.beforePath exact).toList ++ escapeGlobs (urls.path exact).toList ++ queryText query
    (Location.parseUrl urls.toUrlCrate (String.ofList source)).map (·.url)

section
variable (urls : PathUrls U)

def PathUrls.textWith (url : U) (path : List Char) : List Char :=
  (urls.beforePath url).toList ++ path ++ queryText (urls.query url)

/-- A URL with an authority that is parsed as it is and has no fragment; a `file`
URL has no host. -/
structure PathUrls.Routed (url : U) : Prop where
  parse : urls.parse (urls.asStr url) = .ok url
  start : (urls.scheme url ++ "://").toList.isPrefixOf (urls.asStr url).toList = true
  fragment : '#' ∉ (urls.asStr url).toList
  file : urls.scheme url = "file" → "file:///".toList.isPrefixOf (urls.asStr url).toList = true

structure PathUrls.SameStart (url url' : U) : Prop where
  scheme : urls.scheme url = urls.scheme url'
  authority : urls.authority url = urls.authority url'
  beforePath : urls.beforePath url = urls.beforePath url'
  cannotBeABase : urls.cannotBeABase url = urls.cannotBeABase url'

def NamesDrive (scheme : String) (path : List Char) : Prop :=
  scheme = "file" ∧ hasDriveBar (Text.utf8 path) = true

/-- What the crate documents: how a URL is written, that the setters set what
they say, and that a path which is escaped is parsed as it is. -/
structure PathUrls.Lawful : Prop where
  scheme : ∀ url, ∃ after, splitOnce ':' (urls.asStr url).toList = some ((urls.scheme url).toList, after)
  authority : ∀ url, ∀ c ∈ (urls.authority url).toList, c ≠ '/' ∧ c ≠ '?'
  beforePath : ∀ url, urls.Routed url →
    (urls.beforePath url).toList = (urls.scheme url ++ "://").toList ++ (urls.authority url).toList
  text : ∀ url, urls.Routed url → (urls.asStr url).toList = urls.textWith url (urls.path url).toList
  path : ∀ url, urls.Routed url → (urls.path url).toList = [] ∨ (urls.path url).toList.head? = some '/'
  clearQuery : ∀ url, urls.SameStart (urls.clearQuery url) url
  setRootPath : ∀ url, urls.SameStart (urls.setRootPath url) url
  withSegments : ∀ base, ∀ path : ObjectPath, urls.cannotBeABase base = false →
    ¬ NamesDrive (urls.scheme base) path.text →
      ∃ url, urls.withSegments base (path.parts.map String.ofList) = some url ∧ urls.SameStart url base ∧
        (urls.path url).toList = pathText (urls.escapes (urls.scheme base)) path.text
  escapes : ∀ scheme b, b ∈ [35, 37, 63] ∨ 128 ≤ b → urls.escapes scheme b = true
  dot : ∀ scheme, urls.escapes scheme 46 = false
  parsePath : ∀ base escapes, ∀ path : ObjectPath, urls.Routed base →
    (∀ b, urls.escapes (urls.scheme base) b = true → escapes b = true) → escapes 46 = false →
    ¬ NamesDrive (urls.scheme base) path.text →
      ∃ url, urls.parse (String.ofList (urls.textWith base (pathText escapes path.text))) = .ok url ∧
        (urls.asStr url).toList = urls.textWith base (pathText escapes path.text) ∧
        (urls.path url).toList = pathText escapes path.text ∧ urls.SameStart url base ∧
        urls.query url = urls.query base ∧ urls.username url = urls.username base ∧
        urls.password url = urls.password base
  fromFilePath : ∀ path url, urls.fromFilePath path = some url →
    "file:///".toList.isPrefixOf (urls.asStr url).toList = true

end

variable {U : Type} {urls : PathUrls U}

-- ---------------------------------------------------------------------------
-- Paths
-- ---------------------------------------------------------------------------

theorem ObjectPath.intercalate_parts (path : ObjectPath) : ['/'].intercalate path.parts = path.text := by
  unfold ObjectPath.parts
  split
  · rename_i hnil
    rw [hnil]
    rfl
  · exact List.intercalate_splitOn _

def isGlobByte (b : UInt8) : Bool := b = 42 || b = 91 || b = 93

theorem escapeGlobs_hexDigit (b : UInt8) : escapeGlobs ((Percent.encodeByte b).map Text.asciiChar) =
    (Percent.encodeByte b).map Text.asciiChar := by
  have hbytes : (List.range 256).all (fun n => escapeGlobs ((Percent.encodeByte (.ofNat n)).map Text.asciiChar) =
      (Percent.encodeByte (.ofNat n)).map Text.asciiChar) = true := by decide +kernel
  have hb := List.all_eq_true.mp hbytes b.toNat (List.mem_range.mpr b.toNat_lt)
  rw [UInt8.ofNat_toNat] at hb
  exact of_decide_eq_true hb

theorem escapeGlobs_encode {escapes : UInt8 → Bool} (h : ∀ b, 128 ≤ b → escapes b = true) (bytes : Bytes) :
    escapeGlobs ((Percent.encode escapes bytes).map Text.asciiChar) =
      (Percent.encode (fun b => escapes b || isGlobByte b) bytes).map Text.asciiChar := by
  induction bytes with
  | nil => rfl
  | cons b bytes ih =>
    have hplain : ∀ bs : Bytes, ∀ rest : List Char, escapeGlobs (bs.map Text.asciiChar ++ rest) =
        escapeGlobs (bs.map Text.asciiChar) ++ escapeGlobs rest := fun _ _ => List.flatMap_append
    rw [Percent.encode_cons, Percent.encode_cons, List.map_append, List.map_append, hplain, ih]
    congr 1
    cases hb : escapes b with
    | true => simpa using escapeGlobs_hexDigit b
    | false =>
      have hlt : b.toNat < 128 := by
        by_contra hhigh
        rw [h b (Nat.not_lt.mp hhigh)] at hb
        cases hb
      have hbytes : (List.range 128).all (fun n => escapeGlobs [Text.asciiChar (.ofNat n)] =
          (if isGlobByte (.ofNat n) then Percent.encodeByte (.ofNat n) else [.ofNat n]).map Text.asciiChar) = true := by
        decide +kernel
      have hb' := List.all_eq_true.mp hbytes b.toNat (List.mem_range.mpr hlt)
      rw [UInt8.ofNat_toNat] at hb'
      simpa using of_decide_eq_true hb'

structure Separates (escapes : UInt8 → Bool) : Prop where
  percent : escapes Percent.percent = true
  marks : ∀ b ∈ [35, 42, 63, 91, 93], escapes b = true
  high : ∀ b, 128 ≤ b → escapes b = true

theorem pathText_cons (escapes : UInt8 → Bool) (path : List Char) : pathText escapes path =
    '/' :: (Percent.encode (pathSet escapes) (Text.utf8 path)).map Text.asciiChar := rfl

theorem pathBytes_plain (h : Separates escapes) {bytes : Bytes}
    (hb : b ∈ Percent.encode (pathSet escapes) bytes) :
    b.toNat < 128 ∧ b.toNat ∉ [35, 42, 63, 91, 93] := by
  rcases Percent.mem_encode hb with hplain | rfl | ⟨hlow, hhigh⟩ | ⟨hlow, hhigh⟩
  · simp only [pathSet, Bool.and_eq_false_iff, decide_eq_false_iff_not, Decidable.not_not] at hplain
    rcases hplain with rfl | hplain
    · decide
    · constructor
      · by_contra hhigh
        rw [h.high b (Nat.not_lt.mp hhigh)] at hplain
        cases hplain
      · intro hmem
        have hmarks : UInt8.ofNat b.toNat ∈ [35, 42, 63, 91, 93].map UInt8.ofNat := List.mem_map_of_mem hmem
        rw [UInt8.ofNat_toNat] at hmarks
        rw [h.marks b hmarks] at hplain
        cases hplain
  · decide
  · have hlow : 48 ≤ b.toNat := hlow
    have hhigh : b.toNat ≤ 57 := hhigh
    simp only [List.mem_cons, List.not_mem_nil, or_false]
    omega
  · have hlow : 65 ≤ b.toNat := hlow
    have hhigh : b.toNat ≤ 70 := hhigh
    simp only [List.mem_cons, List.not_mem_nil, or_false]
    omega

theorem pathText_plain (h : Separates escapes) (hc : c ∈ pathText escapes path) :
    c.toNat < 128 ∧ c ∉ ['#', '*', '?', '[', ']'] := by
  obtain ⟨b, hb, rfl⟩ := List.mem_map.mp hc
  obtain ⟨hlt, hplain⟩ := pathBytes_plain h hb
  rw [Text.toNat_asciiChar]
  refine ⟨hlt, fun hmem => hplain ?_⟩
  have hnat : (Text.asciiChar b).toNat ∈ ['#', '*', '?', '[', ']'].map Char.toNat := List.mem_map_of_mem hmem
  rwa [Text.toNat_asciiChar] at hnat

theorem utf8_pathText (h : Separates escapes) (path : List Char) : Text.utf8 (pathText escapes path) =
    Percent.encode (pathSet escapes) (47 :: Text.utf8 path) :=
  Text.utf8_map_asciiChar fun _ hb => (pathBytes_plain h hb).1

theorem Separates.percent_path (h : Separates escapes) :
    pathSet escapes Percent.percent = true := by
  rw [pathSet, h.percent]
  rfl

theorem decode_pathText (h : Separates escapes) (path : List Char) :
    Percent.decode (Text.utf8 (pathText escapes path)) = 47 :: Text.utf8 path := by
  rw [utf8_pathText h, Percent.decode_encode h.percent_path]

theorem complete_pathText (h : Separates escapes) (path : List Char) :
    Percent.complete (Text.utf8 (pathText escapes path)) = true := by
  rw [utf8_pathText h, Percent.complete_encode h.percent_path]

theorem separates_globs (hurls : urls.Lawful) (scheme : String) :
    Separates fun b => urls.escapes scheme b || isGlobByte b where
  percent := by rw [hurls.escapes _ _ (.inl (by decide)), Bool.true_or]
  marks := by
    intro b hb
    simp only [List.mem_cons, List.not_mem_nil, or_false] at hb
    rw [Bool.or_eq_true]
    rcases hb with rfl | rfl | rfl | rfl | rfl
    · exact .inl (hurls.escapes _ _ (.inl (by decide)))
    · exact .inr rfl
    · exact .inl (hurls.escapes _ _ (.inl (by decide)))
    · exact .inr rfl
    · exact .inr rfl
  high b hb := by rw [hurls.escapes _ _ (.inr hb), Bool.true_or]

theorem escapeGlobs_pathText (hurls : urls.Lawful) (scheme : String) (path : List Char) :
    escapeGlobs (pathText (urls.escapes scheme) path) =
      pathText (fun b => urls.escapes scheme b || isGlobByte b) path := by
  have hhigh : ∀ b, 128 ≤ b → pathSet (urls.escapes scheme) b = true := by
    intro b hb
    rw [pathSet, hurls.escapes _ _ (.inr hb), Bool.and_true, decide_eq_true_eq]
    rintro rfl
    exact absurd hb (by decide)
  have hset : (fun b => pathSet (urls.escapes scheme) b || isGlobByte b) =
      pathSet fun b => urls.escapes scheme b || isGlobByte b := by
    funext b
    by_cases hb : b = 47
    · subst hb
      rfl
    · simp [pathSet, hb]
  rw [pathText, escapeGlobs_encode hhigh, hset, pathText]

-- ---------------------------------------------------------------------------
-- Routed URLs
-- ---------------------------------------------------------------------------

theorem scheme_of_file (hurls : urls.Lawful) (h : "file:///".toList.isPrefixOf (urls.asStr url).toList = true) :
    urls.scheme url = "file" := by
  obtain ⟨after, hsplit⟩ := hurls.scheme url
  obtain ⟨rest, hrest⟩ := List.isPrefixOf_iff_prefix.mp h
  have hwhole : (urls.asStr url).toList = "file".toList ++ ':' :: ("///".toList ++ rest) := by
    rw [← hrest]
    rfl
  rw [hwhole, splitOnce_of_notMem (by decide)] at hsplit
  exact String.toList_injective (Prod.mk.inj (Option.some.inj hsplit)).1.symm

theorem parseUrl_routed (hurls : urls.Lawful) (h : Location.parseUrl urls.toUrlCrate input = .ok location) :
    urls.Routed location.url := by
  have hparse := parseUrl_parsed h
  have hasStr : urls.asStr location.url = input := (parseUrl_ok h).asStr
  rcases Location.parseUrl_cases h with ⟨hshort, hfile⟩ | ⟨scheme, hscheme, hother, hstorage⟩
  · obtain ⟨rest, hrest⟩ := List.isPrefixOf_iff_prefix.mp hshort
    have hfragment := (parseFileUrl_ok hfile).2.2
    rw [← hrest] at hfragment
    refine ⟨by rwa [hasStr], ?_, ?_, fun _ => by rwa [hasStr]⟩
    · rw [scheme_of_file hurls (by rwa [hasStr]), hasStr, ← hrest]
      rfl
    · rw [hasStr, ← hrest, List.mem_append]
      rintro (hmem | hmem)
      · exact absurd hmem (by decide)
      · exact hfragment hmem
  · obtain ⟨⟨hlower, hstart⟩, hfragment, -⟩ := parseStorageUrl_eq_ok.mp hstorage
    obtain ⟨after, hsplit⟩ := hurls.scheme location.url
    obtain ⟨after', hsplit', -⟩ := schemeLikePrefix_ok hscheme
    have hschemeUrl : urls.scheme location.url = scheme := by
      rw [hasStr, hsplit'] at hsplit
      exact String.toList_injective (Prod.mk.inj (Option.some.inj hsplit)).1.symm
    refine ⟨by rwa [hasStr], by rwa [hschemeUrl, hasStr], by rwa [hasStr], fun hfile => ?_⟩
    rw [hschemeUrl, hlower] at hfile
    exact absurd hfile hother

theorem isScheme_plain (h : isScheme scheme = true) (hc : c ∈ scheme) : c.isAlphanum = true ∨ c ∈ ['+', '-', '.'] := by
  cases scheme with
  | nil => cases h
  | cons first characters =>
    simp only [isScheme, Bool.and_eq_true, List.all_eq_true, Bool.or_eq_true, List.contains_eq_mem,
      decide_eq_true_eq] at h
    rcases List.mem_cons.mp hc with rfl | hc
    · left
      rw [Char.isAlphanum, h.1, Bool.true_or]
    · exact h.2 c hc

theorem isScheme_ne (h : isScheme scheme = true) (hc : c.isAlphanum = false) (hc' : c ∉ ['+', '-', '.']) :
    c ∉ scheme := by
  intro hmem
  rcases isScheme_plain h hmem with halpha | hmark
  · rw [hc] at halpha
    cases halpha
  · exact hc' hmark

theorem schemeLikePrefix_of_isScheme {scheme input : String} (h : isScheme scheme.toList = true)
    (hsplit : splitOnce ':' input.toList = some (scheme.toList, after)) :
    schemeLikePrefix (U := U) input = .ok (some scheme) := by
  have hslash : ¬ (scheme.toList.any fun c => c = '/' || c = '\\') = true := by
    rw [Bool.not_eq_true, List.any_eq_false]
    intro c hc hslash
    have hc' : c = '/' ∨ c = '\\' := by simpa using hslash
    rcases hc' with rfl | rfl
    · exact isScheme_ne h (by decide) (by decide) hc
    · exact isScheme_ne h (by decide) (by decide) hc
  unfold schemeLikePrefix
  rw [hsplit]
  simp only [if_neg hslash, h, ↓reduceIte, String.ofList_toList]

theorem isScheme_scheme (hurls : urls.Lawful) (h : Location.parseUrl urls.toUrlCrate input = .ok ⟨url⟩) :
    isScheme (urls.scheme url).toList = true := by
  have hasStr : urls.asStr url = input := (parseUrl_ok h).asStr
  rcases Location.parseUrl_cases h with ⟨hshort, _⟩ | ⟨scheme, hscheme, _⟩
  · rw [scheme_of_file hurls (by rwa [hasStr])]
    rfl
  · obtain ⟨_, hsplit⟩ := hurls.scheme url
    obtain ⟨_, hsplit', hisScheme⟩ := schemeLikePrefix_ok hscheme
    rw [hasStr, hsplit'] at hsplit
    rwa [← (Prod.mk.inj (Option.some.inj hsplit)).1]

def PathUrls.behindScheme (urls : PathUrls U) (url : U) (path : List Char) : List Char :=
  (urls.authority url).toList ++ path ++ queryText (urls.query url)

theorem textWith_eq (hurls : urls.Lawful) (h : urls.Routed url) (path : List Char) :
    urls.textWith url path = (urls.scheme url ++ "://").toList ++ urls.behindScheme url path := by
  rw [PathUrls.textWith, hurls.beforePath url h, PathUrls.behindScheme]
  simp

theorem drop_textWith (hurls : urls.Lawful) (h : urls.Routed url) (path : List Char) :
    (urls.textWith url path).drop ((urls.scheme url).length + 3) = urls.behindScheme url path := by
  have hlength : (urls.scheme url ++ "://").toList.length = (urls.scheme url).length + 3 := by
    simp [String.length_toList]
  rw [textWith_eq hurls h, ← hlength, List.drop_left]

theorem splitOnce_textWith (hurls : urls.Lawful) (h : urls.Routed url) (path : List Char) : ∃ after,
    splitOnce ':' (urls.textWith url path) = some ((urls.scheme url).toList, after) := by
  obtain ⟨after, hsplit⟩ := hurls.scheme url
  have hscheme : ':' ∉ (urls.scheme url).toList := by
    unfold splitOnce at hsplit
    split at hsplit
    · cases hsplit
    · rw [← (Prod.mk.inj (Option.some.inj hsplit)).1]
      intro hmem
      simpa using List.mem_takeWhile_imp hmem
  refine ⟨"//".toList ++ urls.behindScheme url path, ?_⟩
  have hwhole : urls.textWith url path =
      (urls.scheme url).toList ++ ':' :: ("//".toList ++ urls.behindScheme url path) := by
    rw [textWith_eq hurls h]
    simp
  rw [hwhole, splitOnce_of_notMem hscheme]

theorem authorityAndPath_fst {authority rest : List Char} (hauthority : ∀ c ∈ authority, c ≠ '/' ∧ c ≠ '?')
    (hrest : rest = [] ∨ rest.head? = some '/' ∨ rest.head? = some '?') :
    (authorityAndPath (authority ++ rest)).1 = authority := by
  have hslash : '/' ∉ authority := fun hmem => (hauthority _ hmem).1 rfl
  have htake : (authority ++ rest).takeWhile (fun c => decide (c ≠ '?')) =
      authority ++ rest.takeWhile fun c => decide (c ≠ '?') :=
    List.takeWhile_append_of_pos fun c hc => decide_eq_true (hauthority c hc).2
  rw [authorityAndPath, htake]
  rcases hrest with rfl | hrest | hrest
  · rw [List.takeWhile_nil, List.append_nil, splitOnce_eq_none hslash]
    rfl
  · obtain ⟨more, rfl⟩ := List.head?_eq_some_iff.mp hrest
    rw [List.takeWhile_cons_of_pos (by decide), splitOnce_of_notMem hslash]
    rfl
  · obtain ⟨more, rfl⟩ := List.head?_eq_some_iff.mp hrest
    rw [List.takeWhile_cons_of_neg (by decide), List.append_nil, splitOnce_eq_none hslash]
    rfl

theorem head?_queryText (query : Option String) :
    queryText query = [] ∨ (queryText query).head? = some '?' := by
  cases query with
  | none => exact .inl rfl
  | some query => exact .inr rfl

theorem authorityAndPath_behindScheme (hurls : urls.Lawful) (url : U)
    (hpath : path = [] ∨ path.head? = some '/') :
    (authorityAndPath (urls.behindScheme url path)).1 = (urls.authority url).toList := by
  rw [PathUrls.behindScheme, List.append_assoc]
  refine authorityAndPath_fst (hurls.authority url) ?_
  rcases hpath with rfl | hpath
  · exact (head?_queryText _).imp_right .inr
  · obtain ⟨more, rfl⟩ := List.head?_eq_some_iff.mp hpath
    exact .inr (.inl rfl)

structure Rewritten (urls : PathUrls U) (base : U) (escapes : UInt8 → Bool) (path : ObjectPath) (url : U) : Prop where
  asStr : (urls.asStr url).toList = urls.textWith base (pathText escapes path.text)
  path : (urls.path url).toList = pathText escapes path.text
  start : urls.SameStart url base
  query : urls.query url = urls.query base

theorem path_pathText (escapes : UInt8 → Bool) (path : List Char) :
    (pathText escapes path).head? = some '/' := by
  rw [pathText_cons]
  rfl

theorem takeWhile_pathText (h : Separates escapes) (path : List Char) (query : Option String) :
    (pathText escapes path ++ queryText query).takeWhile (fun c => decide (c ≠ '?')) = pathText escapes path := by
  have hpath : ∀ c ∈ pathText escapes path, decide (c ≠ '?') = true := by
    intro c hc
    have hplain := (pathText_plain h hc).2
    rw [decide_eq_true_eq]
    rintro rfl
    exact hplain (by decide)
  rw [List.takeWhile_append_of_pos hpath]
  rcases head?_queryText query with hquery | hquery
  · rw [hquery, List.takeWhile_nil, List.append_nil]
  · obtain ⟨more, hmore⟩ := List.head?_eq_some_iff.mp hquery
    rw [hmore, List.takeWhile_cons_of_neg (by decide), List.append_nil]

theorem authorityAndPath_pathText (hurls : urls.Lawful) (h : Separates escapes) (path : List Char) :
    authorityAndPath (urls.behindScheme url (pathText escapes path)) =
      ((urls.authority url).toList, (pathText escapes path).tail) := by
  have hauthority := hurls.authority url
  have htake : (urls.behindScheme url (pathText escapes path)).takeWhile (fun c => decide (c ≠ '?')) =
      (urls.authority url).toList ++ pathText escapes path := by
    rw [PathUrls.behindScheme, List.append_assoc,
      List.takeWhile_append_of_pos fun c hc => decide_eq_true (hauthority c hc).2, takeWhile_pathText h]
  rw [authorityAndPath, htake, pathText_cons, splitOnce_of_notMem fun hmem => (hauthority _ hmem).1 rfl]
  rfl

theorem complete_around {before path : List Char} (hpath : path = [] ∨ path.head? = some '/')
    (h : Percent.complete (Text.utf8 (before ++ path ++ queryText query)) = true) :
    Percent.complete (Text.utf8 before) = true ∧ Percent.complete (Text.utf8 (queryText query)) = true := by
  rw [Text.utf8_append] at h
  have hfront : Percent.complete (Text.utf8 (before ++ path)) = true ∧
      Percent.complete (Text.utf8 (queryText query)) = true := by
    cases query with
    | none => exact ⟨by simpa [queryText] using h, rfl⟩
    | some query =>
      have h : Percent.complete (Text.utf8 (before ++ path) ++ 63 :: Text.utf8 query.toList) = true := h
      obtain ⟨hfront, hrest⟩ := Percent.complete_split (b := 63) rfl (by decide) h
      exact ⟨hfront, (Percent.complete_cons_of_ne (by decide)).trans hrest⟩
  refine ⟨?_, hfront.2⟩
  rcases hpath with rfl | hpath
  · simpa using hfront.1
  · obtain ⟨more, rfl⟩ := List.head?_eq_some_iff.mp hpath
    have hbefore := hfront.1
    rw [Text.utf8_append] at hbefore
    have hbefore : Percent.complete (Text.utf8 before ++ 47 :: Text.utf8 more) = true := hbefore
    exact Percent.complete_of_append rfl hbefore

theorem textWith_wellFormed (hurls : urls.Lawful) (hbase : urls.Routed base)
    (hvalid : hasValidPercentEncoding (urls.asStr base) = true) (h : Separates escapes) (path : List Char) :
    hasValidPercentEncoding (String.ofList (urls.textWith base (pathText escapes path))) = true ∧
      '#' ∉ urls.textWith base (pathText escapes path) := by
  have hfragment := hbase.fragment
  rw [hasValidPercentEncoding, asBytes, hurls.text base hbase, PathUrls.textWith] at hvalid
  rw [hurls.text base hbase, PathUrls.textWith] at hfragment
  obtain ⟨hbefore, hquery⟩ := complete_around (hurls.path base hbase) hvalid
  constructor
  · rw [hasValidPercentEncoding, asBytes, String.toList_ofList, PathUrls.textWith, Text.utf8_append, Text.utf8_append,
      List.append_assoc, Percent.complete_append hbefore, Percent.complete_append (complete_pathText h path)]
    exact hquery
  · intro hmem
    rcases List.mem_append.mp hmem with hmem | hmem
    · rcases List.mem_append.mp hmem with hmem | hmem
      · exact hfragment (List.mem_append_left _ (List.mem_append_left _ hmem))
      · exact (pathText_plain h hmem).2 (by decide)
    · exact hfragment (List.mem_append_right _ hmem)

section Reparsed

variable {input : String} {base url : U} {escapes : UInt8 → Bool} {path : ObjectPath}

structure PathEscapes (urls : PathUrls U) (base : U) (escapes : UInt8 → Bool) : Prop where
  separates : Separates escapes
  more : ∀ b, urls.escapes (urls.scheme base) b = true → escapes b = true
  dot : escapes 46 = false

theorem pathEscapes_globs (hurls : urls.Lawful) (base : U) :
    PathEscapes urls base fun b => urls.escapes (urls.scheme base) b || isGlobByte b where
  separates := separates_globs hurls _
  more b hb := by rw [hb, Bool.true_or]
  dot := by
    rw [hurls.dot]
    rfl

theorem rewritten_of_parsed (hurls : urls.Lawful) (hbase : urls.Routed base) (hescapes : PathEscapes urls base escapes)
    (hdrive : ¬ NamesDrive (urls.scheme base) path.text)
    (h : Location.parseUrl urls.toUrlCrate (String.ofList (urls.textWith base (pathText escapes path.text))) =
      .ok location) : Rewritten urls base escapes path location.url := by
  obtain ⟨url, hparse, hasStr, hpath, hstart, hquery, -⟩ :=
    hurls.parsePath base escapes path hbase hescapes.more hescapes.dot hdrive
  obtain rfl := Except.ok.inj ((parseUrl_parsed h).symm.trans hparse)
  exact ⟨hasStr, hpath, hstart, hquery⟩

/-- The new text is a location wherever the old one was none of a file. -/
theorem location_textWith (hurls : urls.Lawful) (hbase : Location.parseUrl urls.toUrlCrate input = .ok ⟨base⟩)
    (hescapes : PathEscapes urls base escapes) (hfile : urls.scheme base ≠ "file") (path : ObjectPath) : ∃ url,
      Location.parseUrl urls.toUrlCrate (String.ofList (urls.textWith base (pathText escapes path.text))) =
        .ok ⟨url⟩ := by
  have hrouted : urls.Routed base := parseUrl_routed hurls hbase
  have hcanonical : Canonical urls.toUrlCrate input base := parseUrl_ok hbase
  have hasStr : urls.asStr base = input := hcanonical.asStr
  rcases Location.parseUrl_cases hbase with ⟨hshort, _⟩ | ⟨scheme, hscheme, hother, hstorage⟩
  · exact absurd (scheme_of_file hurls (by rwa [hasStr])) hfile
  obtain ⟨⟨hlower, _⟩, _, hauthority, _, huser, _⟩ := parseStorageUrl_eq_ok.mp hstorage
  obtain ⟨url, hparse, hurlText, hpath, hstart, hquery, husername, hpassword⟩ :=
    hurls.parsePath base escapes path hrouted hescapes.more hescapes.dot fun h => hfile h.1
  obtain ⟨hvalid, hfragment⟩ := textWith_wellFormed hurls hrouted
    (by rw [hasStr]; exact hcanonical.escapes) hescapes.separates path.text
  obtain ⟨after, hsplit⟩ := splitOnce_textWith hurls hrouted (pathText escapes path.text)
  obtain ⟨before, hbefore, hisScheme⟩ := schemeLikePrefix_ok hscheme
  obtain ⟨_, hsplitBase⟩ := splitOnce_textWith hurls hrouted (urls.path base).toList
  rw [← hurls.text base hrouted, hasStr, hbefore] at hsplitBase
  obtain rfl : urls.scheme base = scheme :=
    String.toList_injective (Prod.mk.inj (Option.some.inj hsplitBase)).1.symm
  have hdropBase := drop_textWith hurls hrouted (urls.path base).toList
  rw [← hurls.text base hrouted, hasStr] at hdropBase
  rw [hdropBase, authorityAndPath_behindScheme hurls base (hurls.path base hrouted)] at hauthority
  have htext : String.ofList (urls.textWith base (pathText escapes path.text)) = urls.asStr url := by
    rw [← hurlText, String.ofList_toList]
  refine ⟨url, Location.parseUrl_of_storage ?_ (schemeLikePrefix_of_isScheme hisScheme (by simpa using hsplit)) hother
    (parseStorageUrl_eq_ok.mpr ⟨⟨hlower, ?_⟩, ?_, ?_, hparse, ?_, ?_, htext.symm, hvalid⟩)⟩
  · rw [Bool.eq_false_iff, htext]
    exact fun hshort => hfile (hstart.scheme ▸ scheme_of_file hurls hshort)
  · rw [String.toList_ofList, textWith_eq hurls hrouted]
    exact List.isPrefixOf_iff_prefix.mpr (List.prefix_append _ _)
  · simpa using hfragment
  · rw [String.toList_ofList, drop_textWith hurls hrouted, authorityAndPath_pathText hurls hescapes.separates]
    exact hauthority
  · rwa [husername, hpassword]
  · rw [String.toList_ofList, drop_textWith hurls hrouted, authorityAndPath_pathText hurls hescapes.separates]
    simp [validateCanonicalUrlPath, hpath, pathText_cons]

end Reparsed

-- ---------------------------------------------------------------------------
-- Patterns without metacharacters
-- ---------------------------------------------------------------------------

theorem splitOnceAt_ok (h : splitOnceAt separator text = some (before, after)) :
    text = before ++ (separator ++ after) := by
  induction text generalizing before with
  | nil => cases h
  | cons c rest ih =>
    unfold splitOnceAt at h
    split at h
    · rename_i hshort
      obtain ⟨rest', hrest⟩ := List.isPrefixOf_iff_prefix.mp hshort
      obtain ⟨rfl, rfl⟩ := Prod.mk.inj (Option.some.inj h)
      rw [← hrest, List.drop_left]
      rfl
    · obtain ⟨⟨before', after'⟩, hsplit, hparts⟩ := Option.map_eq_some_iff.mp h
      obtain ⟨rfl, rfl⟩ := Prod.mk.inj hparts
      rw [ih hsplit, List.cons_append]

theorem splitOnceAt_eq_none (h : c ∉ text) : splitOnceAt (c :: separator) text = none := by
  induction text with
  | nil => rfl
  | cons d rest ih =>
    have hne : (c == d) = false := by
      rw [beq_eq_false_iff_ne]
      rintro rfl
      exact h List.mem_cons_self
    rw [splitOnceAt, List.isPrefixOf, hne, Bool.false_and, if_neg Bool.false_ne_true,
      ih fun hmem => h (List.mem_cons_of_mem _ hmem)]
    rfl

theorem splitOnceAt_of_notMem (h : c ∉ before) :
    splitOnceAt (c :: separator) (before ++ c :: (separator ++ after)) = some (before, after) := by
  induction before with
  | nil =>
    have hshort : (c :: separator).isPrefixOf (c :: (separator ++ after)) = true :=
      List.isPrefixOf_iff_prefix.mpr ⟨after, rfl⟩
    rw [List.nil_append, splitOnceAt, if_pos hshort, List.length_cons, List.drop_succ_cons, List.drop_left]
  | cons d before ih =>
    have hne : (c == d) = false := by
      rw [beq_eq_false_iff_ne]
      rintro rfl
      exact h List.mem_cons_self
    rw [List.cons_append, splitOnceAt, List.isPrefixOf, hne, Bool.false_and, if_neg Bool.false_ne_true,
      ih fun hmem => h (List.mem_cons_of_mem _ hmem)]
    rfl

/-- Whether a pattern's authority has metacharacters that belong to no address. -/
def globInAuthority (crate : UrlCrate U) (scheme : String) (authority : List Char) : Bool :=
  (authority.any fun c => c = '*' || c = '?') || ((authority.contains '[' || authority.contains ']') &&
    !(crate.parse (scheme ++ "://" ++ String.ofList authority ++ "/")).isOk)

variable {P : Type} {crate : UrlCrate U} {glob : GlobCrate P} {paths : ObjectPathCrate}

theorem parseUrl_authority (h : LocationPattern.parseUrl crate glob input = .ok pattern)
    (hscheme : schemeLikePrefix (U := U) input = .ok (some scheme)) :
    globInAuthority crate scheme (urlPatternParts scheme input).authority = false := by
  unfold LocationPattern.parseUrl at h
  simp only [Lists.ite_throw_ok, Lists.bind_eq_ok, Lists.mapError_eq_ok] at h
  obtain ⟨_, _, scheme?, hscheme', h⟩ := h
  obtain rfl := Except.ok.inj (hscheme.symm.trans hscheme')
  simp only [Lists.ite_throw_ok, Lists.bind_eq_ok, Lists.mapError_eq_ok] at h
  obtain ⟨_, hauthority, _⟩ := h
  simpa [globInAuthority] using hauthority

theorem validateRecursiveGlobs_plain (h : hasActiveGlob path = false) (input : String) :
    validateRecursiveGlobs (U := U) path input = .ok () := by
  have hstar : '*' ∉ path := by
    intro hmem
    rw [hasActiveGlob, List.any_eq_false] at h
    exact h _ hmem rfl
  have hnone : ∀ segment ∈ path.splitOn '/', splitOnceAt "**".toList segment = none := by
    intro segment hsegment
    exact splitOnceAt_eq_none fun hmem => hstar (Lists.mem_of_mem_splitOn hsegment hmem)
  unfold validateRecursiveGlobs
  rw [if_neg]
  rw [List.any_eq_true]
  rintro ⟨segment, hsegment, hrecursive⟩
  rw [hnone segment hsegment] at hrecursive
  cases hrecursive

/-- A pattern without metacharacters names what its text names as a location. -/
theorem parseUrl_exact (scheme : String) (hne : input ≠ "") (hglob : globBeforeUrlSeparator input = false)
    (hscheme : schemeLikePrefix (U := U) input = .ok (some scheme))
    (hstart : (scheme ++ "://").toList.isPrefixOf input.toList = true)
    (hauthority : globInAuthority crate scheme (urlPatternParts scheme input).authority = false)
    (hfragment : (urlPatternParts scheme input).rawPath.contains '#' = false ∧
      ((urlPatternParts scheme input).query.any (·.contains '#')) = false)
    (hplain : hasActiveGlob (urlPatternParts scheme input).rawPath = false)
    (hlocation : Location.parseUrl crate (canonicalPatternUrl (urlPatternParts scheme input).beforeQuery
      (urlPatternParts scheme input).pathStart (urlPatternParts scheme input).query) = .ok location) :
    LocationPattern.parseUrl crate glob input = .ok ⟨.exact (.url location)⟩ := by
  unfold LocationPattern.parseUrl
  simp only [Lists.ite_throw_ok, Lists.bind_eq_ok, Lists.mapError_eq_ok]
  refine ⟨hne, by simp [hglob], some scheme, hscheme, ?_⟩
  simp only [Lists.ite_throw_ok, Lists.bind_eq_ok, Lists.mapError_eq_ok]
  refine ⟨by simpa using hstart, by simpa [globInAuthority] using hauthority, by simpa using hfragment, (),
    validateRecursiveGlobs_plain hplain input, location, hlocation, ?_⟩
  rw [hplain]
  rfl

-- ---------------------------------------------------------------------------
-- Bases
-- ---------------------------------------------------------------------------

theorem fromFilePath_authority (hurls : urls.Lawful) (h : urls.Routed url)
    (hfile : "file:///".toList.isPrefixOf (urls.asStr url).toList = true) : (urls.authority url).toList = [] := by
  obtain ⟨rest, hrest⟩ := List.isPrefixOf_iff_prefix.mp hfile
  have hscheme := scheme_of_file hurls hfile
  have htext := hurls.text url h
  have hbehind : urls.behindScheme url (urls.path url).toList = '/' :: rest := by
    rw [← drop_textWith hurls h, ← htext, ← hrest, hscheme]
    rfl
  have hauthority := authorityAndPath_behindScheme hurls url (hurls.path url h)
  have hnone : (authorityAndPath ([] ++ '/' :: rest)).1 = [] := authorityAndPath_fst (by simp) (.inr (.inl rfl))
  rw [hbehind] at hauthority
  rw [← hauthority, ← hnone]
  rfl

theorem take_pathStart (hparsed : ParsedPattern crate input scheme location)
    (hactive : hasActiveGlob (LocationPattern.rawPath input) = true) : ∃ more,
    (urlPatternParts scheme input).beforeQuery = (scheme ++ "://").toList ++
      ((urlPatternParts scheme input).authority ++ '/' :: more) ∧
    (urlPatternParts scheme input).pathStart =
      ((scheme ++ "://").toList ++ (urlPatternParts scheme input).authority).length := by
  have hstart : (urlPatternParts scheme input).pathStart =
      ((scheme ++ "://").toList ++ (urlPatternParts scheme input).authority).length := by
    rw [List.length_append, String.length_toList, String.length_append]
    rfl
  obtain ⟨more, hmore⟩ : ∃ more, (urlPatternParts scheme input).beforeQuery.drop
      (urlPatternParts scheme input).pathStart = '/' :: more := by
    rw [rawPath_eq hparsed.explicit, UrlPatternParts.rawPath] at hactive
    split at hactive
    · exact ⟨_, by assumption⟩
    · cases hactive
  obtain ⟨after, hafter⟩ : ∃ after, input.toList = (urlPatternParts scheme input).beforeQuery ++ after := by
    rw [urlPatternParts]
    cases hsplit : splitOnceAt "??".toList input.toList with
    | none => exact ⟨[], (List.append_nil _).symm⟩
    | some parts => exact ⟨_, splitOnceAt_ok hsplit⟩
  obtain ⟨rest, hrest⟩ := List.isPrefixOf_iff_prefix.mp hparsed.start
  have hauthority : (scheme ++ "://").toList ++ (urlPatternParts scheme input).authority <+: input.toList := by
    have hdrop : input.toList.drop (scheme.length + 3) = rest := by
      have hlength : (scheme ++ "://").toList.length = scheme.length + 3 := by
        rw [String.length_toList, String.length_append]
        rfl
      rw [← hrest, ← hlength, List.drop_left]
    rw [← hrest]
    refine (List.prefix_append_right_inj _).mpr ?_
    rw [urlPatternParts, hdrop]
    exact List.takeWhile_prefix _
  have htake : (urlPatternParts scheme input).beforeQuery.take (urlPatternParts scheme input).pathStart =
      (scheme ++ "://").toList ++ (urlPatternParts scheme input).authority := by
    have hle : (urlPatternParts scheme input).pathStart ≤ (urlPatternParts scheme input).beforeQuery.length := by
      by_contra hlt
      rw [List.drop_eq_nil_of_le (by omega)] at hmore
      cases hmore
    obtain ⟨rest', hrest'⟩ := hauthority
    have hwhole := congrArg (List.take (urlPatternParts scheme input).pathStart) (hafter.symm.trans hrest'.symm)
    rwa [List.take_append_of_le_length hle, hstart, List.take_left, ← hstart] at hwhole
  refine ⟨more, ?_, hstart⟩
  rw [← List.append_assoc, ← htake, ← hmore, List.take_append_drop]

theorem authority_eq (hurls : urls.Lawful) (hparsed : ParsedPattern urls.toUrlCrate input scheme ⟨base⟩)
    (hauthority : globInAuthority urls.toUrlCrate scheme (urlPatternParts scheme input).authority = false)
    (hactive : hasActiveGlob (LocationPattern.rawPath input) = true) :
    urls.scheme base = scheme ∧ (urls.authority base).toList = (urlPatternParts scheme input).authority := by
  obtain ⟨more, hbefore, hstart⟩ := take_pathStart hparsed hactive
  have hrouted : urls.Routed base := parseUrl_routed hurls hparsed.canonical
  have hasStr : urls.asStr base = _ := (parseUrl_ok hparsed.canonical).asStr
  obtain ⟨more', hcanonical⟩ : ∃ more', (urls.asStr base).toList =
      (scheme ++ "://").toList ++ ((urlPatternParts scheme input).authority ++ '/' :: more') := by
    rw [hasStr]
    unfold canonicalPatternUrl
    rw [String.toList_ofList, hstart, hbefore, ← List.append_assoc, List.take_left, List.drop_left]
    exact ⟨_, by rw [List.append_assoc, List.append_assoc]; rfl⟩
  have hscheme : urls.scheme base = scheme := by
    obtain ⟨_, hsplit⟩ := hurls.scheme base
    obtain ⟨_, _, hisScheme⟩ := schemeLikePrefix_ok hparsed.explicit
    have hwhole : (urls.asStr base).toList = scheme.toList ++ ':' ::
        ("//".toList ++ ((urlPatternParts scheme input).authority ++ '/' :: more')) := by
      rw [hcanonical, String.toList_append, List.append_assoc]
      rfl
    rw [hwhole, splitOnce_of_notMem (isScheme_ne hisScheme (by decide) (by decide))] at hsplit
    exact String.toList_injective (Prod.mk.inj (Option.some.inj hsplit)).1.symm
  have hbehind : urls.behindScheme base (urls.path base).toList =
      (urlPatternParts scheme input).authority ++ '/' :: more' := by
    have htext := hurls.text base hrouted
    rw [textWith_eq hurls hrouted, hcanonical, hscheme] at htext
    exact (List.append_cancel_left htext).symm
  have hplain : ∀ c ∈ (urlPatternParts scheme input).authority, c ≠ '/' ∧ c ≠ '?' := by
    intro c hc
    refine ⟨?_, ?_⟩
    · change c ∈ (input.toList.drop (scheme.length + 3)).takeWhile fun c => decide (c ≠ '/') at hc
      simpa using List.mem_takeWhile_imp hc
    · rintro rfl
      rw [globInAuthority, Bool.or_eq_false_iff, List.any_eq_false] at hauthority
      exact hauthority.1 _ hc rfl
  refine ⟨hscheme, ?_⟩
  rw [← authorityAndPath_behindScheme hurls base (hurls.path base hrouted), hbehind]
  exact authorityAndPath_fst hplain (.inr (.inl rfl))

/-- What a base of a pattern is like: a location without metacharacters in its
authority. -/
structure PatternBase (urls : PathUrls U) (base : U) : Prop where
  located : Location.parseUrl urls.toUrlCrate (urls.asStr base) = .ok ⟨base⟩
  authority : globInAuthority urls.toUrlCrate (urls.scheme base) (urls.authority base).toList = false

theorem Accepted.patternBase (hurls : urls.Lawful)
    (h : Accepted urls.toUrlCrate glob paths ⟨.url source ⟨base⟩ matcher literalPrefix⟩) : PatternBase urls base := by
  cases h with
  | url hparse hactive =>
    rename_i input
    obtain ⟨scheme, location, hparsed, ⟨_, hpattern⟩ | ⟨_, _, _, _, _, _, _, hpattern⟩⟩ := parseUrl_cases hparse
    · cases hpattern
    obtain ⟨-, hbase, -, -⟩ : source = input ∧ (⟨base⟩ : Location U) = location ∧ _ ∧ _ := by
      simpa using hpattern
    subst hbase
    have hauthority := parseUrl_authority hparse hparsed.explicit
    obtain ⟨hscheme, hsame⟩ := authority_eq hurls hparsed hauthority hactive
    refine ⟨?_, by rwa [hscheme, hsame]⟩
    have hasStr : urls.asStr base = _ := (parseUrl_ok hparsed.canonical).asStr
    rw [hasStr]
    exact hparsed.canonical
  | filePath hparse _ =>
    obtain ⟨path, url, location, _, _, _, _, hpattern, ⟨hurl, hlocation⟩, -⟩ := fromFilePathPattern_ok hparse
    obtain ⟨-, hbase, -, -⟩ : _ ∧ (⟨base⟩ : Location U) = location ∧ _ ∧ _ := by simpa using hpattern
    subst hbase
    have hasStr : urls.asStr base = urls.asStr url := (parseUrl_ok hlocation).asStr
    have hfile : "file:///".toList.isPrefixOf (urls.asStr base).toList = true := by
      rw [hasStr]
      unfold fromFilePath at hurl
      split at hurl
      · rename_i hpath
        rw [← Except.ok.inj hurl]
        exact hurls.fromFilePath _ _ hpath
      · cases hurl
    refine ⟨by rwa [hasStr], ?_⟩
    rw [fromFilePath_authority hurls (parseUrl_routed hurls hlocation) hfile]
    rfl

-- ---------------------------------------------------------------------------
-- Matched URLs as patterns
-- ---------------------------------------------------------------------------

def patternQueryText : Option String → List Char
  | some query => '?' :: '?' :: query.toList
  | none => []

/-- The text of a URL as a pattern, where two question marks start a query. -/
def PathUrls.patternText (urls : PathUrls U) (url : U) : String :=
  String.ofList ((urls.beforePath url).toList ++ (urls.path url).toList ++ patternQueryText (urls.query url))

theorem canonical_pathText (h : Separates escapes) (path : List Char) :
    (Text.utf8 (pathText escapes path)).flatMap canonicalByte = pathText escapes path := by
  have hbyte : ∀ b ∈ Percent.encode (pathSet escapes) (47 :: Text.utf8 path), canonicalByte b = [Text.asciiChar b] := by
    intro b hb
    have hplain := (pathBytes_plain h hb).2
    unfold canonicalByte
    rw [if_neg, if_neg, if_neg, if_neg] <;> rintro rfl <;> exact hplain (by decide)
  rw [utf8_pathText h, pathText, List.map_eq_flatMap]
  exact List.flatMap_congr hbyte

theorem urlPatternParts_patternText {scheme : String} {authority path : List Char}
    (hscheme : isScheme scheme.toList = true) (hauthority : ∀ c ∈ authority, c ≠ '/' ∧ c ≠ '?')
    (hpath : path.head? = some '/') (hplain : '?' ∉ path) (query : Option String) :
    urlPatternParts scheme (String.ofList ((scheme ++ "://").toList ++ authority ++ path ++ patternQueryText query)) =
      ⟨authority, (scheme ++ "://").toList ++ authority ++ path, query.map (·.toList),
        ((scheme ++ "://").toList ++ authority).length⟩ := by
  have hlength : (scheme ++ "://").toList.length = scheme.length + 3 := by
    rw [String.length_toList, String.length_append]
    rfl
  have htake : (((scheme ++ "://").toList ++ authority ++ path ++ patternQueryText query).drop
      (scheme.length + 3)).takeWhile (fun c => decide (c ≠ '/')) = authority := by
    obtain ⟨more, rfl⟩ := List.head?_eq_some_iff.mp hpath
    rw [← hlength, List.append_assoc, List.append_assoc, List.drop_left,
      List.takeWhile_append_of_pos fun c hc => decide_eq_true (hauthority c hc).1, List.cons_append,
      List.takeWhile_cons_of_neg (by decide), List.append_nil]
  have hbefore : '?' ∉ (scheme ++ "://").toList ++ authority ++ path := by
    rw [String.toList_append]
    simp only [List.mem_append, not_or]
    exact ⟨⟨⟨isScheme_ne hscheme (by decide) (by decide), by decide⟩, fun hmem => (hauthority _ hmem).2 rfl⟩, hplain⟩
  have hsplit : splitOnceAt "??".toList ((scheme ++ "://").toList ++ authority ++ path ++ patternQueryText query) =
      query.map fun query => ((scheme ++ "://").toList ++ authority ++ path, query.toList) := by
    cases query with
    | none =>
      rw [patternQueryText, List.append_nil]
      exact splitOnceAt_eq_none hbefore
    | some query =>
      have hsplit : splitOnceAt ('?' :: ['?']) (_ ++ '?' :: (['?'] ++ query.toList)) = _ := splitOnceAt_of_notMem hbefore
      exact hsplit
  unfold urlPatternParts
  simp only [String.toList_ofList, htake, hsplit, List.length_append, hlength]
  cases query with
  | none => simp only [Option.map_none, patternQueryText, List.append_nil]
  | some query => rfl

theorem rewritten_exact (hurls : urls.Lawful) (hbase : PatternBase urls base) (hescapes : PathEscapes urls base escapes)
    (h : Rewritten urls base escapes path url) (hlocation : Location.parseUrl urls.toUrlCrate (urls.asStr url) = .ok ⟨url⟩) :
    LocationPattern.parseUrl urls.toUrlCrate glob (urls.patternText url) = .ok ⟨.exact (.url ⟨url⟩)⟩ := by
  have hrouted : urls.Routed url := parseUrl_routed hurls hlocation
  have hscheme := isScheme_scheme hurls hlocation
  have hauthority := hurls.authority url
  have hplain : '?' ∉ pathText escapes path.text :=
    fun hmem => (pathText_plain hescapes.separates hmem).2 (by decide)
  have hparts := urlPatternParts_patternText hscheme hauthority (path_pathText escapes path.text) hplain (urls.query url)
  have hpattern : urls.patternText url = String.ofList ((urls.scheme url ++ "://").toList ++
      (urls.authority url).toList ++ pathText escapes path.text ++ patternQueryText (urls.query url)) := by
    rw [PathUrls.patternText, hurls.beforePath url hrouted, h.path]
  rw [← hpattern] at hparts
  have hrawPath : (urlPatternParts (urls.scheme url) (urls.patternText url)).rawPath =
      (pathText escapes path.text).tail := by
    rw [hparts, UrlPatternParts.rawPath]
    dsimp only
    rw [List.drop_left, pathText_cons]
    rfl
  have htail : ∀ c ∈ (pathText escapes path.text).tail, c ∉ ['#', '*', '?', '[', ']'] :=
    fun c hc => (pathText_plain hescapes.separates (List.mem_of_mem_tail hc)).2
  have hwhole : (urls.patternText url).toList = (urls.scheme url).toList ++ ':' :: ("//".toList ++
      ((urls.authority url).toList ++ pathText escapes path.text ++ patternQueryText (urls.query url))) := by
    rw [hpattern, String.toList_ofList, String.toList_append]
    simp
  have hcolon : ':' ∉ (urls.scheme url).toList := isScheme_ne hscheme (by decide) (by decide)
  have htext := hurls.text url hrouted
  rw [PathUrls.textWith, h.path] at htext
  refine parseUrl_exact (urls.scheme url) ?_ ?_ ?_ ?_ ?_ ⟨?_, ?_⟩ ?_ ?_
  · intro hnil
    rw [hnil] at hwhole
    simp at hwhole
  · have hglobs : hasActiveGlob (urls.scheme url).toList = false := by
      rw [hasActiveGlob, List.any_eq_false]
      intro c hc hactive
      have hactive : (c = '*' ∨ c = '?') ∨ c = '[' := by simpa using hactive
      rcases hactive with (rfl | rfl) | rfl <;> exact isScheme_ne hscheme (by decide) (by decide) hc
    rw [globBeforeUrlSeparator, hwhole]
    change (splitOnceAt (':' :: "//".toList) _).any _ = false
    rw [splitOnceAt_of_notMem hcolon]
    exact hglobs
  · exact schemeLikePrefix_of_isScheme hscheme (by rw [hwhole]; exact splitOnce_of_notMem hcolon)
  · rw [hpattern, String.toList_ofList, List.append_assoc, List.append_assoc]
    exact List.isPrefixOf_iff_prefix.mpr (List.prefix_append _ _)
  · rw [hparts, h.start.scheme, h.start.authority]
    exact hbase.authority
  · rw [hrawPath, List.contains_eq_mem, decide_eq_false_iff_not]
    exact fun hmem => htail _ hmem (by decide)
  · rw [hparts]
    have hfragment := hrouted.fragment
    rw [htext] at hfragment
    cases hquery : urls.query url with
    | none => rfl
    | some query =>
      rw [hquery] at hfragment
      simp only [Option.map_some, Option.any_some, List.contains_eq_mem, decide_eq_false_iff_not]
      exact fun hmem => hfragment (List.mem_append_right _ (List.mem_cons_of_mem _ hmem))
  · rw [hrawPath, hasActiveGlob, List.any_eq_false]
    intro c hc hactive
    have hactive : (c = '*' ∨ c = '?') ∨ c = '[' := by simpa using hactive
    rcases hactive with (rfl | rfl) | rfl <;> exact htail _ hc (by decide)
  · have hcanonical : canonicalPatternUrl (urlPatternParts (urls.scheme url) (urls.patternText url)).beforeQuery
        (urlPatternParts (urls.scheme url) (urls.patternText url)).pathStart
        (urlPatternParts (urls.scheme url) (urls.patternText url)).query = urls.asStr url := by
      rw [hparts]
      unfold canonicalPatternUrl
      rw [List.take_left, List.drop_left, canonical_pathText hescapes.separates, ← hurls.beforePath url hrouted]
      apply String.toList_injective
      rw [String.toList_ofList, htext]
      cases urls.query url <;> rfl
    rw [hcanonical]
    exact hlocation

-- ---------------------------------------------------------------------------
-- Matched URLs
-- ---------------------------------------------------------------------------

/-- A URL's path is decoded, and an object path is what is read. -/
def ObjectPathCrate.Decodes (paths : ObjectPathCrate) : Prop :=
  ∀ text, ∀ path : ObjectPath, Percent.decode (asBytes text) = 47 :: Text.utf8 path.text →
    paths.fromUrlPath text = .ok path

def matchedSet (urls : PathUrls U) (base : U) (b : UInt8) : Bool :=
  urls.escapes (urls.scheme base) b || isGlobByte b

theorem matchedUrl_eq (hurls : urls.Lawful) (hbase : urls.cannotBeABase base = false)
    (hdrive : ¬ NamesDrive (urls.scheme base) path.text) : matchedUrl urls base path =
      some ((Location.parseUrl urls.toUrlCrate
        (String.ofList (urls.textWith base (pathText (matchedSet urls base) path.text)))).map (·.url)) := by
  have hquery := hurls.clearQuery base
  have hroot := hurls.setRootPath (urls.clearQuery base)
  have hscheme := hroot.scheme.trans hquery.scheme
  obtain ⟨exact, hexact, hstart, hpath⟩ := hurls.withSegments (urls.setRootPath (urls.clearQuery base)) path
    ((hroot.cannotBeABase.trans hquery.cannotBeABase).trans hbase) (by rwa [hscheme])
  have hbefore := hstart.beforePath.trans (hroot.beforePath.trans hquery.beforePath)
  simp only [matchedUrl, hexact, Option.map_some]
  rw [hbefore, hpath, hscheme, escapeGlobs_pathText hurls]
  rfl

/-- A matched URL names its object and keeps what surrounds the path of its base,
and for a base that is no file there is always one. -/
theorem matched_url_names (hurls : urls.Lawful) (hpaths : paths.Decodes)
    (h : Accepted urls.toUrlCrate glob paths ⟨.url source ⟨base⟩ matcher literalPrefix⟩)
    (hbase : urls.cannotBeABase base = false) (path : ObjectPath)
    (hdrive : ¬ NamesDrive (urls.scheme base) path.text) :
    (∀ url, matchedUrl urls base path = some (.ok url) →
      urls.decodedPath url = 47 :: Text.utf8 path.text ∧
      (urls.scheme url = urls.scheme base ∧ urls.authority url = urls.authority base ∧
        urls.query url = urls.query base) ∧
      (Location.parseUrl urls.toUrlCrate (urls.asStr url) = .ok ⟨url⟩ ∧
        paths.fromUrlPath (urls.path url) = .ok path) ∧
      LocationPattern.parseUrl urls.toUrlCrate glob (urls.patternText url) = .ok ⟨.exact (.url ⟨url⟩)⟩ ∧
      (urls.query base = none → urls.patternText url = urls.asStr url)) ∧
    (urls.scheme base ≠ "file" → ∃ url, matchedUrl urls base path = some (.ok url)) := by
  have hpattern := h.patternBase hurls
  have hrouted : urls.Routed base := parseUrl_routed hurls hpattern.located
  have hescapes : PathEscapes urls base (matchedSet urls base) := pathEscapes_globs hurls base
  rw [matchedUrl_eq hurls hbase hdrive]
  constructor
  · intro url hurl
    obtain ⟨location, hlocation, rfl⟩ := Lists.map_eq_ok.mp (Option.some.inj hurl)
    have hrewritten := rewritten_of_parsed hurls hrouted hescapes hdrive hlocation
    have hitself : Location.parseUrl urls.toUrlCrate (urls.asStr location.url) = .ok ⟨location.url⟩ := by
      have hasStr : urls.asStr location.url = _ := (parseUrl_ok hlocation).asStr
      rwa [hasStr]
    have hdecoded : Percent.decode (asBytes (urls.path location.url)) = 47 :: Text.utf8 path.text := by
      rw [asBytes, hrewritten.path, decode_pathText hescapes.separates]
    refine ⟨hdecoded, ⟨hrewritten.start.scheme, hrewritten.start.authority, hrewritten.query⟩,
      ⟨hitself, hpaths _ _ hdecoded⟩, rewritten_exact hurls hpattern hescapes hrewritten hitself, fun hnone => ?_⟩
    apply String.toList_injective
    rw [PathUrls.patternText, String.toList_ofList, hurls.text _ (parseUrl_routed hurls hitself), PathUrls.textWith,
      hrewritten.query, hnone]
    rfl
  · intro hfile
    obtain ⟨url, hurl⟩ := location_textWith hurls hpattern.located hescapes hfile path
    exact ⟨url, by rw [hurl]; rfl⟩

-- ---------------------------------------------------------------------------
-- URLs in their parts
-- ---------------------------------------------------------------------------

structure PlainUrl where
  scheme : String
  authority : String
  path : List Char
  query : Option String
  schemeColon : ':' ∉ scheme.toList
  authorityPlain : ∀ c ∈ authority.toList, c ≠ '/' ∧ c ≠ '?'
  pathStart : path = [] ∨ path.head? = some '/'
  deriving DecidableEq

def PlainUrl.text (url : PlainUrl) : List Char :=
  (url.scheme ++ "://").toList ++ url.authority.toList ++ url.path ++ queryText url.query

theorem notMem_takeWhile (c : Char) (text : List Char) : c ∉ text.takeWhile (· ≠ c) :=
  fun hmem => by simpa using List.mem_takeWhile_imp hmem

theorem head?_dropWhile_slash (text : List Char) :
    text.dropWhile (· ≠ '/') = [] ∨ (text.dropWhile (· ≠ '/')).head? = some '/' := by
  have hhead := List.head?_dropWhile_not (fun c : Char => decide (c ≠ '/')) text
  cases hdrop : text.dropWhile (· ≠ '/') with
  | nil => exact .inl rfl
  | cons c more =>
    rw [hdrop] at hhead
    have hslash : c = '/' := by simpa using hhead
    exact .inr (by rw [hslash]; rfl)

def PlainUrl.ofText (text : List Char) : PlainUrl :=
  let scheme := text.takeWhile (· ≠ ':')
  let rest := text.drop (scheme.length + 3)
  let front := rest.takeWhile (· ≠ '?')
  { scheme := String.ofList scheme
    authority := String.ofList (front.takeWhile (· ≠ '/'))
    path := front.dropWhile (· ≠ '/')
    query := (rest.dropWhile (· ≠ '?')).tail?.map String.ofList
    schemeColon := by
      rw [String.toList_ofList]
      exact notMem_takeWhile _ _
    authorityPlain := by
      intro c hc
      rw [String.toList_ofList] at hc
      exact ⟨by simpa using List.mem_takeWhile_imp hc,
        by simpa using List.mem_takeWhile_imp ((List.takeWhile_prefix _).mem hc)⟩
    pathStart := head?_dropWhile_slash _ }

theorem PlainUrl.text_eq (url : PlainUrl) : url.text = url.scheme.toList ++ ':' ::
    ("//".toList ++ (url.authority.toList ++ url.path ++ queryText url.query)) := by
  rw [PlainUrl.text, String.toList_append]
  simp

theorem PlainUrl.ofText_text (url : PlainUrl) (hpath : '?' ∉ url.path) : PlainUrl.ofText url.text = url := by
  have htext := url.text_eq
  obtain ⟨scheme, authority, path, query, hscheme, hauthority, hstart⟩ := url
  have hslash : '/' ∉ authority.toList := fun hmem => (hauthority _ hmem).1 rfl
  have hfront : '?' ∉ authority.toList ++ path := by
    rw [List.mem_append, not_or]
    exact ⟨fun hmem => (hauthority _ hmem).2 rfl, hpath⟩
  have hrest : (authority.toList ++ path ++ queryText query).takeWhile (· ≠ '?') = authority.toList ++ path ∧
      (authority.toList ++ path ++ queryText query).dropWhile (· ≠ '?') = queryText query := by
    cases query with
    | none => simpa [queryText] using takeWhile_of_notMem hfront
    | some query => exact takeWhile_append_cons hfront query.toList
  have hparts : (authority.toList ++ path).takeWhile (· ≠ '/') = authority.toList ∧
      (authority.toList ++ path).dropWhile (· ≠ '/') = path := by
    rcases hstart with rfl | hstart
    · simpa using takeWhile_of_notMem hslash
    · obtain ⟨more, rfl⟩ := List.head?_eq_some_iff.mp hstart
      exact takeWhile_append_cons hslash more
  have htake := (takeWhile_append_cons hscheme ("//".toList ++ (authority.toList ++ path ++ queryText query))).1
  have hdrop : (scheme.toList ++ ':' :: ("//".toList ++ (authority.toList ++ path ++ queryText query))).drop
      (scheme.toList.length + 3) = authority.toList ++ path ++ queryText query := by
    rw [List.drop_append]
    simp
  have hquery : (queryText query).tail?.map String.ofList = query := by
    cases query with
    | none => rfl
    | some query => exact congrArg some String.ofList_toList
  simp only [PlainUrl.ofText, htext, htake, hdrop, hrest.1, hrest.2, hparts.1, hparts.2, hquery, String.ofList_toList]

def PlainUrl.parse (text : String) : Except String PlainUrl :=
  if [':', '/', '/'].isPrefixOf (text.toList.dropWhile (· ≠ ':')) then .ok (.ofText text.toList)
  else .error "relative URL without a base"

theorem PlainUrl.parse_text (url : PlainUrl) (hpath : '?' ∉ url.path) :
    PlainUrl.parse (String.ofList url.text) = .ok url := by
  have hstart : [':', '/', '/'].isPrefixOf (url.text.dropWhile (· ≠ ':')) = true := by
    rw [url.text_eq, (takeWhile_append_cons url.schemeColon _).2]
    exact List.isPrefixOf_iff_prefix.mpr ⟨_, rfl⟩
  unfold PlainUrl.parse
  rw [String.toList_ofList, if_pos hstart, PlainUrl.ofText_text url hpath]

def segmentSet (b : UInt8) : Bool :=
  b ≤ 32 || 127 ≤ b || [34, 35, 37, 60, 62, 63, 96, 123, 125].contains b

theorem segmentSet_high (h : 128 ≤ b) : segmentSet b = true := by
  have hle : 127 ≤ b := UInt8.le_trans (by decide) h
  simp [segmentSet, hle]

theorem segmentSet_marks : ∀ b ∈ [35, 37, 63], segmentSet b = true := by
  have hall : ([35, 37, 63].all segmentSet) = true := by decide
  exact fun b hb => List.all_eq_true.mp hall b hb

def PlainUrl.withPath (url : PlainUrl) (path : List Char) (h : path.head? = some '/') : PlainUrl :=
  { url with path := path, pathStart := .inr h }

def partedUrls : PathUrls PlainUrl where
  parse := PlainUrl.parse
  asStr url := String.ofList url.text
  scheme := PlainUrl.scheme
  username _ := ""
  password _ := none
  path url := String.ofList url.path
  toFilePath url := some (String.ofList url.path)
  fromFilePath _ := none
  setRootPath url := url.withPath ['/'] rfl
  clearQuery url := { url with query := none }
  clearFragment := id
  withSegments url segments :=
    let path := Text.utf8 (['/'].intercalate (segments.map (·.toList)))
    let path := if url.scheme = "file" then driveLetter path else path
    some (url.withPath ((Percent.encode (pathSet segmentSet) (47 :: path)).map Text.asciiChar) rfl)
  authority := PlainUrl.authority
  query := PlainUrl.query
  beforePath url := url.scheme ++ "://" ++ url.authority
  cannotBeABase _ := false
  escapes _ := segmentSet

theorem PlainUrl.textWith_eq (url : PlainUrl) (path : List Char) : partedUrls.textWith url path =
    (url.scheme ++ "://").toList ++ url.authority.toList ++ path ++ queryText url.query := by
  rw [PathUrls.textWith, ← String.toList_append]
  rfl

theorem question_notMem (h : escapes 63 = true) (path : List Char) : '?' ∉ pathText escapes path := by
  intro hmem
  obtain ⟨b, hb, hchar⟩ := List.mem_map.mp hmem
  have hnat : b.toNat = 63 := by
    rw [← Text.toNat_asciiChar, hchar]
    rfl
  obtain rfl : b = 63 := UInt8.toNat_inj.mp hnat
  rcases Percent.mem_encode hb with hplain | hpercent | ⟨_, hhigh⟩ | ⟨hlow, _⟩
  · rw [pathSet, h] at hplain
    cases hplain
  · cases hpercent
  · exact absurd hhigh (by decide)
  · exact absurd hlow (by decide)

theorem partedUrls_withSegments (base : PlainUrl) (path : ObjectPath) (hdrive : ¬ NamesDrive base.scheme path.text) :
    partedUrls.withSegments base (path.parts.map String.ofList) =
      some (base.withPath (pathText segmentSet path.text) (path_pathText segmentSet path.text)) := by
  have hjoined : ['/'].intercalate ((path.parts.map String.ofList).map (·.toList)) = path.text := by
    rw [List.map_map]
    simpa [Function.comp_def] using path.intercalate_parts
  have hplain : (if base.scheme = "file" then driveLetter (Text.utf8 path.text) else Text.utf8 path.text) =
      Text.utf8 path.text := by
    split
    · rename_i hfile
      exact if_neg fun hbar => hdrive ⟨hfile, hbar⟩
    · rfl
  simp only [partedUrls, hjoined, hplain, pathText]

theorem partedUrls_parsePath (base : PlainUrl) (path : ObjectPath) (h : escapes 63 = true) :
    partedUrls.parse (String.ofList (partedUrls.textWith base (pathText escapes path.text))) =
      .ok (base.withPath (pathText escapes path.text) (path_pathText escapes path.text)) := by
  have htext : (base.withPath (pathText escapes path.text) (path_pathText escapes path.text)).text =
      partedUrls.textWith base (pathText escapes path.text) := (PlainUrl.textWith_eq base _).symm
  have hparse := PlainUrl.parse_text (base.withPath (pathText escapes path.text) (path_pathText escapes path.text))
    (question_notMem h path.text)
  rw [htext] at hparse
  have hcrate : partedUrls.parse = PlainUrl.parse := rfl
  rw [hcrate]
  exact hparse

theorem partedUrls_asStr (base : PlainUrl) (path : ObjectPath) :
    (partedUrls.asStr (base.withPath (pathText escapes path.text) (path_pathText escapes path.text))).toList =
      partedUrls.textWith base (pathText escapes path.text) := by
  rw [PlainUrl.textWith_eq]
  exact String.toList_ofList

theorem withPath_sameStart (url : PlainUrl) (path : List Char) (h : path.head? = some '/') :
    partedUrls.SameStart (url.withPath path h) url := ⟨rfl, rfl, rfl, rfl⟩

theorem partedUrls_lawful : partedUrls.Lawful where
  scheme url := by
    refine ⟨"//".toList ++ (url.authority.toList ++ url.path ++ queryText url.query), ?_⟩
    have hasStr : (partedUrls.asStr url).toList = url.text := String.toList_ofList
    rw [hasStr, url.text_eq]
    exact splitOnce_of_notMem url.schemeColon
  authority url := url.authorityPlain
  beforePath url _ := String.toList_append
  text url _ := by
    have hpath : (partedUrls.path url).toList = url.path := String.toList_ofList
    rw [hpath, PlainUrl.textWith_eq]
    exact String.toList_ofList
  path url _ := by
    have hpath : (partedUrls.path url).toList = url.path := String.toList_ofList
    rw [hpath]
    exact url.pathStart
  clearQuery _ := ⟨rfl, rfl, rfl, rfl⟩
  setRootPath url := withPath_sameStart url ['/'] rfl
  withSegments base path _ hdrive :=
    ⟨_, partedUrls_withSegments base path hdrive, withPath_sameStart base _ _, String.toList_ofList⟩
  escapes _ b hb := by
    rcases hb with hb | hb
    · exact segmentSet_marks b hb
    · exact segmentSet_high hb
  dot _ := rfl
  parsePath base escapes path _ hmore _ _ := by
    refine ⟨base.withPath (pathText escapes path.text) (path_pathText escapes path.text), ?_, ?_, ?_, ?_, ?_⟩
    · have hquestion : segmentSet 63 = true := segmentSet_marks 63 (by decide)
      have hescaped : escapes 63 = true := hmore 63 hquestion
      exact partedUrls_parsePath base path hescaped
    · exact partedUrls_asStr base path
    · exact String.toList_ofList
    · exact withPath_sameStart base _ _
    · exact ⟨rfl, rfl, rfl⟩
  fromFilePath _ _ h := by cases h

theorem segmentPaths_decodes : segmentPaths.Decodes := by
  intro text path h
  have hutf8 : (47 :: Text.utf8 path.text : Bytes) = Text.utf8 ('/' :: path.text) := rfl
  obtain ⟨-, hlast⟩ := path.valid.ends
  rw [hutf8] at h
  rw [segmentPaths_fromUrlPath (h ▸ Text.decodeUtf8_utf8 _)]
  simp only [segmentPaths.parseSegments, String.toList_ofList, List.head?_cons, ↓reduceIte, List.tail_cons,
    if_neg hlast, dif_pos path.valid]

def plainParts (scheme authority path : String) : Bool :=
  !scheme.toList.contains ':' && authority.toList.all (fun c => c ≠ '/' && c ≠ '?') && path.toList.head? = some '/'

theorem plainParts_ok (h : plainParts scheme authority path = true) :
    ':' ∉ scheme.toList ∧ (∀ c ∈ authority.toList, c ≠ '/' ∧ c ≠ '?') ∧ path.toList.head? = some '/' := by
  simpa [plainParts, and_assoc] using h

def sampleUrl (scheme authority path : String) (query : Option String)
    (h : plainParts scheme authority path = true) : PlainUrl :=
  ⟨scheme, authority, path.toList, query, (plainParts_ok h).1, (plainParts_ok h).2.1, .inr (plainParts_ok h).2.2⟩

def samplePath (text : String) (h : IsObjectPath text.toList) : ObjectPath := ⟨text.toList, h⟩

theorem matched_url_names_sample : ∃ url,
    matchedUrl partedUrls (sampleUrl "mem" "bucket" "/%2A.x" (some "v=1") (by decide))
      (samplePath "50% [a]*/b.x" (by decide)) = some (.ok url) ∧
    partedUrls.decodedPath url = 47 :: Text.utf8 "50% [a]*/b.x".toList ∧
    LocationPattern.parseUrl partedUrls.toUrlCrate docGlob (partedUrls.patternText url) = .ok ⟨.exact (.url ⟨url⟩)⟩ := by
  have hparse : LocationPattern.parseUrl partedUrls.toUrlCrate docGlob "mem://bucket/*.x??v=1" =
      .ok ⟨.url "mem://bucket/*.x??v=1" ⟨sampleUrl "mem" "bucket" "/%2A.x" (some "v=1") (by decide)⟩
        [.anySequence, .char '.', .char 'x'] ""⟩ := by decide +kernel
  obtain ⟨hnames, hexists⟩ := matched_url_names partedUrls_lawful segmentPaths_decodes
    (.url hparse (by decide +kernel)) rfl (samplePath "50% [a]*/b.x" (by decide)) fun h => absurd h.1 (by decide)
  obtain ⟨url, hurl⟩ := hexists (by decide)
  obtain ⟨hdecoded, -, -, hexact, -⟩ := hnames url hurl
  exact ⟨url, hurl, hdecoded, hexact⟩

/-- With a query, the text of a matched URL is a pattern again; and a first segment
that looks like a drive does not stay what it is. -/
theorem matched_url_misread :
    (LocationPattern.parseUrl partedUrls.toUrlCrate docGlob "mem://bucket/*.x??v=1" =
        .ok ⟨.url "mem://bucket/*.x??v=1" ⟨sampleUrl "mem" "bucket" "/%2A.x" (some "v=1") (by decide)⟩
          [.anySequence, .char '.', .char 'x'] ""⟩ ∧
      matchedUrl partedUrls (sampleUrl "mem" "bucket" "/%2A.x" (some "v=1") (by decide)) (samplePath "a.x" (by decide)) =
        some (.ok (sampleUrl "mem" "bucket" "/a.x" (some "v=1") (by decide))) ∧
      LocationPattern.parseUrl partedUrls.toUrlCrate docGlob "mem://bucket/a.x?v=1" =
        .ok ⟨.url "mem://bucket/a.x?v=1" ⟨sampleUrl "mem" "bucket" "/a.x%3Fv=1" none (by decide)⟩
          [.char 'a', .char '.', .char 'x', .anyChar, .char 'v', .char '=', .char '1'] ""⟩) ∧
    LocationPattern.parseUrl partedUrls.toUrlCrate docGlob "file:///*/x" =
        .ok ⟨.url "file:///*/x" ⟨sampleUrl "file" "" "/%2A/x" none (by decide)⟩
          [.anySequence, .char '/', .char 'x'] ""⟩ ∧
      matchedUrl partedUrls (sampleUrl "file" "" "/%2A/x" none (by decide)) (samplePath "C|/x" (by decide)) =
        some (.ok (sampleUrl "file" "" "/C:/x" none (by decide))) := by
  refine ⟨⟨?_, ?_, ?_⟩, ?_, ?_⟩ <;> decide +kernel

end SilkChiffon.Storage
