import SilkChiffon.Storage.Patterns

/-!
# Input store views

A view of a storage root names each input by a path that holds its URL and its
object path in hexadecimal digits. Decoding such a path gives both back, and
never a URL of another root.
-/

namespace SilkChiffon.InputStoreView

open Storage (UrlCrate ObjectPath ObjectPathCrate splitOnce splitOnce_of_notMem)

/-- URLs with the parts that make their origin. -/
structure ViewUrls (U : Type) extends UrlCrate U where
  host : U → Option String
  port : U → Option Nat

structure ViewPaths extends ObjectPathCrate where
  ofText : String → ObjectPath

variable {U : Type}

def ViewUrls.origin (urls : ViewUrls U) (url : U) : String × Option String × Option Nat :=
  (urls.scheme url, urls.host url, urls.port url)

def ViewUrls.storeUrl (urls : ViewUrls U) (url : U) : U :=
  urls.clearFragment (urls.clearQuery (urls.setRootPath url))

/-- A URL's own text is parsed back, and an empty text is no URL; the setters
keep the origin. -/
structure ViewUrls.Lawful (urls : ViewUrls U) : Prop where
  ownText : ∀ url, urls.parse (urls.asStr url) = .ok url
  empty : ∀ url, urls.parse "" ≠ .ok url
  setRootPath : ∀ url, urls.origin (urls.setRootPath url) = urls.origin url
  clearQuery : ∀ url, urls.origin (urls.clearQuery url) = urls.origin url
  clearFragment : ∀ url, urls.origin (urls.clearFragment url) = urls.origin url

/-- A path's own text is parsed back. A path is made of the segments that are not
empty, which it leaves as they are if nothing has to be encoded. -/
structure ViewPaths.Lawful (paths : ViewPaths) : Prop where
  ownText : ∀ path, paths.parse (String.ofList path.text) = .ok path
  ofText : ∀ segments : List (List Char), (∀ s ∈ segments, ∀ c ∈ s, c.isAlphanum = true ∨ c = '_') →
    (paths.ofText (String.ofList (['/'].intercalate segments))).text = ['/'].intercalate (segments.filter (· ≠ []))

-- ---------------------------------------------------------------------------
-- Digits
-- ---------------------------------------------------------------------------

inductive PathFault
  | prefixMissing
  | partMissing
  | oddLength
  | notUtf8
  | notDigits
  | url (source : String)
  | anotherRoot
  | objectPath (source : String)
  deriving DecidableEq, Repr

/-- The messages; `utf8` is the standard library's. -/
def PathFault.display (utf8 : String) (fault : PathFault) : String :=
  "invalid internal input path: " ++ match fault with
    | prefixMissing => "the Silk input prefix is missing"
    | partMissing => "the canonical URL or object path is missing"
    | oddLength => "an encoded component has odd length"
    | notUtf8 => utf8
    | notDigits => "invalid digit found in string"
    | url source => source
    | anotherRoot => "the canonical URL belongs to another root"
    | objectPath source => source

def PathFault.mentioned (utf8 : String) : PathFault → Option String
  | notUtf8 => some utf8
  | url source | objectPath source => some source
  | prefixMissing | partMissing | oddLength | notDigits | anotherRoot => none

theorem PathFault.display_mentions (utf8 : String) (fault : PathFault) :
    Text.Mentions (fault.display utf8) "invalid internal input path: " ∧
      ∀ text ∈ fault.mentioned utf8, Text.Mentions (fault.display utf8) text := by
  refine ⟨(Text.mentions_self _).append _, fun text htext => ?_⟩
  cases fault with
  | notUtf8 | url _ | objectPath _ =>
    obtain rfl := Option.some.inj htext
    exact (Text.mentions_self _).prepend _
  | _ => cases htext

def lowerDigit (n : UInt8) : UInt8 := if n < 10 then 48 + n else 87 + n

def encode (bytes : Bytes) : List Char :=
  (bytes.flatMap fun b => [lowerDigit (b / 16), lowerDigit (b % 16)]).map Text.asciiChar

/-- A number of two digits. The parser takes a sign in front of one. -/
def radixByte (high low : UInt8) : Except PathFault UInt8 :=
  if (Text.decodeUtf8 [high, low]).isNone then .error .notUtf8
  else if high = 43 then
    match Percent.hexValue low with
    | some low => .ok low
    | none => .error .notDigits
  else
    match Percent.hexValue high, Percent.hexValue low with
    | some high, some low => .ok (16 * high + low)
    | _, _ => .error .notDigits

def decodePairs : Bytes → Except PathFault Bytes
  | high :: low :: rest => do
    let b ← radixByte high low
    return b :: (← decodePairs rest)
  | _ => .ok []

def decode (encoded : List Char) : Except PathFault Bytes :=
  if (Text.utf8 encoded).length % 2 ≠ 0 then .error .oddLength else decodePairs (Text.utf8 encoded)

def decodeText (encoded : List Char) : Except PathFault String := do
  match Text.decodeUtf8 (← decode encoded) with
  | some text => return String.ofList text
  | none => throw .notUtf8

theorem lowerDigit_ok {n : UInt8} (h : n < 16) : Percent.hexValue (lowerDigit n) = some n ∧ lowerDigit n ≠ 43 ∧
    lowerDigit n < 128 ∧ (Text.asciiChar (lowerDigit n)).isAlphanum = true := by
  have : ∀ n : Fin 16, Percent.hexValue (lowerDigit (.ofNat n)) = some (.ofNat n) ∧ lowerDigit (.ofNat n) ≠ 43 ∧
      lowerDigit (.ofNat n) < 128 ∧ (Text.asciiChar (lowerDigit (.ofNat n))).isAlphanum = true := by decide
  simpa using this ⟨n.toNat, h⟩

theorem halves (b : UInt8) : b / 16 < 16 ∧ b % 16 < 16 ∧ 16 * (b / 16) + b % 16 = b := by
  have hb := b.toNat_lt
  refine ⟨?_, ?_, ?_⟩
  · rw [UInt8.lt_iff_toNat_lt, UInt8.toNat_div]
    show b.toNat / 16 < 16
    omega
  · rw [UInt8.lt_iff_toNat_lt, UInt8.toNat_mod]
    show b.toNat % 16 < 16
    omega
  · apply UInt8.toNat_inj.mp
    rw [UInt8.toNat_add, UInt8.toNat_mul, UInt8.toNat_div, UInt8.toNat_mod]
    show (16 * (b.toNat / 16) % 256 + b.toNat % 16) % 256 = b.toNat
    omega

theorem radixByte_lowerDigit (b : UInt8) : radixByte (lowerDigit (b / 16)) (lowerDigit (b % 16)) = .ok b := by
  obtain ⟨hhigh, hlow, hsum⟩ := halves b
  obtain ⟨hvalue, hsign, hascii, -⟩ := lowerDigit_ok hhigh
  obtain ⟨hvalue', -, hascii', -⟩ := lowerDigit_ok hlow
  have hutf8 : Text.decodeUtf8 [lowerDigit (b / 16), lowerDigit (b % 16)] = some _ :=
    Text.decodeUtf8_of_lt (by simp [hascii, hascii'])
  simp only [radixByte, hutf8, hsign, hvalue, hvalue', hsum, Option.isNone_some, Bool.false_eq_true, ↓reduceIte]

theorem decodePairs_digits (bytes : Bytes) :
    decodePairs (bytes.flatMap fun b => [lowerDigit (b / 16), lowerDigit (b % 16)]) = .ok bytes := by
  induction bytes with
  | nil => rfl
  | cons b bytes ih =>
    rw [List.flatMap_cons, List.cons_append, List.singleton_append, decodePairs, radixByte_lowerDigit, ih]
    rfl

theorem utf8_encode (bytes : Bytes) :
    Text.utf8 (encode bytes) = bytes.flatMap fun b => [lowerDigit (b / 16), lowerDigit (b % 16)] := by
  refine Text.utf8_map_asciiChar fun c hc => ?_
  obtain ⟨b, _, hc⟩ := List.mem_flatMap.mp hc
  obtain ⟨hhigh, hlow, -⟩ := halves b
  rcases List.mem_cons.mp hc with rfl | hc
  · exact (lowerDigit_ok hhigh).2.2.1
  · obtain rfl := List.mem_singleton.mp hc
    exact (lowerDigit_ok hlow).2.2.1

theorem decode_encode (bytes : Bytes) : decode (encode bytes) = .ok bytes := by
  have hlength : (Text.utf8 (encode bytes)).length % 2 = 0 := by
    rw [utf8_encode, List.length_flatMap]
    simp
  rw [decode, if_neg (by simpa using hlength), utf8_encode, decodePairs_digits]

theorem isAlphanum_encode (hc : c ∈ encode bytes) : c.isAlphanum = true := by
  obtain ⟨d, hd, rfl⟩ := List.mem_map.mp hc
  obtain ⟨b, _, hd⟩ := List.mem_flatMap.mp hd
  obtain ⟨hhigh, hlow, -⟩ := halves b
  rcases List.mem_cons.mp hd with rfl | hd
  · exact (lowerDigit_ok hhigh).2.2.2
  · obtain rfl := List.mem_singleton.mp hd
    exact (lowerDigit_ok hlow).2.2.2

theorem encode_ne_nil (h : bytes ≠ []) : encode bytes ≠ [] := by
  obtain ⟨b, rest, rfl⟩ := List.exists_cons_of_ne_nil h
  exact List.cons_ne_nil _ _

theorem decodeText_encode (text : List Char) : decodeText (encode (Text.utf8 text)) = .ok (String.ofList text) := by
  simp only [decodeText, decode_encode, Lists.bind_eq_ok, Except.ok.injEq, exists_eq_left', Text.decodeUtf8_utf8]
  rfl

-- ---------------------------------------------------------------------------
-- Paths
-- ---------------------------------------------------------------------------

def internalPrefix : List Char := "__silk_input".toList

def asBytes (text : String) : Bytes := Text.utf8 text.toList

def scopedPath (urls : ViewUrls U) (paths : ViewPaths) (canonicalUrl : U) (innerPath : ObjectPath) : ObjectPath :=
  paths.ofText (String.ofList (['/'].intercalate [internalPrefix, encode (asBytes (urls.asStr canonicalUrl)),
    encode (Text.utf8 innerPath.text)]))

def stripPrefix (front text : List Char) : Option (List Char) :=
  if front.isPrefixOf text then some (text.drop front.length) else none

def decodePath [DecidableEq U] (urls : ViewUrls U) (paths : ViewPaths) (storeRoot : U) (location : ObjectPath) :
    Except PathFault (U × ObjectPath) := do
  match stripPrefix (internalPrefix ++ ['/']) location.text with
  | none => throw .prefixMissing
  | some encoded =>
    match splitOnce '/' encoded with
    | none => throw .partMissing
    | some (url, path) =>
      let canonicalUrl ← (urls.parse (← decodeText url)).mapError .url
      if urls.storeUrl canonicalUrl ≠ storeRoot then throw .anotherRoot
      let innerPath ← (paths.parse (← decodeText path)).mapError .objectPath
      return (canonicalUrl, innerPath)

variable {urls : ViewUrls U} {paths : ViewPaths}

theorem isAlphanum_ne_slash (h : c.isAlphanum = true) : c ≠ '/' := by
  rintro rfl
  cases h

theorem slash_notMem_encode (bytes : Bytes) : '/' ∉ encode bytes :=
  fun h => isAlphanum_ne_slash (isAlphanum_encode h) rfl

/-- The segments of a scoped path, without its second one if that is empty. -/
theorem scopedPath_text (hurls : urls.Lawful) (hpaths : paths.Lawful) (url : U) (path : ObjectPath) :
    (scopedPath urls paths url path).text = internalPrefix ++ '/' :: encode (asBytes (urls.asStr url)) ++
      if path.text = [] then [] else '/' :: encode (Text.utf8 path.text) := by
  have hurl : asBytes (urls.asStr url) ≠ [] := by
    intro hempty
    have htext : urls.asStr url = "" :=
      String.toList_injective (Text.eq_nil_of_utf8 hempty)
    exact hurls.empty url (htext ▸ hurls.ownText url)
  have hsegments := hpaths.ofText [internalPrefix, encode (asBytes (urls.asStr url)), encode (Text.utf8 path.text)] (by
    intro s hs c hc
    rcases List.mem_cons.mp hs with rfl | hs
    · have hprefix : (internalPrefix.all fun c => c.isAlphanum || c = '_') = true := by decide
      simpa using List.all_eq_true.mp hprefix c hc
    · rcases List.mem_cons.mp hs with rfl | hs
      · exact .inl (isAlphanum_encode hc)
      · obtain rfl := List.mem_singleton.mp hs
        exact .inl (isAlphanum_encode hc))
  have hfilter : internalPrefix ≠ [] := by decide
  rw [scopedPath, hsegments]
  by_cases hpath : path.text = []
  · have hnil : encode (Text.utf8 path.text) = [] := by rw [hpath]; rfl
    simp [hnil, hfilter, encode_ne_nil hurl, if_pos hpath]
  · have hbytes : Text.utf8 path.text ≠ [] := fun h => hpath (Text.eq_nil_of_utf8 h)
    simp [hpath, hfilter, encode_ne_nil hurl, encode_ne_nil hbytes]

theorem origin_storeUrl (hurls : urls.Lawful) (url : U) : urls.origin (urls.storeUrl url) = urls.origin url := by
  rw [ViewUrls.storeUrl, hurls.clearFragment, hurls.clearQuery, hurls.setRootPath]

variable [DecidableEq U]

theorem stripPrefix_append (front text : List Char) : stripPrefix front (front ++ text) = some text := by
  simp [stripPrefix]

theorem decodePath_scopedPath (hurls : urls.Lawful) (hpaths : paths.Lawful) (root url : U)
    (hpath : innerPath.text ≠ []) : decodePath urls paths root (scopedPath urls paths url innerPath) =
      if urls.storeUrl url ≠ root then .error .anotherRoot else .ok (url, innerPath) := by
  have htext : (scopedPath urls paths url innerPath).text = (internalPrefix ++ ['/']) ++
      (encode (asBytes (urls.asStr url)) ++ '/' :: encode (Text.utf8 innerPath.text)) := by
    simpa [hpath] using scopedPath_text hurls hpaths url innerPath
  have hurl : decodeText (encode (asBytes (urls.asStr url))) = .ok (urls.asStr url) := by
    rw [asBytes, decodeText_encode, String.ofList_toList]
  unfold decodePath
  rw [htext, stripPrefix_append]
  simp only [splitOnce_of_notMem (slash_notMem_encode _), hurl, decodeText_encode, bind, Except.bind,
    hurls.ownText, hpaths.ownText, Except.mapError]
  split <;> rfl

theorem decodePath_empty (hurls : urls.Lawful) (hpaths : paths.Lawful) (root url : U) (hpath : innerPath.text = []) :
    decodePath urls paths root (scopedPath urls paths url innerPath) = .error .partMissing := by
  have htext : (scopedPath urls paths url innerPath).text =
      (internalPrefix ++ ['/']) ++ encode (asBytes (urls.asStr url)) := by
    simpa [hpath] using scopedPath_text hurls hpaths url innerPath
  have hsplit : splitOnce '/' (encode (asBytes (urls.asStr url))) = none := by
    have hdrop : (encode (asBytes (urls.asStr url))).dropWhile (fun c => decide (c ≠ '/')) = [] := by
      rw [List.dropWhile_eq_nil_iff]
      exact fun c hc => decide_eq_true (isAlphanum_ne_slash (isAlphanum_encode hc))
    rw [splitOnce, hdrop]
  unfold decodePath
  rw [htext, stripPrefix_append]
  simp only [hsplit]
  rfl

theorem decodePath_ok (h : decodePath urls paths root location = .ok (url, innerPath)) : urls.storeUrl url = root := by
  unfold decodePath at h
  split at h
  · cases h
  · split at h
    · cases h
    · simp only [Lists.ite_throw_ok, Lists.bind_eq_ok] at h
      obtain ⟨_, _, url', _, hroot, _, _, _, _, h⟩ := h
      obtain ⟨rfl, -⟩ := Prod.mk.inj (Except.ok.inj h)
      exact Decidable.not_not.mp hroot

/-- Scoped paths name what they were made for, under their root, and nothing
under another one. -/
theorem scoped_paths_name_inputs (hurls : urls.Lawful) (hpaths : paths.Lawful) (root : U) :
    (∀ url path, urls.storeUrl url = root → path.text ≠ [] →
      decodePath urls paths root (scopedPath urls paths url path) = .ok (url, path)) ∧
    (∀ url url' path path', path.text ≠ [] → path'.text ≠ [] →
      scopedPath urls paths url path = scopedPath urls paths url' path' → url = url' ∧ path = path') ∧
    (∀ location url path, decodePath urls paths root location = .ok (url, path) → urls.storeUrl url = root) ∧
    ∀ url path, urls.origin url ≠ urls.origin root ∨ urls.storeUrl url ≠ root →
      ∃ fault, decodePath urls paths root (scopedPath urls paths url path) = .error fault := by
  refine ⟨?_, ?_, fun _ _ _ => decodePath_ok, ?_⟩
  · intro url path hroot hpath
    rw [decodePath_scopedPath hurls hpaths root url hpath, if_neg (by simpa using hroot)]
  · intro url url' path path' hpath hpath' heq
    have hread := decodePath_scopedPath hurls hpaths (urls.storeUrl url) url hpath
    rw [heq, decodePath_scopedPath hurls hpaths _ url' hpath'] at hread
    simp only [ne_eq, not_true_eq_false, ↓reduceIte] at hread
    split at hread
    · cases hread
    · obtain ⟨rfl, rfl⟩ := Prod.mk.inj (Except.ok.inj hread)
      exact ⟨rfl, rfl⟩
  · intro url path hother
    have hroot : urls.storeUrl url ≠ root := by
      rcases hother with horigin | hroot
      · rintro rfl
        exact horigin (origin_storeUrl hurls url).symm
      · exact hroot
    by_cases hpath : path.text = []
    · exact ⟨_, decodePath_empty hurls hpaths root url hpath⟩
    · exact ⟨.anotherRoot, by rw [decodePath_scopedPath hurls hpaths root url hpath, if_pos hroot]⟩

-- ---------------------------------------------------------------------------
-- A bucket
-- ---------------------------------------------------------------------------

/-- The root of a bucket, an object in it, one version of the object, and the
same in another bucket. -/
inductive SampleUrl
  | bucket | object | version | otherBucket | otherObject
  deriving DecidableEq

def SampleUrl.text : SampleUrl → String
  | bucket => "s3://bucket/"
  | object => "s3://bucket/one.arrow"
  | version => "s3://bucket/one.arrow?versionId=one"
  | otherBucket => "s3://other/"
  | otherObject => "s3://other/one.arrow"

def sampleUrls : ViewUrls SampleUrl where
  parse text := match [SampleUrl.bucket, .object, .version, .otherBucket, .otherObject].find? (·.text = text) with
    | some url => .ok url
    | none => .error "relative URL without a base"
  asStr := SampleUrl.text
  scheme _ := "s3"
  username _ := ""
  password _ := none
  path
    | .bucket | .otherBucket => "/"
    | _ => "/one.arrow"
  toFilePath _ := none
  fromFilePath _ := none
  setRootPath
    | .otherBucket | .otherObject => .otherBucket
    | _ => .bucket
  clearQuery
    | .version => .object
    | url => url
  clearFragment := id
  withSegments _ _ := none
  host
    | .otherBucket | .otherObject => some "other"
    | _ => some "bucket"
  port _ := none

theorem sampleUrls_lawful : sampleUrls.Lawful where
  ownText url := by cases url <;> rfl
  empty _ := by rintro ⟨⟩
  setRootPath url := by cases url <;> rfl
  clearQuery url := by cases url <;> rfl
  clearFragment _ := rfl

def plainPaths : ViewPaths where
  parse text := if h : Storage.IsObjectPath text.toList then .ok ⟨text.toList, h⟩ else .error "invalid path"
  fromUrlPath _ := .error "invalid path"
  ofText text :=
    let joined := ['/'].intercalate ((text.toList.splitOn '/').filter (· ≠ []))
    if h : Storage.IsObjectPath joined then ⟨joined, h⟩ else ⟨[], .inl rfl⟩

theorem printable {c : Char} (h : c.isAlphanum = true ∨ c = '_') : 32 ≤ c.toNat ∧ c.toNat ≠ 127 := by
  rcases h with h | rfl
  · have hbounds : ((decide (65 ≤ c.val.toNat ∧ c.val.toNat ≤ 90) ||
        (decide (97 ≤ c.val.toNat) && decide (c.val.toNat ≤ 122))) ||
        (decide (48 ≤ c.val.toNat) && decide (c.val.toNat ≤ 57))) = true := h
    simp only [Bool.or_eq_true, Bool.and_eq_true, decide_eq_true_eq] at hbounds
    change 32 ≤ c.val.toNat ∧ c.val.toNat ≠ 127
    omega
  · decide

theorem isObjectPath_intercalate {segments : List (List Char)} (hne : ∀ s ∈ segments, s ≠ [])
    (hplain : ∀ s ∈ segments, ∀ c ∈ s, c.isAlphanum = true ∨ c = '_') :
    Storage.IsObjectPath (['/'].intercalate segments) := by
  have hforeign : ∀ s ∈ segments, '/' ∉ s ∧ '.' ∉ s := by
    intro s hs
    refine ⟨fun h => ?_, fun h => ?_⟩
    · have := hplain s hs _ h
      simp at this
    · have := hplain s hs _ h
      simp at this
  cases segments with
  | nil => exact .inl rfl
  | cons first segments =>
    refine .inr fun s hs => ?_
    rw [List.splitOn_intercalate _ (fun s hs => (hforeign s hs).1) (List.cons_ne_nil _ _)] at hs
    have hdot := (hforeign s hs).2
    exact ⟨hne s hs, by rintro rfl; simp at hdot, by rintro rfl; simp at hdot,
      fun c hc => printable (hplain s hs c hc)⟩

theorem plainPaths_lawful : plainPaths.Lawful where
  ownText path := by
    obtain ⟨text, hvalid⟩ := path
    simp [plainPaths, hvalid]
  ofText segments hplain := by
    have hslash : ∀ s ∈ segments, '/' ∉ s := by
      intro s hs h
      have := hplain s hs _ h
      simp at this
    have hfilter : (((['/'].intercalate segments).splitOn '/').filter (· ≠ [])) = segments.filter (· ≠ []) := by
      cases segments with
      | nil => rfl
      | cons first segments => rw [List.splitOn_intercalate _ hslash (List.cons_ne_nil _ _)]
    have hvalid : Storage.IsObjectPath (['/'].intercalate (segments.filter (· ≠ []))) :=
      isObjectPath_intercalate (fun s hs => by simpa using (List.mem_filter.mp hs).2)
        fun s hs => hplain s (List.mem_filter.mp hs).1
    simp only [plainPaths, String.toList_ofList, hfilter, dif_pos hvalid]

theorem scoped_paths_name_inputs_version :
    decodePath sampleUrls plainPaths .bucket (scopedPath sampleUrls plainPaths .version ⟨"one.arrow".toList, by decide⟩) =
      .ok (.version, ⟨"one.arrow".toList, by decide⟩) :=
  (scoped_paths_name_inputs sampleUrls_lawful plainPaths_lawful .bucket).1 .version _ rfl (by decide)

end SilkChiffon.InputStoreView
