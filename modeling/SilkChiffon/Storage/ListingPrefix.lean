import SilkChiffon.Lib.Segments
import SilkChiffon.Storage.PatternDecoding

/-!
# The listed prefix of a pattern

Only what is behind the segments in front of the first metacharacter is listed.
They are decoded on a way of their own, and yet every path that the matcher
accepts is behind them.
-/

namespace SilkChiffon.Storage

variable {U P : Type} {crate : UrlCrate U} {glob : GlobCrate P} {paths : ObjectPathCrate} {store : ObjectStore}

-- ---------------------------------------------------------------------------
-- The segments in front of the first metacharacter
-- ---------------------------------------------------------------------------

theorem activeSegments_ne_nil (h : hasActiveGlob path = true) : activeSegments path ≠ [] := by
  obtain ⟨c, hc, hactive⟩ := List.any_eq_true.mp h
  have hne : c ≠ '/' := by
    rintro rfl
    cases hactive
  obtain ⟨part, hpart, hmem⟩ := Lists.mem_splitOn_of_mem hc hne
  intro hnil
  have hinactive := List.dropWhile_eq_nil_iff.mp hnil part hpart
  rw [Bool.not_eq_true', hasActiveGlob, List.any_eq_false] at hinactive
  exact hinactive c hmem hactive

theorem activePattern_ne_nil (h : hasActiveGlob path = true) : ['/'].intercalate (activeSegments path) ≠ [] := by
  have hactive := List.head_dropWhile_not (fun segment => !hasActiveGlob segment) (activeSegments_ne_nil h)
  obtain ⟨first, rest, hsegments⟩ := List.exists_cons_of_ne_nil (activeSegments_ne_nil h)
  have hne : first ≠ [] := by
    rintro rfl
    rw [activeSegments] at hsegments
    simp only [hsegments, List.head_cons] at hactive
    cases hactive
  rw [hsegments]
  cases rest with
  | nil => simpa using hne
  | cons next rest => simp

theorem hasActiveGlob_literalSegments (path : List Char) :
    hasActiveGlob (['/'].intercalate (literalSegments path)) = false := by
  rw [hasActiveGlob, List.any_eq_false]
  intro c hc
  rcases Lists.mem_intercalate hc with rfl | ⟨part, hpart, hc⟩
  · decide
  · have hinactive := List.mem_takeWhile_imp hpart
    rw [Bool.not_eq_true', hasActiveGlob, List.any_eq_false] at hinactive
    exact hinactive c hc

theorem literal_append_active (h : hasActiveGlob path = true) (hne : literalSegments path ≠ []) :
    path = ['/'].intercalate (literalSegments path) ++ '/' :: ['/'].intercalate (activeSegments path) := by
  rw [← Lists.intercalate_append hne (activeSegments_ne_nil h), literalSegments, activeSegments,
    List.takeWhile_append_dropWhile, List.intercalate_splitOn]

-- ---------------------------------------------------------------------------
-- Decoding
-- ---------------------------------------------------------------------------

def decodedText (rawPath : List Char) : Option (List Char) :=
  Percent.readRuns (fun b => [Text.asciiChar b]) id (Text.utf8 rawPath)

theorem decodedText_eq (rawPath : List Char) :
    decodedText rawPath = (readPattern rawPath).map (·.map Glob.Symbol.char) := by
  have hplain : (fun b => [Text.asciiChar b]) =
      fun b : UInt8 => [Glob.Symbol.raw (Text.asciiChar b)].flatMap fun s => [s.char] := rfl
  have hdecoded : (id : List Char → List Char) =
      fun text : List Char => (text.map Glob.Symbol.literal).flatMap fun s => [s.char] := by
    funext text
    simp [List.flatMap_map, Glob.Symbol.char]
  rw [decodedText, hplain, hdecoded, Percent.readRuns_flatMap, readPattern]
  congr 1
  funext symbols
  exact List.map_eq_flatMap.symm

theorem plain_of_inactive (h : hasActiveGlob rawPath = false) (hread : readPattern rawPath = some symbols) :
    ∀ s ∈ symbols, s.plain = true := by
  intro s hs
  rcases Percent.mem_readRunsFrom hread hs with ⟨b, hb, hs⟩ | ⟨text, hs⟩
  · obtain rfl := List.mem_singleton.mp hs
    rw [hasActiveGlob, List.any_eq_false] at h
    have hinactive : ∀ c : Char, c.toNat < 128 → c = '?' ∨ c = '*' ∨ c = '[' → Text.asciiChar b ≠ c := by
      rintro c hlt hc rfl
      rw [Text.toNat_asciiChar] at hlt
      have hactive := h _ (Text.asciiChar_mem hb hlt)
      rcases hc with hc | hc | hc <;> simp [hc] at hactive
    simp [Glob.Symbol.plain, hinactive _ (by decide) (.inl rfl), hinactive '*' (by decide) (.inr (.inl rfl)),
      hinactive '[' (by decide) (.inr (.inr rfl))]
  · obtain ⟨c, _, rfl⟩ := List.mem_map.mp hs
    rfl

theorem unescape_cons (h : x ≠ '[') (rest : List Char) :
    unescapeMatcherLiterals (x :: rest) = x :: unescapeMatcherLiterals rest := by
  match rest with
  | [] | [_] => rfl
  | c :: close :: rest => simp [unescapeMatcherLiterals, h]

theorem unescape_splice (h : ∀ s ∈ symbols, s.plain = true) :
    unescapeMatcherLiterals (Glob.splice symbols) = symbols.map Glob.Symbol.char := by
  induction symbols with
  | nil => rfl
  | cons s symbols ih =>
    have ih := ih fun s hs => h s (List.mem_cons_of_mem _ hs)
    rw [Glob.splice_cons, List.map_cons, ← ih]
    cases s with
    | raw c =>
      have hplain := h _ List.mem_cons_self
      have hne : c ≠ '[' := by
        rintro rfl
        cases hplain
      exact unescape_cons hne _
    | literal c =>
      by_cases hc : Glob.isMeta c = true
      · simp [Glob.Symbol.written, Glob.escapeChar, hc, unescapeMatcherLiterals, Glob.Symbol.char]
      · have hne : c ≠ '[' := by
          rintro rfl
          exact hc rfl
        simpa [Glob.Symbol.written, Glob.escapeChar, hc, Glob.Symbol.char] using unescape_cons hne _

/-- Without a metacharacter, a path is decoded and then escaped, and unescaped to
what it was decoded to. -/
theorem unescape_decodedMatcher (hglob : glob.Lawful) (h : hasActiveGlob rawPath = false)
    (hsource : decodedMatcher (U := U) glob rawPath input = .ok source) :
    decodedText rawPath = some (unescapeMatcherLiterals source.toList) := by
  obtain ⟨symbols, hread, hsplice⟩ := decodedMatcher_ok hglob hsource
  rw [decodedText_eq, hread, hsplice, unescape_splice (plain_of_inactive h hread)]
  rfl

-- ---------------------------------------------------------------------------
-- What is matched is behind the prefix
-- ---------------------------------------------------------------------------

theorem under_of_path {front path : List Char} (hpath : IsObjectPath path) (h : path = front ++ '/' :: rest) :
    Under front path := by
  refine ⟨rest, ?_, h⟩
  rintro rfl
  rcases hpath with rfl | hsegments
  · simp at h
  · refine (hsegments [] ?_).1 rfl
    rw [h, List.splitOn_append_cons_self]
    simp

theorem isObjectPath_of_under {front path : List Char} (hpath : IsObjectPath path) (h : Under front path) :
    IsObjectPath front := by
  obtain ⟨rest, _, rfl⟩ := h
  rcases hpath with hnil | hsegments
  · simp at hnil
  · rw [List.splitOn_append_cons_self] at hsegments
    exact .inr fun s hs => hsegments s (List.mem_append_left _ hs)

theorem IsObjectPath.ends {path : List Char} (h : IsObjectPath path) :
    path.head? ≠ some '/' ∧ path.getLast? ≠ some '/' := by
  rcases h with rfl | hsegments
  · exact ⟨nofun, nofun⟩
  · constructor
    · intro hhead
      obtain ⟨more, rfl⟩ := List.head?_eq_some_iff.mp hhead
      exact (hsegments [] (by simp [List.splitOn_cons_eq_if_modifyHead])).1 rfl
    · intro hlast
      obtain ⟨before, rfl⟩ := List.getLast?_eq_some_iff.mp hlast
      exact (hsegments [] (by simp [List.splitOn_append_cons_self])).1 rfl

theorem under_of_matched {path : List Char} (hpath : IsObjectPath path) (hplain : ∀ s ∈ symbols, s.plain = true)
    (h : Glob.parse (Glob.splice symbols ++ '/' :: rest) = some tokens) (hmatch : Glob.matchTokens tokens path = true) :
    Under (symbols.map Glob.Symbol.char) path := by
  have hseparated : ∀ s ∈ symbols ++ [.raw '/'], s.plain = true := by
    intro s hs
    rcases List.mem_append.mp hs with hs | hs
    · exact hplain s hs
    · rw [List.mem_singleton.mp hs]
      rfl
  have hsplice : Glob.splice symbols ++ '/' :: rest = Glob.splice (symbols ++ [.raw '/']) ++ rest := by
    simp [Glob.splice, Glob.Symbol.written]
  rw [Glob.parse, hsplice, Glob.tokens, Glob.tokensFrom_splice_append hseparated] at h
  obtain ⟨tokens', -, rfl⟩ := Option.map_eq_some_iff.mp h
  obtain ⟨rest', hrest, -⟩ := Glob.matchTokens_compiled_append.mp hmatch
  exact under_of_path hpath (by simpa [Glob.Symbol.char] using hrest)

inductive Accepted (crate : UrlCrate U) (glob : GlobCrate P) (paths : ObjectPathCrate) :
    LocationPattern U P → Prop
  | url : LocationPattern.parseUrl crate glob input = .ok pattern →
      hasActiveGlob (LocationPattern.rawPath input) = true → Accepted crate glob paths pattern
  | filePath : LocationPattern.fromFilePathPattern crate glob paths literalBase text source = .ok pattern →
      hasActiveGlob text = true → Accepted crate glob paths pattern

theorem parseUrl_under (hglob : glob.Lawful)
    (h : LocationPattern.parseUrl crate glob input = .ok ⟨.url source location matcher literalPrefix⟩)
    (hpath : IsObjectPath path) (hmatch : glob.matchesWith matcher (String.ofList path) = true) :
    literalPrefix = "" ∨ Under literalPrefix.toList path := by
  obtain ⟨scheme, _, -, ⟨_, hpattern⟩ | ⟨matcherSource, _, matcher', hactive, hsource, hprefix, hmatcher, hpattern⟩⟩ :=
    parseUrl_cases h
  · cases hpattern
  obtain ⟨-, -, rfl, rfl⟩ : input = source ∧ _ ∧ matcher' = matcher ∧ _ = literalPrefix := by
    simpa using hpattern.symm
  obtain ⟨front, hfront, rfl⟩ := Lists.map_eq_ok.mp hprefix
  obtain ⟨symbols, hsymbols, hsplice⟩ := decodedMatcher_ok hglob hfront
  have hplain := plain_of_inactive (hasActiveGlob_literalSegments _) hsymbols
  rw [hsplice, unescape_splice hplain, String.toList_ofList]
  by_cases hnil : literalSegments (LocationPattern.rawPath input) = []
  · left
    rw [hnil] at hsymbols
    obtain rfl := Option.some.inj hsymbols
    rfl
  · right
    obtain ⟨whole, hwhole, hsource⟩ := decodedMatcher_ok hglob hsource
    rw [literal_append_active hactive hnil, readPattern, Text.utf8_append] at hwhole
    obtain ⟨symbols', rest, hsymbols', -, rfl⟩ := Percent.readRuns_append (by decide) (by decide) hwhole
    obtain rfl := Option.some.inj (hsymbols.symm.trans hsymbols')
    obtain ⟨tokens, htokens, hmatches⟩ := hglob.new _ _ hmatcher
    rw [hmatches, String.toList_ofList] at hmatch
    rw [hsource, Glob.splice_append] at htokens
    exact under_of_matched hpath hplain htokens hmatch

theorem fromFilePathPattern_ok
    (h : LocationPattern.fromFilePathPattern crate glob paths literalBase text source = .ok pattern) :
    ∃ path url location matcher, ∃ front : ObjectPath, ∃ separator activePattern,
      pattern = ⟨.url source location matcher (String.ofList front.text)⟩ ∧
      (fromFilePath crate path = .ok url ∧ Location.parseUrl crate (crate.asStr url) = .ok location) ∧
      activePattern = ['/'].intercalate (activeSegments text) ∧
      separator = (if (glob.escape (String.ofList front.text)).toList ≠ [] ∧ activePattern ≠ [] then ['/'] else []) ∧
      glob.new (String.ofList ((glob.escape (String.ofList front.text)).toList ++ separator ++ activePattern)) =
        .ok matcher := by
  unfold LocationPattern.fromFilePathPattern at h
  simp only [Lists.bind_eq_ok, Lists.mapError_eq_ok] at h
  obtain ⟨_, _, url, hurl, location, hlocation, _, _, _, _, front, _, matcher, hmatcher, h⟩ := h
  exact ⟨_, url, location, matcher, front, _, _, (Except.ok.inj h).symm, ⟨hurl, hlocation⟩, rfl, rfl, hmatcher⟩

theorem fromFilePathPattern_under (hglob : glob.Lawful) (hactive : hasActiveGlob text = true)
    (h : LocationPattern.fromFilePathPattern crate glob paths literalBase text input =
      .ok ⟨.url source location matcher literalPrefix⟩)
    (hpath : IsObjectPath path) (hmatch : glob.matchesWith matcher (String.ofList path) = true) :
    literalPrefix = "" ∨ Under literalPrefix.toList path := by
  obtain ⟨_, _, _, matcher', front, separator, activePattern, hpattern, _, hrest, hseparator, hmatcher⟩ :=
    fromFilePathPattern_ok h
  obtain ⟨-, -, rfl, rfl⟩ : source = input ∧ _ ∧ matcher = matcher' ∧ _ := by simpa using hpattern
  rw [String.toList_ofList]
  by_cases hfront : front.text = []
  · exact .inl (by simp [hfront])
  · right
    have hescaped : (glob.escape (String.ofList front.text)).toList =
        Glob.splice (front.text.map .literal) := by
      simp [hglob.escape, Glob.escape, Glob.splice, List.flatMap_map, Glob.Symbol.written]
    have hne : Glob.splice (front.text.map .literal) ≠ [] := by
      obtain ⟨c, rest, htext⟩ := List.exists_cons_of_ne_nil hfront
      rw [htext, List.map_cons, Glob.splice_cons, Glob.Symbol.written, Glob.escapeChar]
      split <;> simp
    rw [hescaped, if_pos ⟨hne, hrest ▸ activePattern_ne_nil hactive⟩] at hseparator
    obtain ⟨tokens, htokens, hmatches⟩ := hglob.new _ _ hmatcher
    rw [hmatches, String.toList_ofList] at hmatch
    rw [hescaped, hseparator, String.toList_ofList, List.append_assoc] at htokens
    have hplain : ∀ s ∈ front.text.map Glob.Symbol.literal, s.plain = true := by
      intro s hs
      obtain ⟨c, _, rfl⟩ := List.mem_map.mp hs
      rfl
    simpa [Function.comp_def, Glob.Symbol.char] using under_of_matched hpath hplain htokens hmatch

theorem Accepted.under (hglob : glob.Lawful)
    (h : Accepted crate glob paths ⟨.url source location matcher literalPrefix⟩)
    (hpath : IsObjectPath path) (hmatch : glob.matchesWith matcher (String.ofList path) = true) :
    literalPrefix = "" ∨ Under literalPrefix.toList path := by
  cases h with
  | url hparse _ => exact parseUrl_under hglob hparse hpath hmatch
  | filePath hparse hactive => exact fromFilePathPattern_under hglob hactive hparse hpath hmatch

-- ---------------------------------------------------------------------------
-- Listing
-- ---------------------------------------------------------------------------

def ObjectPathCrate.Total (paths : ObjectPathCrate) : Prop :=
  ∀ path : ObjectPath, ∃ parsed, paths.parse (String.ofList path.text) = .ok parsed

def segmentPaths : ObjectPathCrate where
  parse := parseSegments
  fromUrlPath text := match Text.decodeUtf8 (Percent.decode (asBytes text)) with
    | some path => parseSegments (String.ofList path)
    | none => .error "invalid encoding"
where
  parseSegments (text : String) : Except String ObjectPath :=
    let stripped := if text.toList.head? = some '/' then text.toList.tail else text.toList
    let stripped := if stripped.getLast? = some '/' then stripped.dropLast else stripped
    if h : IsObjectPath stripped then .ok ⟨stripped, h⟩ else .error "invalid segment"

theorem segmentPaths_parse {text : String} (hhead : text.toList.head? ≠ some '/')
    (hlast : text.toList.getLast? ≠ some '/') : segmentPaths.parse text =
      if h : IsObjectPath text.toList then .ok ⟨text.toList, h⟩ else .error "invalid segment" := by
  change segmentPaths.parseSegments text = _
  simp only [segmentPaths.parseSegments, if_neg hhead, if_neg hlast]

theorem segmentPaths_fromUrlPath {text : String} (h : Text.decodeUtf8 (Percent.decode (asBytes text)) = some path) :
    segmentPaths.fromUrlPath text = segmentPaths.parseSegments (String.ofList path) := by
  simp only [segmentPaths, h]

theorem segmentPaths_lawful : segmentPaths.Lawful := by
  intro text path h hhead hlast
  rw [segmentPaths_parse hhead hlast] at h
  split at h
  · rw [← Except.ok.inj h]
  · cases h

theorem segmentPaths_total : segmentPaths.Total := by
  intro path
  have hends := path.valid.ends
  rw [← String.toList_ofList (l := path.text)] at hends
  rw [segmentPaths_parse hends.1 hends.2, dif_pos (by simpa using path.valid)]
  exact ⟨_, rfl⟩

def allMatched (glob : GlobCrate P) (store : ObjectStore) (matcher : P) : List ObjectPath :=
  (store.list none).filter fun path => glob.matchesWith matcher (String.ofList path.text)

theorem mem_listed {front : String} {matcher : P} (hpaths : paths.Lawful) (hstore : store.Lawful)
    (h : paths.parse front = .ok parsed)
    (hunder : glob.matchesWith matcher (String.ofList path.text) = true → Under front.toList path.text) :
    (path ∈ store.list (some parsed) ∧ glob.matchesWith matcher (String.ofList path.text) = true) ↔
      path ∈ store.list none ∧ glob.matchesWith matcher (String.ofList path.text) = true := by
  rw [hstore, and_assoc]
  refine and_congr_right fun _ => ⟨And.right, fun hmatch => ⟨.inr ?_, hmatch⟩⟩
  obtain ⟨hhead, hlast⟩ := (isObjectPath_of_under path.valid (hunder hmatch)).ends
  rw [hpaths _ _ h hhead hlast]
  exact hunder hmatch

/-- Listing what is behind the prefix misses no object that a listing of
everything has. -/
theorem listing_misses_nothing (hglob : glob.Lawful) (hpaths : paths.Lawful) (htotal : paths.Total)
    (h : Accepted crate glob paths ⟨.url source location matcher literalPrefix⟩) :
    (∀ path : ObjectPath, glob.matchesWith matcher (String.ofList path.text) = true →
      literalPrefix = "" ∨ Under literalPrefix.toList path.text) ∧
    (∀ store : ObjectStore, store.Lawful →
      (∀ found, matchedObjects glob paths store location matcher literalPrefix = .ok found →
        ∀ path, path ∈ found ↔ path ∈ allMatched glob store matcher) ∧
      ∀ error, matchedObjects glob paths store location matcher literalPrefix = .error error →
        allMatched glob store matcher = []) ∧
    ∀ rawPath input matcherSource, hasActiveGlob rawPath = false →
      decodedMatcher (U := U) glob rawPath input = .ok matcherSource →
      decodedText rawPath = some (unescapeMatcherLiterals matcherSource.toList) := by
  have hunder : ∀ path : ObjectPath, glob.matchesWith matcher (String.ofList path.text) = true →
      literalPrefix = "" ∨ Under literalPrefix.toList path.text := fun path hmatch => h.under hglob path.valid hmatch
  refine ⟨hunder, fun store hstore => ?_, fun _ _ _ hinactive hsource => unescape_decodedMatcher hglob hinactive hsource⟩
  by_cases hnil : literalPrefix = ""
  · have hlisted : matchedObjects glob paths store location matcher literalPrefix =
        .ok (allMatched glob store matcher) := by
      simp [matchedObjects, hnil, allMatched]
      rfl
    rw [hlisted]
    exact ⟨fun found hfound => by simp [Except.ok.inj hfound], fun _ h => by cases h⟩
  · have hunder := fun path hmatch => (hunder path hmatch).resolve_left hnil
    cases hparse : paths.parse literalPrefix with
    | ok parsed =>
      have hlisted : matchedObjects glob paths store location matcher literalPrefix = .ok
          ((store.list (some parsed)).filter fun path => glob.matchesWith matcher (String.ofList path.text)) := by
        simp [matchedObjects, hnil, hparse]
        rfl
      rw [hlisted]
      refine ⟨fun found hfound path => ?_, fun _ h => by cases h⟩
      obtain rfl := Except.ok.inj hfound
      rw [allMatched, List.mem_filter, List.mem_filter]
      exact mem_listed hpaths hstore hparse (hunder path)
    | error message =>
      have hlisted : matchedObjects glob paths store location matcher literalPrefix =
          .error (.location (.invalidObjectPath location.url message)) := by
        simp [matchedObjects, hnil, hparse]
        rfl
      rw [hlisted]
      refine ⟨fun _ h => (by cases h), fun _ _ => ?_⟩
      rw [allMatched, List.filter_eq_nil_iff]
      intro path _ hmatch
      obtain ⟨parsed, hparsed⟩ := htotal ⟨_, isObjectPath_of_under path.valid (hunder path hmatch)⟩
      rw [String.ofList_toList, hparse] at hparsed
      cases hparsed

theorem listing_misses_nothing_samples :
    (∃ location matcher, LocationPattern.parseUrl textUrls docGlob "mem://bucket/a%2Fb%2A/*.x" =
        .ok ⟨.url "mem://bucket/a%2Fb%2A/*.x" location matcher "a/b*"⟩ ∧
      ∀ path : ObjectPath, docGlob.matchesWith matcher (String.ofList path.text) = true →
        "a/b*" = "" ∨ Under "a/b*".toList path.text) ∧
    ∃ location matcher, LocationPattern.fromFilePathPattern textUrls docGlob segmentPaths "/home".toList
        "../in/*.x".toList "../in/*.x" = .ok ⟨.url "../in/*.x" location matcher "in"⟩ ∧
      ∀ path : ObjectPath, docGlob.matchesWith matcher (String.ofList path.text) = true →
        "in" = "" ∨ Under "in".toList path.text := by
  have hurl : LocationPattern.parseUrl textUrls docGlob "mem://bucket/a%2Fb%2A/*.x" =
      .ok ⟨.url "mem://bucket/a%2Fb%2A/*.x" ⟨"mem://bucket/a%2Fb%2A/%2A.x"⟩
        [.char 'a', .char '/', .char 'b', .within [.single '*'], .char '/', .anySequence, .char '.', .char 'x']
        "a/b*"⟩ := by decide +kernel
  have hfile : LocationPattern.fromFilePathPattern textUrls docGlob segmentPaths "/home".toList
      "../in/*.x".toList "../in/*.x" =
        .ok ⟨.url "../in/*.x" ⟨"file:///in/*.x"⟩
          [.char 'i', .char 'n', .char '/', .anySequence, .char '.', .char 'x'] "in"⟩ := by decide +kernel
  exact ⟨⟨_, _, hurl, (listing_misses_nothing docGlob_lawful segmentPaths_lawful segmentPaths_total
      (.url hurl (by decide +kernel))).1⟩,
    ⟨_, _, hfile, (listing_misses_nothing docGlob_lawful segmentPaths_lawful segmentPaths_total
      (.filePath hfile (by decide +kernel))).1⟩⟩

end SilkChiffon.Storage
