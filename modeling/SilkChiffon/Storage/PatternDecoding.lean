import SilkChiffon.Storage.Patterns

/-!
# What a decoded pattern matches

Percent-encoded characters are literals. The matcher is compiled from a text in
which they stand in brackets, so it keeps them apart from metacharacters outside
of character classes; inside of a class the brackets are read as its members.
-/

namespace SilkChiffon.Storage

variable {U P : Type} {crate : UrlCrate U} {glob : GlobCrate P}

-- ---------------------------------------------------------------------------
-- The pattern as it was written
-- ---------------------------------------------------------------------------

/-- The symbols of a path: its characters, and literals for its escapes. -/
def readPattern (rawPath : List Char) : Option (List Glob.Symbol) :=
  Percent.readRuns (fun b => [.raw (Text.asciiChar b)]) (List.map .literal) (Text.utf8 rawPath)

/-- A path matches a pattern in which only raw characters are metacharacters. -/
def matchesRaw (rawPath path : List Char) : Bool :=
  ((readPattern rawPath).bind Glob.tokens).any (Glob.matchTokens · path)

def KeepsClasses (rawPath : List Char) : Prop :=
  ∀ symbols, readPattern rawPath = some symbols → Glob.faithful symbols = true

theorem decodedMatcher_ok (hglob : glob.Lawful) (h : decodedMatcher (U := U) glob rawPath input = .ok source) :
    ∃ symbols, readPattern rawPath = some symbols ∧ source.toList = Glob.splice symbols := by
  have hplain : (fun b => [Text.asciiChar b]) =
      fun b : UInt8 => [Glob.Symbol.raw (Text.asciiChar b)].flatMap Glob.Symbol.written := rfl
  have hdecoded : (fun text => (glob.escape (String.ofList text)).toList) =
      fun text : List Char => (text.map Glob.Symbol.literal).flatMap Glob.Symbol.written := by
    funext text
    simp [hglob.escape, Glob.escape, List.flatMap_map, Glob.Symbol.written]
  unfold decodedMatcher at h
  rw [hplain, hdecoded, Percent.readRuns_flatMap] at h
  cases hread : readPattern rawPath with
  | none =>
    rw [readPattern] at hread
    simp [hread] at h
  | some symbols =>
    rw [readPattern] at hread
    rw [hread] at h
    obtain rfl := Except.ok.inj h
    exact ⟨symbols, rfl, String.toList_ofList⟩

theorem matcher_ok (hglob : glob.Lawful)
    (h : LocationPattern.parseUrl crate glob input = .ok ⟨.url source location matcher literalPrefix⟩) :
    ∃ symbols tokens, readPattern (LocationPattern.rawPath input) = some symbols ∧
      Glob.tokensFrom 0 true (Glob.recoded symbols) = some tokens ∧
      ∀ path, glob.matchesWith matcher path = Glob.matchTokens tokens path.toList := by
  obtain ⟨scheme, _, -, ⟨_, hpattern⟩ | ⟨matcherSource, _, matcher', _, hsource, _, hmatcher, hpattern⟩⟩ :=
    parseUrl_cases h
  · cases hpattern
  · obtain ⟨-, -, rfl, -⟩ : input = source ∧ _ ∧ matcher' = matcher ∧ _ := by simpa using hpattern.symm
    obtain ⟨symbols, hsymbols, hsplice⟩ := decodedMatcher_ok hglob hsource
    obtain ⟨tokens, htokens, hmatches⟩ := hglob.new _ _ hmatcher
    rw [hsplice] at htokens
    exact ⟨symbols, tokens, hsymbols, htokens, hmatches⟩

theorem rawPath_eq (h : schemeLikePrefix (U := U) input = .ok (some scheme)) :
    LocationPattern.rawPath input = (urlPatternParts scheme input).rawPath := by
  obtain ⟨after, hsplit, -⟩ := schemeLikePrefix_ok h
  simp [LocationPattern.rawPath, hsplit]

theorem mem_canonicalByte (h : 128 ≤ b) : Text.asciiChar b ∈ canonicalByte b := by
  have hne : b ≠ 42 ∧ b ≠ 63 ∧ b ≠ 91 ∧ b ≠ 93 := by
    refine ⟨?_, ?_, ?_, ?_⟩ <;> rintro rfl <;> exact absurd h (by decide)
  simp [canonicalByte, hne]

theorem rawPath_ascii (hurls : crate.PrintsAscii) (h : ParsedPattern crate input scheme location) :
    ∀ c ∈ LocationPattern.rawPath input, c.toNat < 128 := by
  intro c hc
  have hprints := hurls _ _ (parseUrl_parsed h.canonical)
  rw [(parseUrl_ok h.canonical).asStr] at hprints
  simp only [canonicalPatternUrl, String.toList_ofList] at hprints
  have hmem : c ∈ (urlPatternParts scheme input).beforeQuery.drop (urlPatternParts scheme input).pathStart := by
    rw [rawPath_eq h.explicit, UrlPatternParts.rawPath] at hc
    split at hc
    · rename_i hpath
      rw [hpath]
      exact List.mem_cons_of_mem _ hc
    · cases hc
  have hbytes : ∀ b ∈ String.utf8EncodeChar c, b < 128 := by
    intro b hb
    by_contra hhigh
    have hhigh := UInt8.not_lt.mp hhigh
    have hwritten := List.mem_flatMap.mpr ⟨b, List.mem_flatMap.mpr ⟨c, hmem, hb⟩, mem_canonicalByte hhigh⟩
    have hlt := hprints _ (List.mem_append_left _ (List.mem_append_right _ hwritten))
    rw [Text.toNat_asciiChar] at hlt
    have hle : 128 ≤ b.toNat := hhigh
    omega
  obtain ⟨b, hb⟩ := List.exists_mem_of_ne_nil _ (String.utf8EncodeChar_ne_nil (c := c))
  have hlt : b.toNat < 128 := hbytes b hb
  rwa [Text.eq_asciiChar hb (hbytes b hb), Text.toNat_asciiChar]

/-- Encoded characters stand for themselves where no class is misread. -/
theorem encoded_literals (hurls : crate.PrintsAscii) (hglob : glob.Lawful)
    (h : LocationPattern.parseUrl crate glob input = .ok ⟨.url source location matcher literalPrefix⟩)
    (hclasses : KeepsClasses (LocationPattern.rawPath input)) :
    (∀ c ∈ LocationPattern.rawPath input, c.toNat < 128) ∧
      ∀ path, glob.matchesWith matcher path = matchesRaw (LocationPattern.rawPath input) path.toList := by
  constructor
  · obtain ⟨scheme, _, hparsed, -⟩ := parseUrl_cases h
    exact rawPath_ascii hurls hparsed
  · intro path
    obtain ⟨symbols, tokens, hsymbols, htokens, hmatches⟩ := matcher_ok hglob h
    have hrel := Glob.tokensFrom_recoded symbols (hclasses symbols hsymbols) true
    rw [htokens] at hrel
    obtain ⟨tokens', htokens', hlike⟩ : ∃ tokens', Glob.tokens symbols = some tokens' ∧
        List.Forall₂ Glob.Token.Like tokens' tokens := by
      rw [Glob.tokens]
      generalize Glob.tokensFrom 0 true symbols = tokens' at hrel ⊢
      cases hrel with
      | some hlike => exact ⟨_, rfl, hlike⟩
    rw [hmatches, matchesRaw, hsymbols, Option.bind_some, htokens', Option.any_some]
    exact (Glob.matchTokens_congr hlike).symm

theorem encoded_literals_star : ∃ matcher,
    LocationPattern.parseUrl textUrls docGlob "mem://bucket/[a-c]/%2A*" =
      .ok ⟨.url "mem://bucket/[a-c]/%2A*" ⟨"mem://bucket/%5Ba-c%5D/%2A%2A"⟩ matcher ""⟩ ∧
    ∀ path, docGlob.matchesWith matcher path = matchesRaw "[a-c]/%2A*".toList path.toList := by
  have hparse : LocationPattern.parseUrl textUrls docGlob "mem://bucket/[a-c]/%2A*" =
      .ok ⟨.url "mem://bucket/[a-c]/%2A*" ⟨"mem://bucket/%5Ba-c%5D/%2A%2A"⟩
        [.within [.range 'a' 'c'], .char '/', .within [.single '*'], .anySequence] ""⟩ := by decide +kernel
  refine ⟨_, hparse, (encoded_literals textUrls_printsAscii docGlob_lawful hparse ?_).2⟩
  intro symbols hsymbols
  obtain rfl := Option.some.inj hsymbols
  rfl

/-- An encoded star in a class ends it: its own brackets are read as the class's. -/
theorem encoded_star_ends_class : ∃ matcher,
    LocationPattern.parseUrl textUrls docGlob "mem://bucket/[%2A]" =
      .ok ⟨.url "mem://bucket/[%2A]" ⟨"mem://bucket/%5B%2A%5D"⟩ matcher ""⟩ ∧
    docGlob.matchesWith matcher "*" = false ∧ matchesRaw "[%2A]".toList "*".toList = true ∧
    docGlob.matchesWith matcher "*]" = true ∧ matchesRaw "[%2A]".toList "*]".toList = false :=
  ⟨[.within [.single '[', .single '*'], .char ']'], by decide +kernel, rfl, rfl, rfl, rfl⟩

end SilkChiffon.Storage
