import SilkChiffon.FileOutput.DistinctTargets
import SilkChiffon.Lib.Segments

/-!
# The structure of a rendered path

A template of literals and interpolations renders to the segments it was
written with, each value under its Hive name, and a URL keeps what surrounds its
path. The URL crate's own reading of a segment is what can get in between: it
skips tabs and line breaks, and in a `file` URL it rewrites a drive letter.
-/

namespace SilkChiffon.FileOutput

open Arrow
open Storage (UrlCrate Location LocationInput driveLetter hasDriveBar asciiLetter asBytes)

-- ---------------------------------------------------------------------------
-- URLs and engines
-- ---------------------------------------------------------------------------

structure UrlParts (U : Type) extends UrlCrate U where
  authority : U → String
  query : U → Option String

def UrlParts.SameEnvelope (parts : UrlParts U) (url url' : U) : Prop :=
  parts.scheme url = parts.scheme url' ∧ parts.authority url = parts.authority url' ∧
    parts.query url = parts.query url'

/-- The setters touch the path alone, and no tab or line break gets into it. -/
structure UrlParts.Lawful (parts : UrlParts U) : Prop where
  crate : parts.toUrlCrate.Lawful
  setRootPath : ∀ url, parts.SameEnvelope (parts.setRootPath url) url
  envelope : ∀ base segments url, parts.withSegments base segments = some url →
    parts.SameEnvelope url base
  unskipped : ∀ base segments url, parts.withSegments base segments = some url →
    ∀ b ∈ parts.decodedPath url, ¬ skipped b

/-- The engine drops a line break at the end of its source. -/
def dropLineBreak (text : List Char) : List Char :=
  let text := if text.getLast? = some '\n' then text.dropLast else text
  if text.getLast? = some '\r' then text.dropLast else text

/-- The engine copies the literals and formats the values between them. -/
def Engine.Copies (engine : Engine) (source : List Char) (layout : HiveLayout) : Prop :=
  ∀ environment context (values : PlainTag → Value),
    (∀ tag ∈ layout.keys, context.lookup tag.column = some (values tag)) →
      engine.render source environment context =
        .ok (({ layout with ending := dropLineBreak layout.ending } : HiveLayout).fill fun tag =>
          environment.formatter (values tag))

variable {U α : Type} {format : Formatter α} {values : PartitionValues α} {fileNumber : Option Nat}
  {layout : HiveLayout} {template : OutputTargetTemplate U}

-- ---------------------------------------------------------------------------
-- Names of the slots
-- ---------------------------------------------------------------------------

def Provides (values : PartitionValues α) (fileNumber : Option Nat) (column : String) : Prop :=
  (values.get column).isSome ∨ column = "file_number" ∧ fileNumber.isSome

def slotText (format : Formatter α) (values : PartitionValues α) (fileNumber : Option Nat)
    (column : String) : List Char :=
  match fileNumber with
  | some n => if column = "file_number" then (toString n).toList else columnText format values column
  | none => columnText format values column

def slotName (format : Formatter α) (values : PartitionValues α) (fileNumber : Option Nat)
    (tag : PlainTag) : Bytes :=
  nameBytes (slotText format values fileNumber tag.column)

theorem slashFree_slotName (tag : PlainTag) : 47 ∉ slotName format values fileNumber tag :=
  fun h => (mem_nameBytes h).2.2 (by decide)

theorem context_slot (h : OutputTargetTemplate.context format values fileNumber = .ok context)
    (hcolumn : Provides values fileNumber column) :
    context.lookup column = some ⟨slotText format values fileNumber column, false⟩ := by
  obtain ⟨context', hvalues, h⟩ := Lists.bind_eq_ok.mp h
  cases fileNumber with
  | none =>
    obtain rfl := Except.ok.inj h
    exact fieldValues_lookup hvalues (hcolumn.resolve_right (by simp))
  | some n =>
    obtain rfl := Except.ok.inj h
    by_cases hname : column = "file_number"
    · subst hname
      simp [slotText]
    · rw [List.lookup_cons, beq_false_of_ne hname]
      simp only [slotText, if_neg hname]
      exact fieldValues_lookup hvalues (hcolumn.resolve_right fun h => hname h.1)

-- ---------------------------------------------------------------------------
-- The template's own structure
-- ---------------------------------------------------------------------------

/-- The URL that the template is with a letter in place of each tag. -/
def MasksTo (crate : UrlCrate U) (pattern : String) (template : OutputTargetTemplate U) (url : U) : Prop :=
  ∃ before masked after, pattern.toList = before ++ template.objectPathTemplate ++ after ∧
    maskTemplateTags template.objectPathTemplate = .ok masked ∧
    LocationInput.parse crate (String.ofList (before ++ masked ++ after)) = .ok (.url ⟨url⟩)

def HiveLayout.filledSegments (layout : HiveLayout) (template : OutputTargetTemplate U)
    (name : PlainTag → Bytes) : List Bytes :=
  (layout.segments '/').map fun segment => (segment.mapLiterals (literalBytes template)).fill name

/-- An object path with the template's segments, none of them empty or a dot
segment. -/
structure HasStructure (layout : HiveLayout) (template : OutputTargetTemplate U) (name : PlainTag → Bytes)
    (path : Bytes) : Prop where
  segments : path.splitOn 47 = layout.filledSegments template name
  proper : ∀ segment ∈ path.splitOn 47, segment ≠ [] ∧ segment ≠ [46] ∧ segment ≠ [46, 46]

def KeepsStructure (parts : UrlParts U) (pattern : String) (layout : HiveLayout)
    (template : OutputTargetTemplate U) (name : PlainTag → Bytes) (target : LocationInput U) : Prop :=
  match template.envelope, target with
  | .bare absolute, .bare text =>
    ∃ path, asBytes text = (if absolute then [47] else []) ++ path ∧ HasStructure layout template name path
  | .url _, .url location => ∃ path url, parts.decodedPath location.url = 47 :: path ∧
    HasStructure layout template name path ∧ MasksTo parts.toUrlCrate pattern template url ∧
    parts.SameEnvelope location.url url
  | _, _ => False

/-- Literals whose parts decode to no slash, tab or line break. -/
def PlainLiterals (layout : HiveLayout) : Prop :=
  ∀ literal ∈ layout.literals, ∀ part ∈ literal.splitOn '/',
    ∀ b ∈ Percent.decode (Text.utf8 part), b ≠ 47 ∧ ¬ skipped b

def IsDriveBar (segment : Bytes) : Prop := ∃ letter, asciiLetter letter = true ∧ segment = [letter, 124]

/-- The literals of a URL are plain, and the first segment of a `file` URL is no
drive letter with a bar. A bare path does not end in a line break. -/
def StructureSafe (parts : UrlParts U) (layout : HiveLayout) (template : OutputTargetTemplate U)
    (name : PlainTag → Bytes) : Prop :=
  match template.envelope with
  | .bare _ => dropLineBreak layout.ending = layout.ending
  | .url base => PlainLiterals layout ∧
    (parts.scheme base = "file" →
      ∀ first, (layout.filledSegments template name).head? = some first → ¬ IsDriveBar first)

theorem slash_utf8 : String.utf8EncodeChar '/' = [47] := by decide

theorem slash_notMem (c : Char) (h : c ≠ '/') : 47 ∉ String.utf8EncodeChar c := by
  intro hmem
  have hself := Text.utf8EncodeChar_of_lt hmem (by decide)
  have heq : Text.utf8 [c] = Text.utf8 ['/'] := by simp [Text.utf8, hself, slash_utf8]
  exact h (by simpa using Text.utf8_injective heq)

theorem splitOn_utf8 (text : List Char) : (Text.utf8 text).splitOn 47 = (text.splitOn '/').map Text.utf8 :=
  Lists.splitOn_flatMap slash_utf8 slash_notMem text

theorem splitOn_inj {path path' : Bytes} (h : path.splitOn 47 = path'.splitOn 47) : path = path' := by
  have hjoin := congrArg [47].intercalate h
  rwa [List.intercalate_splitOn, List.intercalate_splitOn] at hjoin

theorem hasDriveBar_iff (path : Bytes) :
    hasDriveBar path = true ↔ ∃ first, (path.splitOn 47).head? = some first ∧ IsDriveBar first := by
  have hslash : ∀ letter, asciiLetter letter = true → 47 ∉ [letter, 124] := by
    intro letter hletter hmem
    obtain rfl : 47 = letter := by simpa using hmem
    cases hletter
  constructor
  · intro h
    unfold hasDriveBar at h
    split at h
    · rename_i letter mark rest
      simp only [Bool.and_eq_true, decide_eq_true_eq, Bool.or_eq_true] at h
      obtain ⟨⟨rfl, hletter⟩, hrest⟩ := h
      refine ⟨[letter, 124], ?_, letter, hletter, rfl⟩
      rcases hrest with hrest | hrest
      · obtain rfl : rest = [] := by simpa using hrest
        rw [List.splitOn_eq_singleton (hslash letter hletter)]
        rfl
      · obtain ⟨rest, rfl⟩ : ∃ rest', rest = 47 :: rest' := by
          cases rest with
          | nil => cases hrest
          | cons b rest => exact ⟨rest, by rw [Option.some.inj hrest]⟩
        have hsplit := List.splitOn_append_cons_self_of_not_mem (hslash letter hletter) rest
        rw [List.cons_append, List.cons_append, List.nil_append] at hsplit
        rw [hsplit]
        rfl
    · cases h
  · rintro ⟨first, hfirst, letter, hletter, rfl⟩
    obtain ⟨rest, hrest⟩ : ∃ rest, path.splitOn 47 = [letter, 124] :: rest := by
      obtain ⟨first, rest, h⟩ := List.exists_cons_of_ne_nil (List.splitOn_ne_nil 47 path)
      rw [h] at hfirst
      exact ⟨rest, by rw [h, Option.some.inj hfirst]⟩
    have hjoin : [47].intercalate (path.splitOn 47) = path := List.intercalate_splitOn 47
    rw [← hjoin, hrest]
    cases rest with
    | nil => simp [hasDriveBar, hletter]
    | cons next rest => simp [hasDriveBar, hletter]

theorem splitOn_literalBytes (h : template.envelope.isUrl = true → ∀ part ∈ literal.splitOn '/',
    47 ∉ Percent.decode (Text.utf8 part)) :
    (literalBytes template literal).splitOn 47 = (literal.splitOn '/').map (literalBytes template) := by
  cases hurl : template.envelope.isUrl with
  | false =>
    have hbytes : literalBytes template = Text.utf8 := by
      funext literal
      simp [literalBytes, hurl]
    rw [hbytes, splitOn_utf8]
  | true =>
    have hbytes : literalBytes template = fun literal => Percent.decode (Text.utf8 literal) := by
      funext literal
      simp [literalBytes, hurl]
    rw [hbytes, Percent.splitOn_decode (by decide) (by decide), splitOn_utf8, List.map_map]
    · rfl
    · rw [splitOn_utf8]
      intro part hpart
      obtain ⟨text, htext, rfl⟩ := List.mem_map.mp hpart
      exact h hurl text htext

theorem splitOn_filled (h : template.envelope.isUrl = true → ∀ literal ∈ layout.literals,
    ∀ part ∈ literal.splitOn '/', 47 ∉ Percent.decode (Text.utf8 part))
    (hname : ∀ tag, 47 ∉ name tag) :
    ((layout.mapLiterals (literalBytes template)).fill name).splitOn 47 =
      layout.filledSegments template name :=
  Text.Pattern.splitOn_fill
    (fun literal hliteral => splitOn_literalBytes fun hurl => h hurl literal hliteral) fun tag _ => hname tag

-- ---------------------------------------------------------------------------
-- Rendering
-- ---------------------------------------------------------------------------

variable {parts : UrlParts U} {engine : Engine} {pattern : String}

theorem masksTo_of_new {crate : UrlCrate U}
    (hnew : OutputTargetTemplate.new debug crate engine pattern = .ok template)
    (hurl : template.envelope = .url base) :
    ∃ url, MasksTo crate pattern template url ∧ base = crate.setRootPath url := by
  obtain ⟨scheme, rest, hparse, hpattern⟩ := new_url_ok hnew (by rw [hurl]; rfl)
  obtain ⟨fixed, masked, query, ⟨url⟩, hmasked, hlocation, hbase, hrest⟩ := parseUrlEnvelope_ok hparse
  rw [hurl] at hbase
  exact ⟨url, ⟨fixed ++ ['/'], masked, query, hpattern.trans hrest, hmasked, hlocation⟩,
    OutputEnvelope.url.inj hbase⟩

theorem render_path {crate : UrlCrate U} {target : LocationInput U}
    (hnew : OutputTargetTemplate.new debug crate engine pattern = .ok template)
    (hsource : lexemes template.objectPathTemplate = .ok layout.lexemes)
    (hengine : engine.Copies template.objectPathTemplate layout)
    (hcolumns : ∀ column ∈ layout.columns, Provides values fileNumber column)
    (h : template.render debug crate engine format values fileNumber = .ok target) :
    ∃ path, Text.utf8 path = ((({ layout with ending := dropLineBreak layout.ending } : HiveLayout).mapLiterals
        (literalBytes template)).fill (slotName format values fileNumber)) ∧
      (∀ segment ∈ path.splitOn '/', segment ≠ [] ∧ segment ≠ ['.'] ∧ segment ≠ ['.', '.']) ∧
      OutputTargetTemplate.locationOf debug crate path template.envelope = .ok target := by
  unfold OutputTargetTemplate.render at h
  obtain ⟨_, h⟩ := Lists.ite_throw_ok.mp h
  obtain ⟨context, hcontext, h⟩ := Lists.bind_eq_ok.mp h
  obtain ⟨rendered, hrendered, h⟩ := Lists.bind_eq_ok.mp h
  obtain ⟨path, hpath, h⟩ := Lists.bind_eq_ok.mp h
  obtain ⟨_, hvalid, hlocation⟩ := Lists.bind_eq_ok.mp h
  have hfilled := hengine template.environment context
    (fun tag => ⟨slotText format values fileNumber tag.column, false⟩)
    fun tag htag => context_slot hcontext (hcolumns _ (List.mem_map_of_mem htag))
  obtain rfl := Except.ok.inj (hfilled.symm.trans (Lists.mapError_eq_ok.mp hrendered))
  have hcomplete := complete_literals hnew hsource
  exact ⟨path, objectPath_bytes hcomplete hpath, validateObjectPath_ok hvalid, hlocation⟩

theorem proper_utf8 {path : List Char}
    (h : ∀ segment ∈ path.splitOn '/', segment ≠ [] ∧ segment ≠ ['.'] ∧ segment ≠ ['.', '.']) :
    ∀ segment ∈ (Text.utf8 path).splitOn 47, segment ≠ [] ∧ segment ≠ [46] ∧ segment ≠ [46, 46] := by
  rw [splitOn_utf8]
  intro segment hsegment
  obtain ⟨text, htext, rfl⟩ := List.mem_map.mp hsegment
  obtain ⟨hempty, hdot, hdots⟩ := h text htext
  exact ⟨fun heq => hempty (Text.eq_nil_of_utf8 heq),
    fun heq => hdot (Text.utf8_injective (heq.trans (by decide))),
    fun heq => hdots (Text.utf8_injective (heq.trans (by decide)))⟩

/-- A bare path has the template's structure exactly if nothing is dropped
from its end. -/
theorem bare_structure_iff {path : List Char} {target : LocationInput U}
    (henvelope : template.envelope = .bare absolute)
    (hpath : Text.utf8 path = ((({ layout with ending := dropLineBreak layout.ending } : HiveLayout).mapLiterals
        (literalBytes template)).fill (slotName format values fileNumber)))
    (hproper : ∀ segment ∈ path.splitOn '/', segment ≠ [] ∧ segment ≠ ['.'] ∧ segment ≠ ['.', '.'])
    (hlocation : OutputTargetTemplate.locationOf debug parts.toUrlCrate path template.envelope = .ok target) :
    KeepsStructure parts pattern layout template (slotName format values fileNumber) target ↔
      StructureSafe parts layout template (slotName format values fileNumber) := by
  have hnotUrl : template.envelope.isUrl = false := by rw [henvelope]; rfl
  rw [henvelope] at hlocation
  obtain rfl := Except.ok.inj hlocation
  have hbytes : asBytes (String.ofList ((if absolute then ['/'] else []) ++ path)) =
      (if absolute then [47] else []) ++ Text.utf8 path := by
    rw [asBytes, String.toList_ofList, Text.utf8_append]
    cases absolute <;> rfl
  have hfilled : ((layout.mapLiterals (literalBytes template)).fill (slotName format values fileNumber)).splitOn 47 =
      layout.filledSegments template (slotName format values fileNumber) :=
    splitOn_filled (fun hurl => by rw [hnotUrl] at hurl; cases hurl) slashFree_slotName
  simp only [KeepsStructure, StructureSafe, henvelope, hbytes]
  constructor
  · rintro ⟨path', hpath', hstructure⟩
    obtain rfl := List.append_cancel_left hpath'
    have hfill := splitOn_inj (hstructure.segments.trans hfilled.symm)
    rw [hpath, Text.Pattern.fill_eq_append, Text.Pattern.fill_eq_append (layout.mapLiterals _)] at hfill
    have hending := List.append_cancel_left hfill
    simp only [Text.Pattern.mapLiterals, literalBytes, hnotUrl] at hending
    exact Text.utf8_injective hending
  · intro hending
    refine ⟨_, rfl, ?_, proper_utf8 hproper⟩
    rw [hpath, hending]
    exact hfilled

theorem PlainLiterals.dropLineBreak (h : PlainLiterals layout) : dropLineBreak layout.ending = layout.ending := by
  have hbreak : ∀ (c : Char) (b : UInt8), String.utf8EncodeChar c = [b] → skipped b → b ≠ Percent.percent →
      Percent.hexValue b = none → c ≠ '/' → layout.ending.getLast? ≠ some c := by
    intro c b hencode hskipped hpercent hdigit hslash hlast
    obtain ⟨part, hpart, hmem⟩ := Lists.mem_splitOn_of_mem (List.mem_of_getLast? hlast) hslash
    have hb : b ∈ Text.utf8 part := List.mem_flatMap.mpr ⟨c, hmem, by simp [hencode]⟩
    exact (h layout.ending (by simp [HiveLayout.literals]) part hpart b
      (Percent.mem_decode hpercent hdigit hb)).2 hskipped
  have hfeed := hbreak '\n' 10 (by decide) (.inr (.inl rfl)) (by decide) (by decide) (by decide)
  have hreturn := hbreak '\r' 13 (by decide) (.inr (.inr rfl)) (by decide) (by decide) (by decide)
  simp only [FileOutput.dropLineBreak, if_neg hfeed, if_neg hreturn]

theorem exists_filledSegment (hliteral : literal ∈ layout.literals) (hpart : part ∈ literal.splitOn '/')
    (hb : b ∈ literalBytes template part) (name : PlainTag → Bytes) :
    ∃ segment ∈ layout.filledSegments template name, b ∈ segment := by
  obtain ⟨segment, hsegment, hmem⟩ := Text.Pattern.exists_segment hliteral hpart
  exact ⟨_, List.mem_map_of_mem hsegment, Text.Pattern.mem_fill_of_literal hmem hb name⟩

/-- A structure that is kept shows in the literals. -/
theorem HasStructure.plain (h : HasStructure layout template name path)
    (hurl : template.envelope.isUrl = true) (hunskipped : ∀ b ∈ path, ¬ skipped b) : PlainLiterals layout := by
  intro literal hliteral part hpart b hb
  have hbytes : b ∈ literalBytes template part := by rwa [literalBytes, if_pos hurl]
  obtain ⟨segment, hsegment, hmem⟩ := exists_filledSegment hliteral hpart hbytes name
  rw [← h.segments] at hsegment
  constructor
  · rintro rfl
    exact Lists.notMem_of_mem_splitOn hsegment hmem
  · exact hunskipped b (Lists.mem_of_mem_splitOn hsegment hmem)

theorem PlainLiterals.not_skipped (h : PlainLiterals layout) (hurl : template.envelope.isUrl = true)
    (hliteral : literal ∈ layout.literals) (hb : b ∈ literalBytes template literal) : ¬ skipped b := by
  intro hskipped
  have hsplit : (literalBytes template literal).splitOn 47 = (literal.splitOn '/').map (literalBytes template) :=
    splitOn_literalBytes fun _ part hpart hmem => (h literal hliteral part hpart 47 hmem).1 rfl
  have hne : b ≠ 47 := by
    rintro rfl
    rcases hskipped with h | h | h <;> cases h
  obtain ⟨bytes, hbytes, hmem⟩ := Lists.mem_splitOn_of_mem hb hne
  rw [hsplit] at hbytes
  obtain ⟨part, hpart, rfl⟩ := List.mem_map.mp hbytes
  rw [literalBytes, if_pos hurl] at hmem
  exact (h literal hliteral part hpart b hmem).2 hskipped

/-- With plain literals the URL holds the rendered path, a drive letter aside. -/
theorem PlainLiterals.decodedPath {path : List Char} (h : PlainLiterals layout) (hparts : parts.Lawful)
    (hurl : template.envelope.isUrl = true)
    (hpath : Text.utf8 path = ((({ layout with ending := FileOutput.dropLineBreak layout.ending } : HiveLayout).mapLiterals
        (literalBytes template)).fill (slotName format values fileNumber)))
    (hproper : ∀ segment ∈ path.splitOn '/', segment ≠ [] ∧ segment ≠ ['.'] ∧ segment ≠ ['.', '.'])
    (hplaced : parts.withSegments base ((path.splitOn '/').map String.ofList) = some url) :
    (Text.utf8 path).splitOn 47 = layout.filledSegments template (slotName format values fileNumber) ∧
      parts.decodedPath url = 47 :: placedUrl parts.toUrlCrate base path := by
  rw [h.dropLineBreak] at hpath
  have hsegments : (Text.utf8 path).splitOn 47 =
      layout.filledSegments template (slotName format values fileNumber) := by
    rw [hpath]
    exact splitOn_filled (fun _ literal hliteral part hpart hmem =>
      (h literal hliteral part hpart 47 hmem).1 rfl) slashFree_slotName
  refine ⟨hsegments, withSegments_decodedPath hparts.crate hproper ?_ hplaced⟩
  intro b hb
  rw [hpath] at hb
  rcases Text.Pattern.mem_fill hb with ⟨s, hs, hb | hb⟩ | hb
  · obtain ⟨t, ht, rfl⟩ := List.mem_map.mp hs
    exact h.not_skipped hurl (List.mem_append_left _ (List.mem_map_of_mem ht)) hb
  · have hlow := (mem_nameBytes hb).2.1
    rintro (rfl | rfl | rfl) <;> exact absurd hlow (by decide)
  · exact h.not_skipped hurl (by simp [HiveLayout.literals]) hb

theorem driveLetter_eq_iff (path : Bytes) : driveLetter path = path ↔ hasDriveBar path = false := by
  rw [← Bool.not_eq_true]
  constructor
  · intro heq hbar
    obtain ⟨letter, rest, rfl, hreplaced⟩ := Storage.hasDriveBar_eq hbar
    rw [heq] at hreplaced
    simp at hreplaced
  · exact fun hbar => if_neg hbar

/-- A URL has the template's structure exactly if its literals are plain and no
drive letter is rewritten. -/
theorem url_structure_iff {path : List Char} {target : LocationInput U} (hparts : parts.Lawful)
    (hnew : OutputTargetTemplate.new debug parts.toUrlCrate engine pattern = .ok template)
    (henvelope : template.envelope = .url base)
    (hpath : Text.utf8 path = ((({ layout with ending := dropLineBreak layout.ending } : HiveLayout).mapLiterals
        (literalBytes template)).fill (slotName format values fileNumber)))
    (hproper : ∀ segment ∈ path.splitOn '/', segment ≠ [] ∧ segment ≠ ['.'] ∧ segment ≠ ['.', '.'])
    (hlocation : OutputTargetTemplate.locationOf debug parts.toUrlCrate path template.envelope = .ok target) :
    KeepsStructure parts pattern layout template (slotName format values fileNumber) target ↔
      StructureSafe parts layout template (slotName format values fileNumber) := by
  have hisUrl : template.envelope.isUrl = true := by rw [henvelope]; rfl
  rw [henvelope] at hlocation
  obtain ⟨url, rfl, hplaced⟩ := locationOf_url hlocation hparts.crate
  obtain ⟨shown, hshown, hbase⟩ := masksTo_of_new hnew henvelope
  have hunskipped := hparts.unskipped _ _ _ hplaced
  simp only [KeepsStructure, StructureSafe, henvelope]
  constructor
  · rintro ⟨path', url', hdecoded, hstructure, -, -⟩
    have hplain : PlainLiterals layout :=
      hstructure.plain hisUrl fun b hb => hunskipped b (hdecoded ▸ List.mem_cons_of_mem _ hb)
    obtain ⟨hsegments, hdecoded'⟩ := hplain.decodedPath hparts hisUrl hpath hproper hplaced
    refine ⟨hplain, fun hfile first hfirst hbar => ?_⟩
    have hplacedPath : path' = placedUrl parts.toUrlCrate base path :=
      (List.cons.inj (hdecoded.symm.trans hdecoded')).2
    rw [splitOn_inj (hstructure.segments.trans hsegments.symm), placedUrl, if_pos hfile, eq_comm,
      driveLetter_eq_iff] at hplacedPath
    rw [← hsegments] at hfirst
    rw [(hasDriveBar_iff _).mpr ⟨first, hfirst, hbar⟩] at hplacedPath
    cases hplacedPath
  · rintro ⟨hplain, hdrive⟩
    obtain ⟨hsegments, hdecoded⟩ := PlainLiterals.decodedPath hplain hparts hisUrl hpath hproper hplaced
    have hplacedPath : placedUrl parts.toUrlCrate base path = Text.utf8 path := by
      unfold placedUrl
      split
      · rename_i hfile
        rw [driveLetter_eq_iff, ← Bool.not_eq_true, hasDriveBar_iff, hsegments]
        rintro ⟨first, hfirst, hbar⟩
        exact hdrive hfile first hfirst hbar
      · rfl
    rw [hplacedPath] at hdecoded
    have hsame := hparts.envelope _ _ _ hplaced
    have hsame' := hparts.setRootPath shown
    rw [← hbase] at hsame'
    exact ⟨_, shown, hdecoded, ⟨hsegments, proper_utf8 hproper⟩, hshown,
      hsame.1.trans hsame'.1, hsame.2.1.trans hsame'.2.1, hsame.2.2.trans hsame'.2.2⟩

/-- A rendered target has the structure of its template, with Hive names in its
slots, exactly where the URL crate and the engine take the text as it is. -/
theorem structure_kept_iff {target : LocationInput U} (hparts : parts.Lawful)
    (hnew : OutputTargetTemplate.new debug parts.toUrlCrate engine pattern = .ok template)
    (hsource : lexemes template.objectPathTemplate = .ok layout.lexemes)
    (hengine : engine.Copies template.objectPathTemplate layout)
    (hcolumns : ∀ column ∈ layout.columns, Provides values fileNumber column)
    (h : template.render debug parts.toUrlCrate engine format values fileNumber = .ok target) :
    KeepsStructure parts pattern layout template (slotName format values fileNumber) target ↔
      StructureSafe parts layout template (slotName format values fileNumber) := by
  obtain ⟨path, hpath, hproper, hlocation⟩ := render_path hnew hsource hengine hcolumns h
  cases henvelope : template.envelope with
  | bare absolute => exact bare_structure_iff henvelope hpath hproper hlocation
  | url base => exact url_structure_iff hparts hnew henvelope hpath hproper hlocation

-- ---------------------------------------------------------------------------
-- A drive letter
-- ---------------------------------------------------------------------------

def unskippedBytes (segment : String) : Bytes := (asBytes segment).filter fun b => ¬ (b = 9 ∨ b = 10 ∨ b = 13)

def fileUrls : UrlParts String where
  toUrlCrate := { localCrate with
    withSegments := fun _ segments =>
      let path := driveLetter ([47].intercalate (segments.map unskippedBytes))
      some ("file:///" ++ String.ofList ((Percent.encode escapesAscii path).map Text.asciiChar)) }
  authority _ := ""
  query _ := none

def driveLayout : HiveLayout := ⟨[([], ⟨"drive", 1, 1⟩)], "/out.parquet".toList⟩

def driveTemplate : OutputTargetTemplate String := ⟨"\x7b\x7b drive \x7d\x7d/out.parquet".toList, .url "file:///"⟩

theorem driveTemplate_new (debug : Debug) : OutputTargetTemplate.new debug fileUrls.toUrlCrate plainEngine
    "file:///\x7b\x7b drive \x7d\x7d/out.parquet" = .ok driveTemplate := rfl

theorem plainEngine_copies (hsource : lexemes source = .ok layout.lexemes)
    (hnames : ∀ tag ∈ layout.keys, tag.column.toList.all (· ≠ ' ') = true)
    (hending : dropLineBreak layout.ending = layout.ending) : plainEngine.Copies source layout := by
  intro environment context values hvalues
  rw [hending]
  exact plainEngine_render hsource hnames hvalues

theorem fileUrls_decodedPath (h : fileUrls.withSegments base segments = some url) :
    fileUrls.decodedPath url = 47 :: driveLetter ([47].intercalate (segments.map unskippedBytes)) := by
  obtain rfl := Option.some.inj h
  simp only [UrlCrate.decodedPath, fileUrls, localCrate, asBytes, String.toList_append, String.toList_ofList]
  refine (Percent.decode_cons_of_ne (by decide)).trans (congrArg _ (decode_escapesAscii _))

theorem unskippedBytes_plain {segment : List Char} (h : Storage.PlainSegment segment) :
    unskippedBytes (String.ofList segment) = Text.utf8 segment := by
  obtain ⟨-, -, -, hplain⟩ := h
  have hne : ∀ (c : Char) (b : UInt8), String.utf8EncodeChar c = [b] → b < 128 → c ∉ segment →
      b ∉ Text.utf8 segment := by
    intro c b hencode hlt hc hb
    obtain ⟨d, hd, hmem⟩ := List.mem_flatMap.mp hb
    have heq : Text.utf8 [d] = Text.utf8 [c] := by
      simp [Text.utf8, hencode, Text.utf8EncodeChar_of_lt hmem hlt]
    obtain rfl : d = c := by simpa using Text.utf8_injective heq
    exact hc hd
  have htab := hne '\t' 9 (by decide) (by decide) fun h => (hplain _ h).2.1 rfl
  have hfeed := hne '\n' 10 (by decide) (by decide) fun h => (hplain _ h).2.2.1 rfl
  have hreturn := hne '\r' 13 (by decide) (by decide) fun h => (hplain _ h).2.2.2 rfl
  rw [unskippedBytes, asBytes, String.toList_ofList, List.filter_eq_self]
  intro b hb
  rw [decide_eq_true_eq]
  rintro (rfl | rfl | rfl)
  · exact htab hb
  · exact hfeed hb
  · exact hreturn hb

theorem mem_driveLetter (h : b ∈ driveLetter path) : b ∈ path ∨ b = 58 := by
  unfold driveLetter at h
  split at h
  · exact List.mem_or_eq_of_mem_set h
  · exact .inl h

theorem utf8_intercalate (segments : List (List Char)) :
    Text.utf8 (['/'].intercalate segments) = [47].intercalate (segments.map Text.utf8) := by
  induction segments with
  | nil => rfl
  | cons segment segments ih =>
    cases segments with
    | nil => simp
    | cons next segments =>
      rw [List.intercalate_cons_cons, Text.utf8_append, Text.utf8_append, ih]
      simp [Text.utf8, slash_utf8]

theorem fileUrls_lawful : fileUrls.Lawful where
  crate := {
    asStr_inj := localCrate_lawful.asStr_inj
    fromFilePath := localCrate_lawful.fromFilePath
    withSegments := by
      intro base segments url hplain h
      have hbytes : (segments.map String.ofList).map unskippedBytes = segments.map Text.utf8 := by
        rw [List.map_map]
        exact List.map_congr_left fun segment hsegment => unskippedBytes_plain (hplain segment hsegment)
      refine (fileUrls_decodedPath h).trans ?_
      rw [hbytes, ← utf8_intercalate]
      rfl }
  setRootPath _ := ⟨rfl, rfl, rfl⟩
  envelope _ _ _ _ := ⟨rfl, rfl, rfl⟩
  unskipped := by
    intro base segments url h b hb hskipped
    rw [fileUrls_decodedPath h] at hb
    have hother : ¬ skipped 47 ∧ ¬ skipped 58 := by simp [skipped]
    rcases List.mem_cons.mp hb with rfl | hb
    · exact hother.1 hskipped
    rcases mem_driveLetter hb with hb | rfl
    · rcases Lists.mem_intercalate hb with rfl | ⟨part, hpart, hb⟩
      · exact hother.1 hskipped
      · obtain ⟨segment, -, rfl⟩ := List.mem_map.mp hpart
        exact of_decide_eq_true (List.mem_filter.mp hb).2 hskipped
    · exact hother.2 hskipped

theorem driveLayout_source : lexemes driveTemplate.objectPathTemplate = .ok driveLayout.lexemes := by decide

theorem driveLayout_copies : plainEngine.Copies driveTemplate.objectPathTemplate driveLayout :=
  plainEngine_copies driveLayout_source (by decide) (by decide)

/-- A drive without a bar keeps its place. -/
theorem structure_kept_iff_drive :
    KeepsStructure fileUrls "file:///\x7b\x7b drive \x7d\x7d/out.parquet" driveLayout driveTemplate
      (slotName some [("drive", some "C")] none) (.url ⟨"file:///C/out.parquet"⟩) ↔
    StructureSafe fileUrls driveLayout driveTemplate (slotName some [("drive", some "C")] none) :=
  structure_kept_iff fileUrls_lawful (driveTemplate_new ⟨id, fun _ => ""⟩) driveLayout_source driveLayout_copies
    (by simp [Provides, HiveLayout.columns, Text.Pattern.keys, driveLayout, PartitionValues.get]) rfl

/-- The value `C|` becomes the directory `C:`. -/
theorem drive_letter_rewritten : fileUrls.Lawful ∧
    plainEngine.Copies driveTemplate.objectPathTemplate driveLayout ∧
    driveTemplate.render ⟨id, fun _ => ""⟩ fileUrls.toUrlCrate plainEngine some [("drive", some "C|")] none =
      .ok (.url ⟨"file:///C:/out.parquet"⟩) ∧
    ¬ KeepsStructure fileUrls "file:///\x7b\x7b drive \x7d\x7d/out.parquet" driveLayout driveTemplate
      (slotName some [("drive", some "C|")] none) (.url ⟨"file:///C:/out.parquet"⟩) := by
  refine ⟨fileUrls_lawful, driveLayout_copies, rfl, ?_⟩
  rintro ⟨path, url, hpath, hstructure, -, -⟩
  have hdecoded : fileUrls.decodedPath "file:///C:/out.parquet" = 47 :: asBytes "C:/out.parquet" := by decide
  obtain rfl := (List.cons.inj (hdecoded.symm.trans hpath)).2
  have hsegments := hstructure.segments
  revert hsegments
  decide

end SilkChiffon.FileOutput
