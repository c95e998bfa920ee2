import SilkChiffon.FileOutput.PartitionKeys
import SilkChiffon.FileOutput.TargetTemplate
import SilkChiffon.Storage.OutputTargets

/-!
# The targets of partitions

In a Hive layout every partition column is a plain interpolation between
literal separators. Two partitions of one layout have one target when each
column has one name in both, and the three default values share a name.
-/

namespace SilkChiffon.FileOutput

open Arrow
open Storage (UrlCrate Location LocationInput asBytes)

-- ---------------------------------------------------------------------------
-- Hive names
-- ---------------------------------------------------------------------------

def namedText (text : List Char) : List Char := if text = [] then hiveDefaultPartition else text

def nameBytes (text : List Char) : Bytes := Percent.encode hiveEncodeSet (Text.utf8 (namedText text))

/-- A byte that no name holds: what Hive's escaping adds, but for the percent
sign it escapes with. -/
def separates (b : UInt8) : Prop := b ∈ Text.utf8 hiveMarks ∧ b ≠ Percent.percent

instance : DecidablePred separates := fun b => inferInstanceAs (Decidable (b ∈ _ ∧ b ≠ _))

theorem hiveEncodeSet_percent : hiveEncodeSet Percent.percent = true := by decide

theorem nameBytes_inj : nameBytes text = nameBytes text' ↔ namedText text = namedText text' :=
  ⟨fun h => Text.utf8_injective (Percent.encode_injective hiveEncodeSet_percent h),
    fun h => by rw [nameBytes, nameBytes, h]⟩

theorem marks_not_digits : ∀ b ∈ Text.utf8 hiveMarks, ¬ (48 ≤ b ∧ b ≤ 57) ∧ ¬ (65 ≤ b ∧ b ≤ 70) := by
  have hall : ((Text.utf8 hiveMarks).all fun b =>
      ¬ (48 ≤ b ∧ b ≤ 57) ∧ ¬ (65 ≤ b ∧ b ≤ 70)) = true := by decide
  exact fun b hb => of_decide_eq_true (List.all_eq_true.mp hall b hb)

theorem mem_nameBytes (h : b ∈ nameBytes text) : b < 128 ∧ 32 ≤ b ∧ ¬ separates b := by
  rcases Percent.mem_encode h with hplain | rfl | hdigit | hdigit
  · simp only [hiveEncodeSet, Bool.or_eq_false_iff, decide_eq_false_iff_not, UInt8.not_lt,
      UInt8.not_le] at hplain
    obtain ⟨⟨⟨hlow, _⟩, hhigh⟩, hmark⟩ := hplain
    exact ⟨hhigh, hlow, fun hsep => by simp [hsep.1] at hmark⟩
  · exact ⟨by decide, by decide, fun hsep => hsep.2 rfl⟩
  · refine ⟨UInt8.lt_of_le_of_lt hdigit.2 (by decide), UInt8.le_trans (by decide) hdigit.1, ?_⟩
    exact fun hsep => (marks_not_digits b hsep.1).1 hdigit
  · refine ⟨UInt8.lt_of_le_of_lt hdigit.2 (by decide), UInt8.le_trans (by decide) hdigit.1, ?_⟩
    exact fun hsep => (marks_not_digits b hsep.1).2 hdigit

theorem hiveEscapePath_eq (text : List Char) :
    hiveEscapePath text = (nameBytes text).map Text.asciiChar := by
  unfold hiveEscapePath
  split
  · rename_i h
    subst h
    decide
  · rename_i h
    rw [nameBytes, namedText, if_neg h]

theorem protectPercent_map {bs : Bytes} (h : ∀ b ∈ bs, b < 128) :
    protectPercent (bs.map Text.asciiChar) =
      (Percent.encode (· = Percent.percent) bs).map Text.asciiChar := by
  induction bs with
  | nil => rfl
  | cons b bs ih =>
    have hb : protectPercent [Text.asciiChar b] =
        (Percent.encode (· = Percent.percent) [b]).map Text.asciiChar := by
      have : ∀ n : Fin 128, protectPercent [Text.asciiChar (.ofNat n)] =
          (Percent.encode (· = Percent.percent) [.ofNat n]).map Text.asciiChar := by decide
      simpa using this ⟨b.toNat, h b List.mem_cons_self⟩
    have happend : ∀ l l', protectPercent (l ++ l') = protectPercent l ++ protectPercent l' :=
      fun l l' => List.flatMap_append
    rw [List.map_cons, ← List.singleton_append, happend, hb, ih fun b hb => h b (List.mem_cons_of_mem _ hb),
      ← List.map_append, ← Percent.encode_append, List.singleton_append]

theorem utf8_formatter (protects : Bool) (text : List Char) :
    Text.utf8 (formatter protects ⟨text, false⟩) =
      if protects then Percent.encode (· = Percent.percent) (nameBytes text) else nameBytes text := by
  have hascii : ∀ b ∈ nameBytes text, b < 128 := fun b hb => (mem_nameBytes hb).1
  have hencoded : ∀ b ∈ Percent.encode (· = Percent.percent) (nameBytes text), b < 128 := by
    intro b hb
    obtain ⟨c, hc, hb⟩ := List.mem_flatMap.mp hb
    split at hb
    · rename_i heq
      obtain rfl : c = Percent.percent := by simpa using heq
      have hall : ((Percent.encodeByte Percent.percent).all (· < 128)) = true := by decide
      exact of_decide_eq_true (List.all_eq_true.mp hall b hb)
    · obtain rfl := List.mem_singleton.mp hb
      exact hascii b hc
  have hformatted : formatter protects ⟨text, false⟩ =
      if protects then protectPercent (hiveEscapePath text) else hiveEscapePath text := rfl
  rw [hformatted, hiveEscapePath_eq]
  cases protects with
  | true => exact (congrArg Text.utf8 (protectPercent_map hascii)).trans (Text.utf8_map_asciiChar hencoded)
  | false => exact Text.utf8_map_asciiChar hascii

-- ---------------------------------------------------------------------------
-- Hive layouts
-- ---------------------------------------------------------------------------

/-- An interpolation of a column, with spaces around its name. -/
structure PlainTag where
  column : String
  before : Nat
  after : Nat
  deriving DecidableEq, Repr

def PlainTag.body (tag : PlainTag) : List Char :=
  List.replicate tag.before ' ' ++ tag.column.toList ++ List.replicate tag.after ' '

abbrev HiveLayout := Text.Pattern Char PlainTag

namespace HiveLayout

def lexemes (layout : HiveLayout) : List Lexeme :=
  (layout.mapLiterals (·.map Lexeme.plain)).fill fun tag => [.tag .expression tag.body]

def columns (layout : HiveLayout) : List String := layout.keys.map (·.column)

def literals (layout : HiveLayout) : List (List Char) := layout.slots.map (·.1) ++ [layout.ending]

end HiveLayout

/-- The engine copies the literals and formats the values between them. It may
drop a line break at the end of its source. -/
def Engine.Interpolates (engine : Engine) (source : List Char) (layout : HiveLayout) : Prop :=
  ∃ ending dropped, layout.ending = ending ++ dropped ∧ (∀ c ∈ dropped, c = '\n' ∨ c = '\r') ∧
    ∀ environment context (values : PlainTag → Value),
    (∀ tag ∈ layout.keys, context.lookup tag.column = some (values tag)) →
      engine.render source environment context =
        .ok (({ layout with ending } : HiveLayout).fill fun tag => environment.formatter (values tag))

/-- Tabs and line breaks, which URL parsing skips. -/
def skipped (b : UInt8) : Prop := b = 9 ∨ b = 10 ∨ b = 13

/-- Each partition column stands alone between literal separators: two of them
are apart by a character that Hive escapes. In a URL no literal holds what URL
parsing skips, neither as such nor escaped. -/
structure HiveLayout.Of (layout : HiveLayout) (template : OutputTargetTemplate U)
    (columnOrder : List String) : Prop where
  source : FileOutput.lexemes template.objectPathTemplate = .ok layout.lexemes
  separated : layout.Separated fun c => c ∈ hiveMarks ∧ c ≠ '%'
  columns : ∀ column, column ∈ layout.columns ↔ column ∈ columnOrder
  unskipped : template.envelope.isUrl = true → ∀ literal ∈ layout.literals,
    ∀ b ∈ Percent.decode (Text.utf8 literal), ¬ skipped b

variable {U α : Type} {layout : HiveLayout} {template : OutputTargetTemplate U}

def columnText (format : Formatter α) (values : PartitionValues α) (column : String) : List Char :=
  match values.get column with
  | some (some value) => ((format value).getD "").toList
  | _ => hiveDefaultPartition

theorem fieldValues_lookup {format : Formatter α} {values : PartitionValues α}
    (h : OutputTargetTemplate.fieldValues format values = .ok context)
    (hcolumn : (values.get column).isSome) :
    context.lookup column = some ⟨columnText format values column, false⟩ := by
  induction values generalizing context with
  | nil => cases hcolumn
  | cons p rest ih =>
    obtain ⟨name, cell⟩ := p
    unfold OutputTargetTemplate.fieldValues at h
    obtain ⟨text, htext, h⟩ := Lists.bind_eq_ok.mp h
    obtain ⟨context', hcontext, h⟩ := Lists.bind_eq_ok.mp h
    obtain rfl := Except.ok.inj h
    by_cases hname : column = name
    · subst hname
      have hget : PartitionValues.get ((column, cell) :: rest) column = some cell := by
        simp [PartitionValues.get]
      simp only [List.lookup_cons_self, columnText, hget]
      unfold OutputTargetTemplate.valueText at htext
      cases cell with
      | none =>
        obtain rfl := Except.ok.inj htext
        rfl
      | some value =>
        simp only at htext
        split at htext
        · rename_i formatted hformat
          obtain rfl := Except.ok.inj htext
          simp [hformat]
        · cases htext
    · have hget : PartitionValues.get ((name, cell) :: rest) column = PartitionValues.get rest column := by
        simp [PartitionValues.get, List.lookup_cons, beq_false_of_ne hname]
      rw [hget] at hcolumn
      simp only [List.lookup_cons, beq_false_of_ne hname, columnText, hget]
      exact ih hcontext hcolumn

theorem context_lookup {format : Formatter α} {values : PartitionValues α}
    (h : OutputTargetTemplate.context format values none = .ok context)
    (hcolumn : (values.get column).isSome) :
    context.lookup column = some ⟨columnText format values column, false⟩ := by
  obtain ⟨context', hvalues, h⟩ := Lists.bind_eq_ok.mp h
  obtain rfl := Except.ok.inj h
  exact fieldValues_lookup hvalues hcolumn

-- ---------------------------------------------------------------------------
-- Complete escapes
-- ---------------------------------------------------------------------------

theorem complete_slots {pattern : Text.Pattern UInt8 PlainTag} {value : PlainTag → Bytes}
    (hvalue : ∀ tag, value tag = [120])
    (h : Percent.complete (pattern.fill value ++ query) = true) :
    ∀ s ∈ pattern.slots, Percent.complete s.1 = true := by
  obtain ⟨slots, ending⟩ := pattern
  change Percent.complete (Text.Pattern.fillSlots value ending slots ++ query) = true at h
  induction slots with
  | nil => simp
  | cons first slots ih =>
    have hsplit : Text.Pattern.fillSlots value ending (first :: slots) ++ query =
        first.1 ++ 120 :: (Text.Pattern.fillSlots value ending slots ++ query) := by
      simp [Text.Pattern.fillSlots, hvalue]
    rw [hsplit] at h
    obtain ⟨hfirst, hrest⟩ := Percent.complete_split (by decide) (by decide) h
    intro s hs
    rcases List.mem_cons.mp hs with rfl | hs
    · exact hfirst
    · exact ih hrest s hs

theorem maskTemplateTags_layout (h : lexemes source = .ok layout.lexemes) :
    maskTemplateTags source = .ok (layout.fill fun _ => ['x']) := by
  have hmask : layout.lexemes.map Lexeme.masked =
      ((layout.mapLiterals (·.map Lexeme.plain)).mapLiterals (·.map Lexeme.masked)).fill
        fun _ => ['x'] :=
    Text.Pattern.map_fill fun s _ rest => by simp [Lexeme.masked]
  have hplain : (layout.mapLiterals (·.map Lexeme.plain)).mapLiterals (·.map Lexeme.masked) = layout := by
    have hid : ∀ text : List Char, (text.map Lexeme.plain).map Lexeme.masked = text := by
      intro text
      simp [Lexeme.masked, Function.comp_def]
    simp only [Text.Pattern.mapLiterals, List.map_map, hid]
    simp [Function.comp_def, hid]
  rw [hplain] at hmask
  rw [maskTemplateTags, h]
  exact congrArg Except.ok hmask

/-- In a URL the escapes of a literal end before the next tag. -/
theorem complete_literals {engine : Engine}
    (hnew : OutputTargetTemplate.new debug crate engine pattern = .ok template)
    (hsource : lexemes template.objectPathTemplate = .ok layout.lexemes)
    (hurl : template.envelope.isUrl = true) :
    ∀ s ∈ layout.slots, Percent.complete (Text.utf8 s.1) = true := by
  obtain ⟨scheme, rest, hparse, -⟩ := new_url_ok hnew hurl
  obtain ⟨fixed, masked, query, location, hmasked, hlocation, -⟩ := parseUrlEnvelope_ok hparse
  obtain rfl := Except.ok.inj ((maskTemplateTags_layout hsource).symm.trans hmasked)
  have hcomplete := (Storage.parseUrl_ok (Storage.parse_url_ok hlocation)).escapes
  simp only [Storage.hasValidPercentEncoding, asBytes, String.toList_ofList, Text.utf8_append,
    List.append_assoc] at hcomplete
  have hslash : Text.utf8 ['/'] = [47] := by decide
  rw [hslash, List.singleton_append] at hcomplete
  have hpath := (Percent.complete_split (by decide) (by decide) hcomplete).2
  have hfill : Text.utf8 (layout.fill fun _ => ['x']) =
      (layout.mapLiterals Text.utf8).fill fun _ => [120] :=
    Text.Pattern.map_fill fun s _ rest => by
      rw [Text.utf8_append, Text.utf8_append]
      rfl
  rw [hfill] at hpath
  intro s hs
  exact complete_slots (fun _ => rfl) hpath (Text.utf8 s.1, s.2) (List.mem_map.mpr ⟨s, hs, rfl⟩)

-- ---------------------------------------------------------------------------
-- Object paths
-- ---------------------------------------------------------------------------

/-- The literals of a layout as the object path holds them. -/
def literalBytes (template : OutputTargetTemplate U) (literal : List Char) : Bytes :=
  if template.envelope.isUrl then Percent.decode (Text.utf8 literal) else Text.utf8 literal

theorem objectPath_bytes {text : PlainTag → List Char}
    (hcomplete : template.envelope.isUrl = true → ∀ s ∈ layout.slots, Percent.complete (Text.utf8 s.1) = true)
    (hpath : template.objectPath (layout.fill fun tag =>
      formatter template.envelope.isUrl ⟨text tag, false⟩) = .ok path) :
    Text.utf8 path =
      (layout.mapLiterals (literalBytes template)).fill fun tag => nameBytes (text tag) := by
  have hutf8 : Text.utf8 (layout.fill fun tag => formatter template.envelope.isUrl ⟨text tag, false⟩) =
      (layout.mapLiterals Text.utf8).fill fun tag =>
        if template.envelope.isUrl then Percent.encode (· = Percent.percent) (nameBytes (text tag))
        else nameBytes (text tag) :=
    Text.Pattern.map_fill fun s _ rest => by
      rw [Text.utf8_append, Text.utf8_append, utf8_formatter]
  unfold OutputTargetTemplate.objectPath at hpath
  cases hurl : template.envelope with
  | bare absolute =>
    have hliteral : literalBytes template = Text.utf8 := by
      funext literal
      simp [literalBytes, hurl, OutputEnvelope.isUrl]
    simp only [hurl] at hpath
    rw [← Except.ok.inj hpath, hliteral]
    simpa [hurl, OutputEnvelope.isUrl] using hutf8
  | url base =>
    have hisUrl : template.envelope.isUrl = true := by rw [hurl]; rfl
    have hread : Percent.decode ((layout.mapLiterals Text.utf8).fill fun tag =>
        Percent.encode (· = Percent.percent) (nameBytes (text tag))) =
        ((layout.mapLiterals Text.utf8).mapLiterals Percent.decode).fill fun tag =>
          nameBytes (text tag) := by
      refine Text.Pattern.map_fill fun s hs rest => ?_
      obtain ⟨t, ht, rfl⟩ := List.mem_map.mp hs
      have hencode : ∀ bs, Percent.complete (Percent.encode (· = Percent.percent) bs) = true :=
        fun bs => Percent.complete_encode (by simp) bs
      rw [List.append_assoc, Percent.decode_append (hcomplete hisUrl t ht),
        Percent.decode_append (hencode _), Percent.decode_encode (by simp), List.append_assoc]
    simp only [hurl] at hpath
    split at hpath
    · rename_i decoded hdecoded
      obtain rfl := Except.ok.inj hpath
      rw [Text.utf8_of_decode hdecoded]
      simp only [hurl, OutputEnvelope.isUrl, if_true] at hutf8
      simp only [OutputEnvelope.isUrl] at hutf8 ⊢
      rw [hutf8, hread]
      simp [Text.Pattern.mapLiterals, literalBytes, hisUrl, Function.comp_def]
    · cases hpath

theorem Engine.Interpolates.rendered {engine : Engine}
    (hengine : engine.Interpolates template.objectPathTemplate layout) :
    ∃ ending dropped, layout.ending = ending ++ dropped ∧ (∀ c ∈ dropped, c = '\n' ∨ c = '\r') ∧
      ∀ {format : Formatter α} {values : PartitionValues α} {context : TemplateContext},
        (∀ column ∈ layout.columns, (values.get column).isSome) →
        OutputTargetTemplate.context format values none = .ok context →
        engine.render template.objectPathTemplate template.environment context =
          .ok (({ layout with ending } : HiveLayout).fill fun tag =>
            formatter template.envelope.isUrl ⟨columnText format values tag.column, false⟩) := by
  obtain ⟨ending, dropped, hending, hdropped, hrender⟩ := hengine
  refine ⟨ending, dropped, hending, hdropped, fun {format values context} hvalues hcontext => ?_⟩
  exact hrender _ _ _ fun tag htag =>
    context_lookup hcontext (hvalues _ (List.mem_map_of_mem htag))

theorem render_ok {engine : Engine} {format : Formatter α} {values : PartitionValues α}
    (h : template.render debug crate engine format values none = .ok target) :
    ∃ context rendered path, OutputTargetTemplate.context format values none = .ok context ∧
      engine.render template.objectPathTemplate template.environment context = .ok rendered ∧
      template.objectPath rendered = .ok path ∧
      OutputTargetTemplate.validateObjectPath path = .ok () ∧
      OutputTargetTemplate.locationOf debug crate path template.envelope = .ok target := by
  unfold OutputTargetTemplate.render at h
  obtain ⟨_, h⟩ := Lists.ite_throw_ok.mp h
  obtain ⟨context, hcontext, h⟩ := Lists.bind_eq_ok.mp h
  obtain ⟨rendered, hrendered, h⟩ := Lists.bind_eq_ok.mp h
  obtain ⟨path, hpath, h⟩ := Lists.bind_eq_ok.mp h
  obtain ⟨_, hvalid, h⟩ := Lists.bind_eq_ok.mp h
  exact ⟨context, rendered, path, hcontext, Lists.mapError_eq_ok.mp hrendered, hpath, hvalid, h⟩

structure NamedPaths (layout : HiveLayout) (template : OutputTargetTemplate U)
    (pattern : Text.Pattern UInt8 PlainTag) : Prop where
  keys : pattern.keys = layout.keys
  separated : pattern.Separated separates
  unskipped : template.envelope.isUrl = true → ∀ text : PlainTag → List Char,
    ∀ b ∈ pattern.fill fun tag => nameBytes (text tag), ¬ skipped b

theorem separates_of_mark : ∀ c ∈ hiveMarks, c ≠ '%' →
    String.utf8EncodeChar c = [.ofNat c.toNat] ∧ separates (.ofNat c.toNat) ∧
      Percent.hexValue (.ofNat c.toNat) = none := by
  have hall : (hiveMarks.all fun c => c = '%' ∨ String.utf8EncodeChar c = [.ofNat c.toNat] ∧
      separates (.ofNat c.toNat) ∧ Percent.hexValue (.ofNat c.toNat) = none) = true := by decide
  intro c hc hne
  exact (of_decide_eq_true (List.all_eq_true.mp hall c hc)).resolve_left hne

theorem separates_literalBytes {literal : List Char} (h : ∃ c ∈ literal, c ∈ hiveMarks ∧ c ≠ '%') :
    ∃ b ∈ literalBytes template literal, separates b := by
  obtain ⟨c, hc, hmark, hne⟩ := h
  obtain ⟨hencode, hsep, hdigit⟩ := separates_of_mark c hmark hne
  generalize UInt8.ofNat c.toNat = b at hencode hsep hdigit
  have hb : b ∈ Text.utf8 literal := List.mem_flatMap.mpr ⟨c, hc, by simp [hencode]⟩
  refine ⟨b, ?_, hsep⟩
  unfold literalBytes
  split
  · exact Percent.mem_decode hsep.2 hdigit hb
  · exact hb

theorem dropped_eq_nil {columnOrder : List String} (hlayout : layout.Of template columnOrder)
    (hurl : template.envelope.isUrl = true) (hending : layout.ending = ending ++ dropped)
    (hdropped : ∀ c ∈ dropped, c = '\n' ∨ c = '\r') : dropped = [] := by
  by_contra hne
  obtain ⟨c, rest, rfl⟩ := List.exists_cons_of_ne_nil hne
  have hmem : c ∈ layout.ending := by simp [hending]
  have hbreak : ∃ b, String.utf8EncodeChar c = [b] ∧ skipped b ∧ b ≠ Percent.percent ∧
      Percent.hexValue b = none := by
    rcases hdropped c List.mem_cons_self with rfl | rfl
    · exact ⟨10, by decide, .inr (.inl rfl), by decide, by decide⟩
    · exact ⟨13, by decide, .inr (.inr rfl), by decide, by decide⟩
  obtain ⟨b, hencode, hskipped, hpercent, hdigit⟩ := hbreak
  have hb : b ∈ Text.utf8 layout.ending := List.mem_flatMap.mpr ⟨c, hmem, by simp [hencode]⟩
  refine hlayout.unskipped hurl layout.ending ?_ b (Percent.mem_decode hpercent hdigit hb) hskipped
  simp [HiveLayout.literals]

/-- Every target of a layout comes from an object path of the same literals,
with names between them. -/
theorem exists_namedPaths {engine : Engine} {columnOrder : List String}
    (hnew : OutputTargetTemplate.new debug crate engine source = .ok template)
    (hlayout : layout.Of template columnOrder)
    (hengine : engine.Interpolates template.objectPathTemplate layout) (format : Formatter α) :
    ∃ pattern, NamedPaths layout template pattern ∧ ∀ {values : PartitionValues α} {target},
      values.Covers columnOrder → template.render debug crate engine format values none = .ok target →
        ∃ path, Text.utf8 path = pattern.fill (fun tag => nameBytes (columnText format values tag.column)) ∧
          (∃ context, OutputTargetTemplate.context format values none = .ok context) ∧
          OutputTargetTemplate.validateObjectPath path = .ok () ∧
          OutputTargetTemplate.locationOf debug crate path template.envelope = .ok target := by
  obtain ⟨ending, dropped, hending, hdropped, hrender⟩ := hengine.rendered (α := α)
  let kept : HiveLayout := { layout with ending }
  have hcomplete := complete_literals hnew hlayout.source
  refine ⟨kept.mapLiterals (literalBytes template), ⟨?_, ?_, ?_⟩, ?_⟩
  · rw [Text.Pattern.keys_mapLiterals]
    rfl
  · intro s hs
    have hs : s ∈ (layout.slots.map fun s => (literalBytes template s.1, s.2)).tail := hs
    rw [← List.map_tail] at hs
    obtain ⟨t, ht, rfl⟩ := List.mem_map.mp hs
    exact separates_literalBytes (hlayout.separated t ht)
  · intro hurl text b hb
    obtain rfl := dropped_eq_nil hlayout hurl hending hdropped
    have hliteral : ∀ literal ∈ layout.literals, ∀ b ∈ literalBytes template literal, ¬ skipped b := by
      intro literal hmem b hb
      rw [literalBytes, if_pos hurl] at hb
      exact hlayout.unskipped hurl literal hmem b hb
    rcases Text.Pattern.mem_fill hb with ⟨s, hs, hb | hb⟩ | hb
    · obtain ⟨t, ht, rfl⟩ := List.mem_map.mp hs
      exact hliteral t.1 (List.mem_append_left _ (List.mem_map_of_mem ht)) b hb
    · have hlow := (mem_nameBytes hb).2.1
      rintro (rfl | rfl | rfl) <;> exact absurd hlow (by decide)
    · refine hliteral layout.ending (by simp [HiveLayout.literals]) b ?_
      rw [hending, List.append_nil]
      exact hb
  · intro values target hcovers htarget
    obtain ⟨context, rendered, path, hcontext, hrendered, hpath, hvalid, hlocation⟩ := render_ok htarget
    have hvalues : ∀ column ∈ layout.columns, (values.get column).isSome :=
      fun column hcolumn => hcovers column ((hlayout.columns column).mp hcolumn)
    obtain rfl := Except.ok.inj ((hrender hvalues hcontext).symm.trans hrendered)
    exact ⟨path, objectPath_bytes hcomplete hpath, ⟨context, hcontext⟩, hvalid, hlocation⟩

end SilkChiffon.FileOutput
