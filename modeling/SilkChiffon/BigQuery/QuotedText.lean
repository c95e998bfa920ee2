import SilkChiffon.BigQuery.Restriction

/-!
# Quoted text read back

String literals, byte literals and quoted identifiers are each one lexeme with
the original as its value, at the end of the input and in front of any
delimiter. A filter's text has the filter's own structure around them.
-/

namespace SilkChiffon.GoogleSql

open Arrow Pushdown

/-- The text is the one token, alone or with a delimiter behind it. -/
structure ReadsAs (text : Text) (token : Token) : Prop where
  scan : lexer.scan text = some [token]
  reads : Reads text [token]

theorem Reads.readsAs (h : Reads text [token]) : ReadsAs text token := ⟨h.scan, h⟩

def byteValues (content : Text) : List UInt8 := content.map fun c => UInt8.ofNat c.toNat

theorem byteValues_map (value : List UInt8) : byteValues (value.map byteCharacter) = value := by
  rw [byteValues, List.map_map]
  refine List.map_id'' (fun byte => ?_) value
  have hvalid : byte.toNat.isValidChar := .inl (Nat.lt_trans byte.toNat_lt (by decide))
  have hchar : (byteCharacter byte).toNat = byte.toNat := by
    rw [byteCharacter, Char.ofNat, dif_pos hvalid]
    rfl
  rw [Function.comp_apply, hchar, UInt8.ofNat_toNat]

theorem literal_utf8_reads (h : literal fmt (.literal value) .utf8 = some text) :
    ∃ content, value ∈ [ScalarValue.utf8 (some content), .utf8View (some content), .largeUtf8 (some content)] ∧
      ReadsAs text (.string content) := by
  cases value with
  | utf8 content | utf8View content | largeUtf8 content =>
    cases content with
    | none => cases h
    | some content => exact ⟨content, by simp, (stringLiteral_reads h).readsAs⟩
  | _ => cases h

theorem literal_binary_reads (h : literal fmt (.literal value) .binary = some text) :
    ∃ content, value ∈ [ScalarValue.binary (some (byteValues content)), .binaryView (some (byteValues content)),
        .largeBinary (some (byteValues content))] ∧ ReadsAs text (.bytes content) := by
  cases value with
  | binary bytes | binaryView bytes | largeBinary bytes =>
    cases bytes with
    | none => cases h
    | some bytes =>
      obtain rfl := Option.some.inj h
      exact ⟨bytes.map byteCharacter, by simp [byteValues_map], (bytes_reads bytes).readsAs⟩
  | _ => cases h

theorem translate_denotes (hfmt : Lawful fmt) (h : translate fmt schema e = some text) :
    ∃ c, (condition e).traverse (leafPredicate fmt schema) = some c ∧
      ∀ c', Denotes (foreign : Foreign φ) text c' ↔ c' = c := by
  obtain ⟨c, hc, hunary⟩ := translate_unary _ hfmt h
  refine ⟨c, hc, fun c' => ⟨fun h' => h'.unique hunary.denotes, ?_⟩⟩
  rintro rfl
  exact hunary.denotes

/-- Whatever the text of a value or a name, what is emitted for it is one
token that stands for it, and the filter it is part of denotes the filter's
own tree. -/
theorem text_literals_round_trip (foreign : Foreign φ) (schema : SessionSchema) (fmt : Formatting) :
    (∀ value text, stringLiteral value = some text → ReadsAs text (.string value)) ∧
    (∀ value text, literal fmt (.literal value) .utf8 = some text → ∃ content,
      value ∈ [ScalarValue.utf8 (some content), .utf8View (some content), .largeUtf8 (some content)] ∧
        ReadsAs text (.string content)) ∧
    (∀ value text, literal fmt (.literal value) .binary = some text → ∃ content,
      value ∈ [ScalarValue.binary (some (byteValues content)), .binaryView (some (byteValues content)),
        .largeBinary (some (byteValues content))] ∧ ReadsAs text (.bytes content)) ∧
    (∀ name, ReadsAs (quoteIdentifier name) (.identifier name)) ∧
    ∀ e text, Lawful fmt → translate fmt schema e = some text →
      ∃ c, (condition e).traverse (leafPredicate fmt schema) = some c ∧
        ∀ c', Denotes foreign text c' ↔ c' = c :=
  ⟨fun _ _ h => (stringLiteral_reads h).readsAs, fun _ _ h => literal_utf8_reads h,
    fun _ _ h => literal_binary_reads h, fun name => (closes_quoteIdentifier name).reads.readsAs,
    fun _ _ hfmt h => translate_denotes hfmt h⟩

end SilkChiffon.GoogleSql
