import SilkChiffon.BigQuery.GoogleSql
import SilkChiffon.Lib.Lists

/-!
# The lexemes of a row restriction

Identifiers, literals and leaves of a translated filter are read back as the
names, values and predicates they stand for, whatever follows them in the
restriction.
-/

namespace SilkChiffon.GoogleSql

open Arrow Pushdown ThreeValued

def Delimiter (c : Char) : Prop := c = ' ' ∨ c = ',' ∨ c = ')'

abbrev Reads (text : Text) (ts : List Token) : Prop := lexer.Reads Delimiter text ts

def Closes (text : Text) (ts : List Token) : Prop := lexer.run .start text = some (ts, .start)

theorem Closes.append (h : Closes text ts) (h' : Closes text' ts') :
    Closes (text ++ text') (ts ++ ts') := Scanner.run_append_of h h'

theorem Closes.reads_append (h : Closes text ts) (h' : Reads text' ts') :
    Reads (text ++ text') (ts ++ ts') := h'.append_of_run h

theorem Closes.reads (h : Closes text ts) : Reads text ts := by
  simpa using h.reads_append (.nil rfl)

theorem reads_join (h : Reads l tl) (hmid : Closes (c :: mid) tm) (hc : Delimiter c)
    (hr : Reads r tr) : Reads (l ++ (c :: mid ++ r)) (tl ++ (tm ++ tr)) :=
  h.append hc (hmid.reads_append hr)

theorem reads_word (h : lexer.run .start text = some (ts, .word content)) :
    Reads text (ts ++ [.ofWord content]) := by
  refine ⟨ts, .word content, _, h, rfl, rfl, ?_⟩
  rintro c (rfl | rfl | rfl) <;> rfl

theorem reads_number (h : lexer.run .start text = some (ts, .number content)) :
    Reads text (ts ++ [.number content]) := by
  refine ⟨ts, .number content, _, h, rfl, rfl, ?_⟩
  rintro c (rfl | rfl | rfl) <;> rfl

theorem reads_closed (h : lexer.run .start text = some (ts, .closed '\x27')) : Reads text ts := by
  refine ⟨ts, .closed '\x27', [], h, rfl, by simp, ?_⟩
  rintro c (rfl | rfl | rfl) <;> rfl

-- ---------------------------------------------------------------------------
-- Identifiers
-- ---------------------------------------------------------------------------

theorem closes_quoteIdentifier (name : Text) :
    Closes (quoteIdentifier name) [.identifier name] := by
  have hpieces := Scanner.run_pieces (m := lexer) (.quoted .identifier '\x60')
    (l := name) (p := name.map fun c =>
      (if c = '\\' then ['\\', '\\'] else [c]).flatMap
        fun c => if c = '\x60' then ['\\', '\x60'] else [c]) ?_ []
  · have hmark : lexer.run (.quoted .identifier '\x60' name) ['\x60'] =
        some ([.identifier name], .start) := by
      simp [Scanner.run_cons, lexer, lexStep, Quote.token]
    have := Scanner.run_append_of hpieces hmark
    rw [Closes, quoteIdentifier, quote, List.flatMap_assoc, List.cons_append, Scanner.run_cons]
    simpa [lexer, lexStep, begin, isWordCharacter, List.flatMap_def] using this
  · rw [List.forall₂_map_right_iff, List.forall₂_same]
    intro c _ read
    by_cases hslash : c = '\\'
    · subst hslash
      rfl
    by_cases hmark : c = '\x60'
    · subst hmark
      rfl
    simp [hslash, hmark, Scanner.run_cons, lexer, lexStep]

def pathTokens : List Text → List Token
  | [] => []
  | [name] => [.identifier name]
  | name :: names => .identifier name :: .symbol '.' :: pathTokens names

theorem closes_pathSql (path : List String) :
    Closes (pathSql path) (pathTokens (path.map String.toList)) := by
  induction path with
  | nil => rfl
  | cons name names ih =>
    cases names with
    | nil => simpa [pathSql, pathTokens] using closes_quoteIdentifier name.toList
    | cons next rest =>
      have hdot : Closes ['.'] [.symbol '.'] := rfl
      have := (closes_quoteIdentifier name.toList).append (hdot.append ih)
      simpa [pathSql, pathTokens] using this

theorem parsePath_identifier (hrest : ∀ ts, rest ≠ .symbol '.' :: ts) :
    parsePath (.identifier name :: rest) = some ([name], rest) := by
  unfold parsePath
  split
  · contradiction
  · rename_i heq
    cases heq
    exact absurd rfl (hrest _)
  · rename_i heq
    cases heq
    rfl

theorem parsePath_tokens (hpath : path ≠ []) (hrest : ∀ ts, rest ≠ .symbol '.' :: ts) :
    parsePath (pathTokens path ++ rest) = some (path, rest) := by
  induction path with
  | nil => contradiction
  | cons name names ih =>
    cases names with
    | nil => exact parsePath_identifier hrest
    | cons next names =>
      simp [pathTokens, parsePath, nameOf, ih]

-- ---------------------------------------------------------------------------
-- Literals
-- ---------------------------------------------------------------------------

/-- Digits and points, a digit first. -/
def IsNumeral (digits : Text) : Prop :=
  (∃ c, digits.head? = some c ∧ c.isDigit) ∧ ∀ c ∈ digits, c.isDigit ∨ c = '.'

def IsSigned (text : Text) : Prop :=
  ∃ digits, IsNumeral digits ∧ (text = digits ∨ text = '-' :: digits)

def Plain (text : Text) : Prop := ∀ c ∈ text, c ≠ '\x27' ∧ c ≠ '\\' ∧ c ≠ '\n' ∧ c ≠ '\r'

instance : Decidable (Plain text) := List.decidableBAll _ text

/-- What is assumed of the printing: floats are printed as signed numerals,
dates and times without quotes, backslashes and line breaks. -/
structure Lawful (fmt : Formatting) : Prop where
  float64 : ∀ x, x.isFinite = true → IsSigned (fmt.float64 x)
  date : fmt.date days = some text → Plain text
  time : fmt.time seconds nanos = some text → Plain text
  moment : fmt.moment seconds nanos = some text → Plain text

def Value.ofNumeral : Text → Value
  | '-' :: digits => .number true digits
  | digits => .number false digits

def Value.tokens : Value → List Token
  | .number negative digits => (if negative then [.symbol '-'] else []) ++ [.number digits]
  | .string content => [.string content]
  | .bytes content => [.bytes content]
  | .boolean value => [.keyword (if value then .true else .false)]
  | .typed type content => [.word type, .string content]

theorem isNumeral_digit (h : c.isDigit) : IsNumeral [c] :=
  ⟨⟨c, rfl, h⟩, fun _ hd => .inl (List.mem_singleton.mp hd ▸ h)⟩

theorem isNumeral_toDigits (n : Nat) : IsNumeral (Nat.toDigits 10 n) := by
  have hall : ∀ c ∈ Nat.toDigits 10 n, c.isDigit := fun c =>
    Nat.isDigit_of_mem_toDigits (by decide) (by decide)
  refine ⟨?_, fun c hc => .inl (hall c hc)⟩
  cases h : Nat.toDigits 10 n with
  | nil => exact absurd h (Nat.toDigits_ne_nil)
  | cons c cs => exact ⟨c, rfl, hall c (by simp [h])⟩

theorem isSigned_integer (value : Int) : IsSigned (integer value) := by
  unfold integer
  rw [Int.toString_eq_repr, Int.repr_eq_if]
  split
  · exact ⟨_, isNumeral_toDigits value.toNat, .inl (by rw [Nat.toList_repr])⟩
  · refine ⟨_, isNumeral_toDigits (-value).toNat, .inr ?_⟩
    rw [String.toList_append, Nat.toList_repr]
    rfl

theorem plain_digit (h : c.isDigit ∨ c = '.' ∨ c = '-') :
    c ≠ '\x27' ∧ c ≠ '\\' ∧ c ≠ '\n' ∧ c ≠ '\r' := by
  refine ⟨?_, ?_, ?_, ?_⟩ <;> rintro rfl <;> simp at h

theorem IsSigned.plain (h : IsSigned text) : Plain text := by
  obtain ⟨digits, ⟨-, hall⟩, rfl | rfl⟩ := h
  · exact fun c hc => plain_digit ((hall c hc).imp_right .inl)
  · rintro c (_ | ⟨_, hc⟩)
    · exact plain_digit (.inr (.inr rfl))
    · exact plain_digit ((hall c hc).imp_right .inl)

theorem number_run (h : ∀ c ∈ text, c.isDigit ∨ c = '.') (content : Text) :
    lexer.run (.number content) text = some ([], .number (content ++ text)) := by
  have := Scanner.run_pieces (m := lexer) .number (l := text) (p := text.map ([·])) ?_ content
  · simpa [← List.flatMap_def] using this
  · rw [List.forall₂_map_right_iff, List.forall₂_same]
    intro c hc read
    rcases h c hc with hc | rfl
    · simp [Scanner.run_cons, lexer, lexStep, isNumberCharacter, Char.isAlphanum, hc]
    · rfl

theorem IsSigned.reads (h : IsSigned text) : Reads text (Value.ofNumeral text).tokens := by
  obtain ⟨digits, ⟨⟨c, hc, hdigit⟩, hall⟩, htext⟩ := h
  cases digits with
  | nil => cases hc
  | cons c' rest =>
    cases hc
    have hbegin : begin c = some ([], .number [c]) := by simp [begin, hdigit]
    have hrest := number_run (fun d hd => hall d (List.mem_cons_of_mem _ hd)) [c]
    have hminus : c ≠ '-' := by rintro rfl; simp at hdigit
    rcases htext with rfl | rfl
    · have hfirst : lexer.run .start [c] = some ([], .number [c]) := by
        simp [Scanner.run_cons, lexer, lexStep, hbegin]
      have hvalue : Value.ofNumeral (c :: rest) = .number false (c :: rest) := by
        unfold Value.ofNumeral
        split <;> simp_all
      rw [hvalue]
      exact reads_number (Scanner.run_append_of hfirst hrest)
    · have hsign : lexer.run .start ['-'] = some ([], .operator '-') := rfl
      have hfirst : lexer.run (.operator '-') [c] = some ([.symbol '-'], .number [c]) := by
        simp [Scanner.run_cons, lexer, lexStep, opensComment, hminus, operatorPair, operatorToken,
          endWith, hbegin]
      exact reads_number (Scanner.run_append_of hsign (Scanner.run_append_of hfirst hrest))

theorem reads_quote (hbody : lexer.run (.quoted .string '\x27' []) body =
    some ([], .quoted .string '\x27' content)) : Reads (quote '\x27' body) [.string content] := by
  have hmark : lexer.run (.quoted .string '\x27' content) ['\x27'] =
      some ([.string content], if content = [] then .closed '\x27' else .start) := by
    simp [Scanner.run_cons, lexer, lexStep, Quote.token]
  have hrun : lexer.run .start (quote '\x27' body) =
      some ([.string content], if content = [] then .closed '\x27' else .start) := by
    have := Scanner.run_append_of hbody hmark
    rw [quote, List.cons_append, Scanner.run_cons]
    simpa [lexer, lexStep, begin, isWordCharacter] using this
  split at hrun
  · exact reads_closed hrun
  · exact Closes.reads hrun

theorem Plain.reads (h : Plain text) : Reads (quote '\x27' text) [.string text] := by
  refine reads_quote ?_
  have := Scanner.run_pieces (m := lexer) (.quoted .string '\x27') (l := text)
    (p := text.map ([·])) ?_ []
  · simpa [← List.flatMap_def] using this
  · rw [List.forall₂_map_right_iff, List.forall₂_same]
    intro c hc read
    obtain ⟨h1, h2, h3, h4⟩ := h c hc
    simp [Scanner.run_cons, lexer, lexStep, h1, h2, h3, h4]

theorem stringLiteral_reads (h : stringLiteral value = some text) :
    Reads text [.string value] := by
  simp only [stringLiteral, Option.bind_eq_bind, Option.bind_eq_some_iff, Option.pure_def,
    Option.some.injEq] at h
  obtain ⟨escaped, hescaped, rfl⟩ := h
  refine reads_quote ?_
  have hpieces := Lists.mapM_eq_some_iff_forall₂.mp hescaped
  have := Scanner.run_pieces (m := lexer) (.quoted .string '\x27')
    (hpieces.imp fun c piece hc read => ?_) []
  · simpa using this
  · unfold escapeCharacter at hc
    split at hc
    · cases hc; rfl
    · cases hc; rfl
    · cases hc; rfl
    · cases hc; rfl
    · cases hc; rfl
    · split at hc
      · cases hc
      · cases hc
        simp_all [Scanner.run_cons, lexer, lexStep]

theorem hexDigit_digitChar (h : d < 16) : hexDigit d.digitChar = some d := by
  have : ∀ d : Fin 16, hexDigit (Nat.digitChar d) = some d.val := by decide
  exact this ⟨d, h⟩

def byteCharacter (byte : UInt8) : Char := Char.ofNat byte.toNat

theorem byteText_run (byte : UInt8) (read : Text) :
    lexer.run (.quoted .bytes '\x27' read) (byteText byte) =
      some ([], .quoted .bytes '\x27' (read ++ [byteCharacter byte])) := by
  have hlt := byte.toNat_lt
  have hhigh := hexDigit_digitChar (d := byte.toNat / 16) (by omega)
  have hlow := hexDigit_digitChar (d := byte.toNat % 16) (by omega)
  simp [byteText, byteCharacter, Scanner.run_cons, lexer, lexStep, hhigh, hlow, Nat.div_add_mod]

theorem bytes_reads (value : List UInt8) :
    Reads ('b' :: quote '\x27' (value.flatMap byteText)) [.bytes (value.map byteCharacter)] := by
  have hpieces := Scanner.run_pieces (m := lexer) (.quoted .bytes '\x27')
    (l := value.map byteCharacter) (p := value.map byteText) ?_ []
  · have hmark : lexer.run (.quoted .bytes '\x27' (value.map byteCharacter)) ['\x27'] =
        some ([.bytes (value.map byteCharacter)],
          if value.map byteCharacter = [] then .closed '\x27' else .start) := by
      simp [Scanner.run_cons, lexer, lexStep, Quote.token]
    have hopen : lexer.run .start ['b', '\x27'] = some ([], .quoted .bytes '\x27' []) := rfl
    have hrun := Scanner.run_append_of hopen (Scanner.run_append_of hpieces hmark)
    have htext : ['b', '\x27'] ++ ((value.map byteText).flatten ++ ['\x27']) =
        'b' :: quote '\x27' (value.flatMap byteText) := by simp [quote, List.flatMap_def]
    rw [htext] at hrun
    split at hrun
    · exact reads_closed hrun
    · exact Closes.reads hrun
  · rw [List.forall₂_map_left_iff, List.forall₂_map_right_iff, List.forall₂_same]
    exact fun byte _ content => byteText_run byte content

-- ---------------------------------------------------------------------------
-- Values
-- ---------------------------------------------------------------------------

def integerValue : ScalarValue → Option Int
  | .int8 value => value.map Int8.toInt
  | .int16 value => value.map Int16.toInt
  | .int32 value => value.map Int32.toInt
  | .int64 value => value.map Int64.toInt
  | .uint8 value => value.map (·.toNat)
  | .uint16 value => value.map (·.toNat)
  | .uint32 value => value.map (·.toNat)
  | .uint64 value => value.map (·.toNat)
  | _ => none

def typedValue (type : String) (content : Text) : Value := .typed type.toList content

def momentValue (fmt : Formatting) (nanos : Int) (timezone : Option String) : Option Value := do
  let formatted ← fmt.moment (nanos / 1000000000) (nanos % 1000000000).toNat
  return match timezone with
    | none => typedValue "DATETIME" formatted
    | some _ => typedValue "TIMESTAMP" (formatted ++ "+00".toList)

/-- What a literal stands for, whether or not the code translates it. -/
def literalValue (fmt : Formatting) (expression : Expr) (expected : DataType) : Option Value :=
  match expression with
  | .literal value =>
    match expected, value with
    | .boolean, .boolean value => value.map .boolean
    | .int64, value => (integerValue value).map fun i => .ofNumeral (integer i)
    | .float64, .float64 value => value.map fun x => .ofNumeral (fmt.float64 x)
    | .utf8, .utf8 value | .utf8, .utf8View value | .utf8, .largeUtf8 value => value.map .string
    | .binary, .binary value | .binary, .binaryView value | .binary, .largeBinary value =>
      value.map fun bytes => .bytes (bytes.map byteCharacter)
    | .date32, .date32 (some days) => (fmt.date days.toInt).map (typedValue "DATE")
    | .time64 .microsecond, .time64Microsecond (some value) =>
      (fmt.time (value.toInt / 1000000).toNat (value.toInt % 1000000 * 1000).toNat).map
        (typedValue "TIME")
    | .timestamp .microsecond timezone, .timestampMicrosecond (some value) _ =>
      momentValue fmt (value.toInt * 1000) timezone
    | .timestamp .nanosecond timezone, .timestampNanosecond (some value) _ =>
      momentValue fmt value.toInt timezone
    | .decimal128 _ scale, .decimal128 (some value) _ _ =>
      (scaledDecimal value scale).map (typedValue "NUMERIC")
    | .decimal256 _ scale, .decimal256 (some value) _ _ =>
      (scaledDecimal value scale).map (typedValue "BIGNUMERIC")
    | _, _ => none
  | _ => none

theorem parseValue_tokens (value : Value) (rest : List Token) :
    parseValue (value.tokens ++ rest) = some (value, rest) := by
  cases value with
  | number negative digits => cases negative <;> rfl
  | boolean value => cases value <;> rfl
  | string | bytes | typed => rfl

theorem integerLiteral_value (h : integerLiteral scalar = some text) :
    ∃ i, integerValue scalar = some i ∧ text = integer i := by
  unfold integerLiteral at h
  split at h <;> first | cases h; exact ⟨_, rfl, rfl⟩ | (split at h <;> cases h) | cases h
  exact ⟨_, rfl, rfl⟩

theorem Plain.reads_typed (type : String) (h : Plain content)
    (htype : Closes (type.toList ++ [' ']) [.word type.toList]) :
    Reads (type.toList ++ [' '] ++ quote '\x27' content) (typedValue type content).tokens :=
  htype.reads_append h.reads

theorem Plain.append (h : Plain text) (h' : Plain text') : Plain (text ++ text') := by
  intro c hc
  exact (List.mem_append.mp hc).elim (h c) (h' c)

theorem splitSign_plain (h : Plain text) : Plain (splitSign text).2 := by
  unfold splitSign
  split
  · exact fun c hc => h c (List.mem_cons_of_mem _ hc)
  · exact h

theorem padDigits_plain (h : Plain digits) (scale : Nat) : Plain (padDigits digits scale) := by
  unfold padDigits
  split
  · refine Plain.append ?_ h
    intro c hc
    rw [List.eq_of_mem_replicate hc]
    decide
  · exact h

theorem insertPoint_plain (h : Plain digits) (point : Nat) : Plain (insertPoint digits point) := by
  intro c hc
  rcases List.mem_append.mp hc with hc | _ | ⟨_, hc⟩
  · exact h c (List.mem_of_mem_take hc)
  · decide
  · exact h c (List.mem_of_mem_drop hc)

theorem scaledDecimal_plain (h : scaledDecimal value scale = some text) : Plain text := by
  have hvalue := (isSigned_integer value).plain
  unfold scaledDecimal scaledDecimalString at h
  split at h
  · cases h
  split at h
  · cases h
    exact hvalue
  have hdigits := splitSign_plain hvalue
  have hminus : Plain ['-'] := by decide
  generalize splitSign (integer value) = parts at h hdigits
  obtain ⟨negative, digits⟩ := parts
  cases h
  have hpointed := insertPoint_plain (padDigits_plain hdigits scale.toNat)
  cases negative with
  | true => exact hminus.append (hpointed _)
  | false => exact hpointed _

theorem timestampLiteral_reads (hfmt : Lawful fmt)
    (h : timestampLiteral fmt value nanosPerUnit timezone = some text) :
    ∃ v, momentValue fmt (value * nanosPerUnit) timezone = some v ∧ Reads text v.tokens := by
  simp only [timestampLiteral, checkedI128, checkedI64, Option.bind_eq_bind,
    Option.bind_eq_some_iff] at h
  obtain ⟨nanos, hnanos, seconds, hseconds, formatted, hformatted, h⟩ := h
  split at hnanos <;> cases hnanos
  split at hseconds <;> cases hseconds
  have hplain := hfmt.moment hformatted
  unfold momentValue
  simp only [hformatted, Option.bind_eq_bind, Option.bind_some, Option.pure_def]
  split at h
  · cases h
    exact ⟨_, rfl, hplain.reads_typed "DATETIME" rfl⟩
  · cases h
    exact ⟨_, rfl, (hplain.append (by decide)).reads_typed "TIMESTAMP" rfl⟩
  · cases h
    exact ⟨_, rfl, (hplain.append (by decide)).reads_typed "TIMESTAMP" rfl⟩
  · cases h

theorem reads_boolean (value : Bool) :
    Reads (if value then "TRUE".toList else "FALSE".toList) (Value.boolean value).tokens := by
  cases value with
  | true =>
    have hrun : lexer.run .start "TRUE".toList = some ([], .word "TRUE".toList) := rfl
    exact reads_word hrun
  | false =>
    have hrun : lexer.run .start "FALSE".toList = some ([], .word "FALSE".toList) := rfl
    exact reads_word hrun

theorem literal_reads (hfmt : Lawful fmt) (h : literal fmt e expected = some text) :
    ∃ v, literalValue fmt e expected = some v ∧ Reads text v.tokens := by
  unfold literal at h
  split at h
  · split at h
    · cases h
      exact ⟨_, rfl, reads_boolean _⟩
    · obtain ⟨i, hi, rfl⟩ := integerLiteral_value h
      exact ⟨_, by simp only [literalValue, hi]; rfl, (isSigned_integer i).reads⟩
    · split at h <;> cases h
      exact ⟨_, rfl, (hfmt.float64 _ ‹_›).reads⟩
    · exact ⟨_, rfl, stringLiteral_reads h⟩
    · exact ⟨_, rfl, stringLiteral_reads h⟩
    · exact ⟨_, rfl, stringLiteral_reads h⟩
    · cases h
      exact ⟨_, rfl, bytes_reads _⟩
    · cases h
      exact ⟨_, rfl, bytes_reads _⟩
    · cases h
      exact ⟨_, rfl, bytes_reads _⟩
    · obtain ⟨date, hdate, h⟩ := Option.bind_eq_some_iff.mp h
      cases h
      exact ⟨_, by simp only [literalValue, hdate]; rfl, (hfmt.date hdate).reads_typed "DATE" rfl⟩
    · unfold timeLiteral at h
      split at h
      · obtain ⟨time, htime, h⟩ := Option.bind_eq_some_iff.mp h
        cases h
        exact ⟨_, by simp only [literalValue, htime]; rfl,
          (hfmt.time htime).reads_typed "TIME" rfl⟩
      · cases h
    · split at h
      · exact timestampLiteral_reads hfmt h
      · cases h
    · split at h
      · have hreads := timestampLiteral_reads hfmt h
        rw [Int.mul_one] at hreads
        exact hreads
      · cases h
    · split at h
      · obtain ⟨decimal, hdecimal, h⟩ := Option.bind_eq_some_iff.mp h
        cases h
        exact ⟨_, by simp only [literalValue, hdecimal]; rfl,
          (scaledDecimal_plain hdecimal).reads_typed "NUMERIC" rfl⟩
      · cases h
    · split at h
      · obtain ⟨decimal, hdecimal, h⟩ := Option.bind_eq_some_iff.mp h
        cases h
        exact ⟨_, by simp only [literalValue, scaledDecimal, hdecimal]; rfl,
          (scaledDecimal_plain hdecimal).reads_typed "BIGNUMERIC" rfl⟩
      · cases h
    · cases h
  · cases h

-- ---------------------------------------------------------------------------
-- Predicates
-- ---------------------------------------------------------------------------

def comparisonOf : Operator → Option Comparison
  | .eq => some .eq
  | .notEq => some .notEq
  | .lt => some .lt
  | .ltEq => some .ltEq
  | .gt => some .gt
  | .gtEq => some .gtEq
  | _ => none

def columnNames (column : ResolvedColumn) : List Text := column.path.map String.toList

/-- What a leaf stands for: the column first, and a comparison that has it
second exchanged. -/
def leafPredicate (fmt : Formatting) (schema : SessionSchema) : Expr → Option (Predicate φ)
  | .binaryExpr left op right => do
    let comparison ← comparisonOf op
    match resolveColumn schema left with
    | some column =>
      return .compare (columnNames column) comparison (← literalValue fmt right column.dataType)
    | none =>
      let column ← resolveColumn schema right
      let value ← literalValue fmt left column.dataType
      return .compare (columnNames column) comparison.mirror value
  | .isNull child => do return .isNull (columnNames (← resolveColumn schema child))
  | .isNotNull child => do return .isNotNull (columnNames (← resolveColumn schema child))
  | .inList expr list negated => do
    let column ← resolveColumn schema expr
    let values ← list.mapM fun value => literalValue fmt value column.dataType
    return .inList (columnNames column) negated values
  | .between expr negated low high => do
    let column ← resolveColumn schema expr
    let low ← literalValue fmt low column.dataType
    let high ← literalValue fmt high column.dataType
    return .between (columnNames column) negated low high
  | _ => none

/-- The text is one condition of the tightest level, whatever follows it. -/
def IsUnary (foreign : Foreign φ) (text : Text) (c : Condition (Predicate φ)) : Prop :=
  ∃ ts, Reads text ts ∧ ∀ rest, Parses foreign .unary (ts ++ rest) c rest

theorem supported_names {schema : SessionSchema}
    (h : schema.supported (first :: parts) field = some column) : columnNames column ≠ [] := by
  unfold SessionSchema.supported at h
  split at h <;> cases h
  simp [columnNames]

theorem resolveColumnPath_names (h : resolveColumnPath schema path = some column) :
    columnNames column ≠ [] := by
  unfold resolveColumnPath at h
  split at h
  · exact supported_names h
  · split at h
    · cases h
    · simp only [Option.bind_eq_bind, Option.bind_eq_some_iff] at h
      obtain ⟨_, -, _, -, h⟩ := h
      exact supported_names h

theorem resolveColumn_names (h : resolveColumn schema e = some column) :
    columnNames column ≠ [] := by
  unfold resolveColumn at h
  split at h
  · split at h
    · exact supported_names h
    · split at h
      · rcases Option.or_eq_some_iff.mp h with h | ⟨-, h⟩
        · exact resolveColumnPath_names h
        · exact resolveColumnPath_names h
      · exact resolveColumnPath_names h
  · cases h

section
variable {foreign : Foreign φ}

/-- A predicate is a column and a tail that does not begin with a point. -/
theorem isUnary_column (hcolumn : resolveColumn schema e = some column)
    (htail : Reads tail (token :: ts)) (hdot : token ≠ .symbol '.')
    (hparse : ∀ rest, parseTail (columnNames column) (token :: (ts ++ rest)) = some (p, rest)) :
    IsUnary foreign (column.sql ++ tail) (.leaf p) := by
  have hpath : Closes column.sql (pathTokens (columnNames column)) := closes_pathSql column.path
  refine ⟨_, hpath.reads_append htail, fun rest => .predicate ?_⟩
  rw [parsePredicate, List.append_assoc,
    parsePath_tokens (resolveColumn_names hcolumn) (by simp [hdot])]
  exact hparse rest

theorem comparisonSymbol_closes (h : comparisonSymbol op = some symbol) :
    ∃ c, comparisonOf op = some c ∧
      Closes (" ".toList ++ symbol ++ " ".toList) [.comparison c] := by
  cases op <;> cases h <;> exact ⟨_, rfl, rfl⟩

theorem reverseComparison_mirror (h : reverseComparison op = some op')
    (hc : comparisonOf op = some c) : comparisonOf op' = some c.mirror := by
  cases op <;> cases h <;> cases hc <;> rfl

theorem isUnary_comparisonText (hcolumn : resolveColumn schema e = some column)
    (hsymbol : Closes (" ".toList ++ symbol ++ " ".toList) [.comparison c])
    (hvalue : Reads value v.tokens) :
    IsUnary foreign (comparisonText column symbol value)
      (.leaf (.compare (columnNames column) c v)) := by
  have htail : Reads (" ".toList ++ symbol ++ " ".toList ++ value) (.comparison c :: v.tokens) :=
    hsymbol.reads_append hvalue
  rw [comparisonText, List.append_assoc, List.append_assoc, List.append_assoc]
  rw [List.append_assoc, List.append_assoc] at htail
  refine isUnary_column hcolumn htail (by simp) fun rest => ?_
  rw [parseTail, parseValue_tokens]
  rfl

theorem translateComparison_unary (hfmt : Lawful fmt)
    (h : translateComparison fmt schema left op right = some text) :
    ∃ p, leafPredicate fmt schema (.binaryExpr left op right) = some p ∧
      IsUnary foreign text (.leaf p) := by
  simp only [translateComparison, Option.bind_eq_bind, Option.bind_eq_some_iff] at h
  obtain ⟨symbol, hsymbol, h⟩ := h
  obtain ⟨c, hc, hcloses⟩ := comparisonSymbol_closes hsymbol
  cases hleft : resolveColumn schema left with
  | some column =>
    simp only [hleft, Option.bind_eq_some_iff, Option.pure_def, Option.some.injEq] at h
    obtain ⟨value, hvalue, rfl⟩ := h
    obtain ⟨v, hv, hreads⟩ := literal_reads hfmt hvalue
    exact ⟨_, by simp [leafPredicate, hc, hleft, hv],
      isUnary_comparisonText hleft hcloses hreads⟩
  | none =>
    simp only [hleft, Option.bind_eq_some_iff, Option.pure_def, Option.some.injEq] at h
    obtain ⟨column, hright, op', hop', symbol', hsymbol', value, hvalue, rfl⟩ := h
    obtain ⟨c', hc', hcloses'⟩ := comparisonSymbol_closes hsymbol'
    obtain ⟨v, hv, hreads⟩ := literal_reads hfmt hvalue
    cases hc'.symm.trans (reverseComparison_mirror hop' hc)
    exact ⟨_, by simp [leafPredicate, hc, hleft, hright, hv],
      isUnary_comparisonText hright hcloses' hreads⟩

def valuesTokens : List Value → List Token
  | [] => [.symbol ')']
  | [value] => value.tokens ++ [.symbol ')']
  | value :: values => value.tokens ++ .symbol ',' :: valuesTokens values

theorem values_read (h : List.Forall₂ (fun text (v : Value) => Reads text v.tokens) texts values) :
    Reads (", ".toList.intercalate texts ++ ")".toList) (valuesTokens values) := by
  have hclose : Reads [')'] [.symbol ')'] := Closes.reads rfl
  induction h with
  | nil => exact hclose
  | @cons text value texts values hvalue htexts ih =>
    cases htexts with
    | nil => simpa [valuesTokens] using hvalue.append (.inr (.inr rfl)) hclose
    | cons _ _ =>
      have hcomma : Closes [',', ' '] [.symbol ','] := rfl
      have := hvalue.append (.inr (.inl rfl)) (hcomma.reads_append ih)
      simpa [valuesTokens, List.intercalate_cons_cons] using this

theorem literals_read {list : List Expr} (hfmt : Lawful fmt)
    (h : list.mapM (fun value => literal fmt value expected) = some texts) :
    ∃ values, list.mapM (fun value => literalValue fmt value expected) = some values ∧
      List.Forall₂ (fun text (v : Value) => Reads text v.tokens) texts values := by
  simp only [Lists.mapM_eq_some_iff_forall₂] at h ⊢
  induction h with
  | nil => exact ⟨[], .nil, .nil⟩
  | cons hliteral _ ih =>
    obtain ⟨v, hv, hreads⟩ := literal_reads hfmt hliteral
    obtain ⟨values, hvalues, hall⟩ := ih
    exact ⟨v :: values, .cons hv hvalues, .cons hreads hall⟩

theorem parseValues_tokens (hne : values ≠ []) (hfuel : values.length ≤ n) :
    parseValues n (valuesTokens values ++ rest) = some (values, rest) := by
  induction values generalizing n with
  | nil => contradiction
  | cons value values ih =>
    cases n with
    | zero => simp at hfuel
    | succ n =>
      cases values with
      | nil => simp [valuesTokens, parseValues, parseValue_tokens]
      | cons next values =>
        have := ih (by simp) (n := n) (by simpa using hfuel)
        simp [valuesTokens, parseValues, parseValue_tokens, this]

theorem length_valuesTokens (values : List Value) : values.length ≤ (valuesTokens values).length := by
  induction values with
  | nil => simp
  | cons value values ih =>
    cases values with
    | nil => simp [valuesTokens]
    | cons _ _ =>
      simp only [valuesTokens, List.length_append, List.length_cons] at ih ⊢
      omega

theorem inList_unary (hcolumn : resolveColumn schema e = some column)
    (h : List.Forall₂ (fun text (v : Value) => Reads text v.tokens) texts values)
    (hne : values ≠ []) :
    IsUnary foreign (column.sql ++ negation negated ++ " IN (".toList ++
      ", ".toList.intercalate texts ++ ")".toList)
      (.leaf (.inList (columnNames column) negated values)) := by
  have hparse : ∀ rest, parseIn (φ := φ) (columnNames column) negated
      (valuesTokens values ++ rest) = some (.inList (columnNames column) negated values, rest) := by
    intro rest
    have hfuel := length_valuesTokens values
    rw [parseIn, parseValues_tokens hne (by simp; omega)]
    rfl
  simp only [List.append_assoc]
  cases negated with
  | false =>
    have hopen : Closes " IN (".toList [.keyword .in, .symbol '('] := rfl
    exact isUnary_column hcolumn (hopen.reads_append (values_read h)) (by simp) hparse
  | true =>
    have hopen : Closes (" NOT".toList ++ " IN (".toList)
      [.keyword .not, .keyword .in, .symbol '('] := rfl
    exact isUnary_column hcolumn (hopen.reads_append (values_read h)) (by simp) hparse

theorem between_unary (hcolumn : resolveColumn schema e = some column)
    (hlow : Reads low l.tokens) (hhigh : Reads high h.tokens) :
    IsUnary foreign (column.sql ++ negation negated ++ " BETWEEN ".toList ++ low ++
      " AND ".toList ++ high) (.leaf (.between (columnNames column) negated l h)) := by
  have hand : Closes " AND ".toList [.keyword .and] := rfl
  have hrange := hlow.append (.inl rfl) (hand.reads_append hhigh)
  have hparse : ∀ rest, parseRange (φ := φ) (columnNames column) negated
      (l.tokens ++ ([.keyword .and] ++ h.tokens) ++ rest) =
        some (.between (columnNames column) negated l h, rest) := by
    intro rest
    simp [parseRange, parseValue_tokens]
  simp only [List.append_assoc]
  cases negated with
  | false =>
    have hopen : Closes " BETWEEN ".toList [.keyword .between] := rfl
    exact isUnary_column hcolumn (hopen.reads_append hrange) (by simp) hparse
  | true =>
    have hopen : Closes (" NOT".toList ++ " BETWEEN ".toList) [.keyword .not, .keyword .between] :=
      rfl
    exact isUnary_column hcolumn (hopen.reads_append hrange) (by simp) hparse

/-- A translated leaf is a predicate of the tightest level, the one the leaf
stands for. -/
theorem translateLeaf_unary (hfmt : Lawful fmt) (h : translateLeaf fmt schema e = some text) :
    ∃ p, leafPredicate fmt schema e = some p ∧ IsUnary foreign text (.leaf p) := by
  unfold translateLeaf at h
  split at h
  · exact translateComparison_unary hfmt h
  · simp only [Option.bind_eq_bind, Option.bind_eq_some_iff] at h
    obtain ⟨column, hcolumn, h⟩ := h
    cases h
    have hrun : lexer.run .start " IS NULL".toList =
        some ([.keyword .is], .word "NULL".toList) := rfl
    exact ⟨_, by simp [leafPredicate, hcolumn],
      isUnary_column hcolumn (reads_word hrun) (by simp) fun rest => rfl⟩
  · simp only [Option.bind_eq_bind, Option.bind_eq_some_iff] at h
    obtain ⟨column, hcolumn, h⟩ := h
    cases h
    have hrun : lexer.run .start " IS NOT NULL".toList =
        some ([.keyword .is, .keyword .not], .word "NULL".toList) := rfl
    exact ⟨_, by simp [leafPredicate, hcolumn],
      isUnary_column hcolumn (reads_word hrun) (by simp) fun rest => rfl⟩
  · split at h
    · cases h
    · simp only [Option.bind_eq_bind, Option.bind_eq_some_iff] at h
      obtain ⟨column, hcolumn, texts, htexts, h⟩ := h
      cases h
      obtain ⟨values, hvalues, hreads⟩ := literals_read hfmt htexts
      have hne : values ≠ [] := by
        rintro rfl
        have hempty := (Lists.mapM_eq_some_iff_forall₂.mp hvalues).length_eq
        simp_all
      exact ⟨_, by simp [leafPredicate, hcolumn, hvalues], inList_unary hcolumn hreads hne⟩
  · simp only [Option.bind_eq_bind, Option.bind_eq_some_iff] at h
    obtain ⟨column, hcolumn, low, hlow, high, hhigh, h⟩ := h
    cases h
    obtain ⟨l, hl, hlreads⟩ := literal_reads hfmt hlow
    obtain ⟨r, hr, hrreads⟩ := literal_reads hfmt hhigh
    exact ⟨_, by simp [leafPredicate, hcolumn, hl, hr], between_unary hcolumn hlreads hrreads⟩
  · cases h

end

end SilkChiffon.GoogleSql
