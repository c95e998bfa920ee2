import SilkChiffon.BigQuery.Pushdown
import SilkChiffon.Lib.Scanner
import SilkChiffon.Lib.ThreeValued

/-!
# Reading GoogleSQL conditions

The lexemes of GoogleSQL and the conditions over them: `OR` binds weaker than
`AND`, `AND` weaker than `NOT`, and `NOT` weaker than a comparison, `IN`,
`BETWEEN` and `IS`, each of which is one predicate. Predicates of any other
form are the service's own and a parameter. Texts with comments, raw strings
and triple-quoted strings are not read.
-/

namespace SilkChiffon.GoogleSql

open Pushdown (Text)
open ThreeValued

-- ---------------------------------------------------------------------------
-- Lexemes
-- ---------------------------------------------------------------------------

inductive Keyword
  | and | or | not | is | null | in | between | true | false
  deriving DecidableEq, Repr

inductive Token
  | identifier (name : Text)
  | word (text : Text)
  | keyword (k : Keyword)
  | number (text : Text)
  | string (content : Text)
  | bytes (content : Text)
  | comparison (c : Comparison)
  | symbol (c : Char)
  deriving DecidableEq, Repr

/-- Keywords are not told apart by case. -/
def Token.ofWord (text : Text) : Token :=
  let upper := text.map Char.toUpper
  if upper = "AND".toList then .keyword .and
  else if upper = "OR".toList then .keyword .or
  else if upper = "NOT".toList then .keyword .not
  else if upper = "IS".toList then .keyword .is
  else if upper = "NULL".toList then .keyword .null
  else if upper = "IN".toList then .keyword .in
  else if upper = "BETWEEN".toList then .keyword .between
  else if upper = "TRUE".toList then .keyword .true
  else if upper = "FALSE".toList then .keyword .false
  else .word text

inductive Quote
  | identifier | string | bytes
  deriving DecidableEq, Repr

def Quote.token : Quote → Text → Token
  | .identifier => .identifier
  | .string => .string
  | .bytes => .bytes

inductive Control
  | start
  | word (read : Text)
  | number (read : Text)
  /-- Behind `<`, `>`, `!`, `-` or `/`. -/
  | operator (c : Char)
  | quoted (kind : Quote) (mark : Char) (read : Text)
  | escaped (kind : Quote) (mark : Char) (read : Text)
  | hex (kind : Quote) (mark : Char) (read : Text) (high : Option Nat)
  /-- Behind an empty literal, where one more mark would open a triple quote. -/
  | closed (mark : Char)
  deriving DecidableEq, Repr

def isWordCharacter (c : Char) : Bool := c.isAlphanum || c = '_'

def isNumberCharacter (c : Char) : Bool := c.isAlphanum || c = '.'

def begin (c : Char) : Option (List Token × Control) :=
  if c.isDigit then some ([], .number [c])
  else if isWordCharacter c then some ([], .word [c])
  else match c with
    | ' ' | '\n' | '\r' | '\t' => some ([], .start)
    | '\x60' => some ([], .quoted .identifier c [])
    | '\x27' | '"' => some ([], .quoted .string c [])
    | '=' => some ([.comparison .eq], .start)
    | '<' | '>' | '!' | '-' | '/' => some ([], .operator c)
    | '#' => none
    | c => some ([.symbol c], .start)

def operatorToken : Char → Option Token
  | '<' => some (.comparison .lt)
  | '>' => some (.comparison .gt)
  | '!' => none
  | c => some (.symbol c)

def operatorPair (first c : Char) : Option Token :=
  match first, c with
  | '<', '=' => some (.comparison .ltEq)
  | '<', '>' => some (.comparison .notEq)
  | '>', '=' => some (.comparison .gtEq)
  | '!', '=' => some (.comparison .notEq)
  | _, _ => none

def opensComment (first c : Char) : Bool := first = '-' && c = '-' || first = '/' && c = '*'

def escapedCharacter : Char → Option Char
  | 'a' => some '\x07'
  | 'b' => some '\x08'
  | 'f' => some '\x0c'
  | 'n' => some '\n'
  | 'r' => some '\r'
  | 't' => some '\t'
  | 'v' => some '\x0b'
  | '\\' => some '\\'
  | '?' => some '?'
  | '"' => some '"'
  | '\x27' => some '\x27'
  | '\x60' => some '\x60'
  | _ => none

def hexDigit (c : Char) : Option Nat :=
  if c.isDigit then some (c.toNat - 48)
  else if 'a' ≤ c ∧ c ≤ 'f' then some (c.toNat - 87)
  else if 'A' ≤ c ∧ c ≤ 'F' then some (c.toNat - 55)
  else none

def isMark (c : Char) : Bool := c = '\x27' || c = '"'

/-- Ending what is pending and going on with `c`. -/
def endWith (pending : List Token) (c : Char) : Option (List Token × Control) :=
  (begin c).map fun q => (pending ++ q.1, q.2)

def lexStep : Control → Char → Option (List Token × Control)
  | .start, c => begin c
  | .word read, c =>
    if isWordCharacter c then some ([], .word (read ++ [c]))
    else if isMark c ∧ (read = ['b'] ∨ read = ['B']) then some ([], .quoted .bytes c [])
    else if isMark c ∧ read.length ≤ 2 then none
    else endWith [.ofWord read] c
  | .number read, c =>
    if isNumberCharacter c then some ([], .number (read ++ [c]))
    else if (c = '+' ∨ c = '-') ∧ (read.getLast? = some 'e' ∨ read.getLast? = some 'E') then
      some ([], .number (read ++ [c]))
    else endWith [.number read] c
  | .operator first, c =>
    if opensComment first c then none
    else match operatorPair first c with
      | some token => some ([token], .start)
      | none => do endWith [← operatorToken first] c
  | .quoted kind mark read, c =>
    if c = mark then
      some ([kind.token read], if kind ≠ .identifier ∧ read = [] then .closed mark else .start)
    else if c = '\\' then some ([], .escaped kind mark read)
    else if (c = '\n' ∨ c = '\r') ∧ kind ≠ .identifier then none
    else if kind = .bytes ∧ 0x80 ≤ c.toNat then none
    else some ([], .quoted kind mark (read ++ [c]))
  | .escaped kind mark read, c =>
    if c = 'x' ∨ c = 'X' then some ([], .hex kind mark read none)
    else do return ([], .quoted kind mark (read ++ [← escapedCharacter c]))
  | .hex kind mark read none, c => do return ([], .hex kind mark read (some (← hexDigit c)))
  | .hex kind mark read (some high), c => do
    return ([], .quoted kind mark (read ++ [Char.ofNat (16 * high + (← hexDigit c))]))
  | .closed mark, c => if c = mark then none else begin c

def lexFlush : Control → Option (List Token)
  | .start | .closed _ => some []
  | .word read => some [.ofWord read]
  | .number read => some [.number read]
  | .operator first => (operatorToken first).map ([·])
  | _ => none

def lexer : Scanner Control Char Token := ⟨.start, lexStep, lexFlush⟩

-- ---------------------------------------------------------------------------
-- Predicates
-- ---------------------------------------------------------------------------

inductive Value
  | number (negative : Bool) (digits : Text)
  | string (content : Text)
  | bytes (content : Text)
  | boolean (value : Bool)
  | typed (type content : Text)
  deriving DecidableEq, Repr

/-- The predicates over columns, and those of the service's own kind `φ`. -/
inductive Predicate (φ : Type)
  | compare (column : List Text) (comparison : Comparison) (value : Value)
  | isNull (column : List Text)
  | isNotNull (column : List Text)
  | inList (column : List Text) (negated : Bool) (values : List Value)
  | between (column : List Text) (negated : Bool) (low high : Value)
  | foreign (p : φ)
  deriving DecidableEq, Repr

def nameOf : Token → Option Text
  | .identifier name | .word name => some name
  | _ => none

def parsePath : List Token → Option (List Text × List Token)
  | [] => none
  | token :: .symbol '.' :: rest => do
    let name ← nameOf token
    let (names, rest) ← parsePath rest
    return (name :: names, rest)
  | token :: rest => do return ([← nameOf token], rest)

def parseValue : List Token → Option (Value × List Token)
  | .number digits :: rest => some (.number false digits, rest)
  | .symbol '-' :: .number digits :: rest => some (.number true digits, rest)
  | .string content :: rest => some (.string content, rest)
  | .bytes content :: rest => some (.bytes content, rest)
  | .keyword .true :: rest => some (.boolean true, rest)
  | .keyword .false :: rest => some (.boolean false, rest)
  | .word type :: .string content :: rest => some (.typed type content, rest)
  | _ => none

def parseValues : Nat → List Token → Option (List Value × List Token)
  | 0, _ => none
  | n + 1, ts => do
    let (value, ts) ← parseValue ts
    match ts with
    | .symbol ',' :: ts =>
      let (values, ts) ← parseValues n ts
      return (value :: values, ts)
    | .symbol ')' :: ts => return ([value], ts)
    | _ => none

def parseIn (column : List Text) (negated : Bool) (ts : List Token) :
    Option (Predicate φ × List Token) := do
  let (values, ts) ← parseValues ts.length ts
  return (.inList column negated values, ts)

/-- The `AND` of a range belongs to its `BETWEEN`. -/
def parseRange (column : List Text) (negated : Bool) (ts : List Token) :
    Option (Predicate φ × List Token) := do
  let (low, ts) ← parseValue ts
  match ts with
  | .keyword .and :: ts =>
    let (high, ts) ← parseValue ts
    return (.between column negated low high, ts)
  | _ => none

def parseTail (column : List Text) : List Token → Option (Predicate φ × List Token)
  | .comparison c :: ts => do
    let (value, ts) ← parseValue ts
    return (.compare column c value, ts)
  | .keyword .is :: .keyword .null :: ts => some (.isNull column, ts)
  | .keyword .is :: .keyword .not :: .keyword .null :: ts => some (.isNotNull column, ts)
  | .keyword .in :: .symbol '(' :: ts => parseIn column false ts
  | .keyword .not :: .keyword .in :: .symbol '(' :: ts => parseIn column true ts
  | .keyword .between :: ts => parseRange column false ts
  | .keyword .not :: .keyword .between :: ts => parseRange column true ts
  | _ => none

def parsePredicate (ts : List Token) : Option (Predicate φ × List Token) := do
  let (column, ts) ← parsePath ts
  parseTail column ts

-- ---------------------------------------------------------------------------
-- Conditions
-- ---------------------------------------------------------------------------

inductive Level
  | or | and | unary
  deriving DecidableEq, Repr

/-- How the service reads a predicate of its own. -/
abbrev Foreign (φ : Type) := List Token → Option (φ × List Token)

mutual

def parse (foreign : Foreign φ) : Nat → Level → List Token →
    Option (Condition (Predicate φ) × List Token)
  | 0, _, _ => none
  | n + 1, .or, ts => do
    let (left, ts) ← parse foreign n .and ts
    parseMore foreign n .or left ts
  | n + 1, .and, ts => do
    let (left, ts) ← parse foreign n .unary ts
    parseMore foreign n .and left ts
  | n + 1, .unary, .keyword .not :: ts => do
    let (child, ts) ← parse foreign n .unary ts
    return (.not child, ts)
  | n + 1, .unary, .symbol '(' :: ts => do
    let (c, ts) ← parse foreign n .or ts
    match ts with
    | .symbol ')' :: ts => return (c, ts)
    | _ => none
  | _ + 1, .unary, ts =>
    match parsePredicate ts with
    | some (p, ts) => some (.leaf p, ts)
    | none => (foreign ts).map fun (p, ts) => (.leaf (.foreign p), ts)

def parseMore (foreign : Foreign φ) : Nat → Level → Condition (Predicate φ) → List Token →
    Option (Condition (Predicate φ) × List Token)
  | 0, _, _, _ => none
  | n + 1, .or, left, .keyword .or :: ts => do
    let (right, ts) ← parse foreign n .and ts
    parseMore foreign n .or (.or left right) ts
  | n + 1, .and, left, .keyword .and :: ts => do
    let (right, ts) ← parse foreign n .unary ts
    parseMore foreign n .and (.and left right) ts
  | _ + 1, _, left, ts => some (left, ts)

end

section
variable {foreign : Foreign φ}

theorem parsePredicate_none (h : nameOf token = none) :
    (parsePredicate (token :: ts) : Option (Predicate φ × List Token)) = none := by
  have hpath : parsePath (token :: ts) = none := by
    unfold parsePath
    split <;> simp_all
  simp [parsePredicate, hpath]

theorem parse_or : parse foreign (n + 1) .or ts =
    (parse foreign n .and ts).bind fun q => parseMore foreign n .or q.1 q.2 := rfl

theorem parse_and : parse foreign (n + 1) .and ts =
    (parse foreign n .unary ts).bind fun q => parseMore foreign n .and q.1 q.2 := rfl

theorem parse_not : parse foreign (n + 1) .unary (.keyword .not :: ts) =
    (parse foreign n .unary ts).bind fun q => some (.not q.1, q.2) := rfl

theorem parse_paren (h : parse foreign n .or ts = some (c, .symbol ')' :: rest)) :
    parse foreign (n + 1) .unary (.symbol '(' :: ts) = some (c, rest) := by
  change (parse foreign n .or ts).bind _ = _
  rw [h]
  rfl

theorem parseMore_or : parseMore foreign (n + 1) .or left (.keyword .or :: ts) =
    (parse foreign n .and ts).bind fun q => parseMore foreign n .or (.or left q.1) q.2 := rfl

theorem parseMore_and : parseMore foreign (n + 1) .and left (.keyword .and :: ts) =
    (parse foreign n .unary ts).bind fun q => parseMore foreign n .and (.and left q.1) q.2 := rfl

theorem parse_succ (n : Nat) :
    (∀ level ts r, parse foreign n level ts = some r → parse foreign (n + 1) level ts = some r) ∧
    ∀ level left ts r, parseMore foreign n level left ts = some r →
      parseMore foreign (n + 1) level left ts = some r := by
  induction n with
  | zero => exact ⟨fun _ _ _ h => by simp [parse] at h, fun _ _ _ _ h => by simp [parseMore] at h⟩
  | succ n ih =>
    obtain ⟨ihp, ihm⟩ := ih
    refine ⟨fun level ts r h => ?_, fun level left ts r h => ?_⟩
    · cases level with
      | or =>
        rw [parse_or, Option.bind_eq_some_iff] at h ⊢
        obtain ⟨q, hq, h⟩ := h
        exact ⟨q, ihp _ _ _ hq, ihm _ _ _ _ h⟩
      | and =>
        rw [parse_and, Option.bind_eq_some_iff] at h ⊢
        obtain ⟨q, hq, h⟩ := h
        exact ⟨q, ihp _ _ _ hq, ihm _ _ _ _ h⟩
      | unary =>
        rw [parse.eq_def] at h ⊢
        split at h <;> try cases ‹n + 1 = _›
        all_goals try cases ‹Level.unary = _›
        · rw [Option.bind_eq_bind, Option.bind_eq_some_iff] at h ⊢
          obtain ⟨q, hq, h⟩ := h
          exact ⟨q, ihp _ _ _ hq, h⟩
        · rw [Option.bind_eq_bind, Option.bind_eq_some_iff] at h ⊢
          obtain ⟨q, hq, h⟩ := h
          exact ⟨q, ihp _ _ _ hq, h⟩
        · exact h
    · rw [parseMore.eq_def] at h ⊢
      split at h <;> cases ‹n + 1 = _›
      · rw [Option.bind_eq_bind, Option.bind_eq_some_iff] at h ⊢
        obtain ⟨q, hq, h⟩ := h
        exact ⟨q, ihp _ _ _ hq, ihm _ _ _ _ h⟩
      · rw [Option.bind_eq_bind, Option.bind_eq_some_iff] at h ⊢
        obtain ⟨q, hq, h⟩ := h
        exact ⟨q, ihp _ _ _ hq, ihm _ _ _ _ h⟩
      · exact h

theorem parse_mono (h : parse foreign n level ts = some r) (hle : n ≤ m) :
    parse foreign m level ts = some r := by
  induction hle with
  | refl => exact h
  | step _ ih => exact (parse_succ _).1 _ _ _ ih

theorem parseMore_mono (h : parseMore foreign n level left ts = some r) (hle : n ≤ m) :
    parseMore foreign m level left ts = some r := by
  induction hle with
  | refl => exact h
  | step _ ih => exact (parse_succ _).2 _ _ _ _ ih

-- ---------------------------------------------------------------------------
-- Derivations
-- ---------------------------------------------------------------------------

/-- The tokens begin with the condition `c` of that level, and `rest` follows. -/
def Parses (foreign : Foreign φ) (level : Level) (ts : List Token) (c : Condition (Predicate φ))
    (rest : List Token) : Prop := ∃ n, parse foreign n level ts = some (c, rest)

def ParsesMore (foreign : Foreign φ) (level : Level) (left : Condition (Predicate φ))
    (ts : List Token) (c : Condition (Predicate φ)) (rest : List Token) : Prop :=
  ∃ n, parseMore foreign n level left ts = some (c, rest)

theorem Parses.unique (h : Parses foreign level ts c rest) (h' : Parses foreign level ts c' rest') :
    c = c' ∧ rest = rest' := by
  obtain ⟨n, h⟩ := h
  obtain ⟨m, h'⟩ := h'
  have h1 := parse_mono h (Nat.le_max_left n m)
  have h2 := parse_mono h' (Nat.le_max_right n m)
  simpa [h1] using h2

theorem Parses.or (h : Parses foreign .and ts left ts')
    (hmore : ParsesMore foreign .or left ts' c rest) : Parses foreign .or ts c rest := by
  obtain ⟨n, h⟩ := h
  obtain ⟨m, hmore⟩ := hmore
  refine ⟨max n m + 1, ?_⟩
  rw [parse_or, parse_mono h (Nat.le_max_left n m)]
  exact parseMore_mono hmore (Nat.le_max_right n m)

theorem Parses.and (h : Parses foreign .unary ts left ts')
    (hmore : ParsesMore foreign .and left ts' c rest) : Parses foreign .and ts c rest := by
  obtain ⟨n, h⟩ := h
  obtain ⟨m, hmore⟩ := hmore
  refine ⟨max n m + 1, ?_⟩
  rw [parse_and, parse_mono h (Nat.le_max_left n m)]
  exact parseMore_mono hmore (Nat.le_max_right n m)

theorem ParsesMore.or (h : Parses foreign .and ts right ts')
    (hmore : ParsesMore foreign .or (.or left right) ts' c rest) :
    ParsesMore foreign .or left (.keyword .or :: ts) c rest := by
  obtain ⟨n, h⟩ := h
  obtain ⟨m, hmore⟩ := hmore
  refine ⟨max n m + 1, ?_⟩
  rw [parseMore_or, parse_mono h (Nat.le_max_left n m)]
  exact parseMore_mono hmore (Nat.le_max_right n m)

theorem ParsesMore.and (h : Parses foreign .unary ts right ts')
    (hmore : ParsesMore foreign .and (.and left right) ts' c rest) :
    ParsesMore foreign .and left (.keyword .and :: ts) c rest := by
  obtain ⟨n, h⟩ := h
  obtain ⟨m, hmore⟩ := hmore
  refine ⟨max n m + 1, ?_⟩
  rw [parseMore_and, parse_mono h (Nat.le_max_left n m)]
  exact parseMore_mono hmore (Nat.le_max_right n m)

def Ends : Level → List Token → Prop
  | .or, .keyword .or :: _ | .and, .keyword .and :: _ => False
  | _, _ => True

theorem ends_paren : Ends level (.symbol ')' :: rest) := by cases level <;> trivial

theorem ends_or : Ends .and (.keyword .or :: rest) := trivial

theorem ParsesMore.stop (h : Ends level ts) : ParsesMore foreign level left ts left ts := by
  refine ⟨1, ?_⟩
  unfold parseMore
  split <;> simp_all [Ends]

theorem Parses.not (h : Parses foreign .unary ts c rest) :
    Parses foreign .unary (.keyword .not :: ts) (.not c) rest := by
  obtain ⟨n, h⟩ := h
  exact ⟨n + 1, by rw [parse_not, h]; rfl⟩

theorem Parses.paren (h : Parses foreign .or ts c (.symbol ')' :: rest)) :
    Parses foreign .unary (.symbol '(' :: ts) c rest := by
  obtain ⟨n, h⟩ := h
  exact ⟨n + 1, parse_paren h⟩

theorem Parses.predicate (h : parsePredicate ts = some (p, rest)) :
    Parses foreign .unary ts (.leaf p) rest := by
  refine ⟨1, ?_⟩
  unfold parse
  split
  · contradiction
  · simp_all
  · simp_all
  · rw [parsePredicate_none rfl] at h
    cases h
  · rw [parsePredicate_none rfl] at h
    cases h
  · simp [h]

theorem Parses.of_unary (h : Parses foreign .unary ts c rest) (hand : Ends .and rest)
    (hor : Ends .or rest) : Parses foreign .or ts c rest := .or (.and h (.stop hand)) (.stop hor)

end

def Denotes (foreign : Foreign φ) (text : Text) (c : Condition (Predicate φ)) : Prop :=
  ∃ ts, lexer.scan text = some ts ∧ Parses foreign .or ts c []

theorem Denotes.unique (h : Denotes foreign text c) (h' : Denotes foreign text c') : c = c' := by
  obtain ⟨ts, hts, hc⟩ := h
  obtain ⟨ts', hts', hc'⟩ := h'
  cases hts.symm.trans hts'
  exact (hc.unique hc').1

end SilkChiffon.GoogleSql
