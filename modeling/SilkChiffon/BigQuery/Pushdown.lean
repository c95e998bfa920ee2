import Mathlib.Algebra.GroupWithZero.Nat
import SilkChiffon.Arrow.Schema
import SilkChiffon.Lib.Float64

/-!
# Filters as row restrictions

A DataFusion filter becomes the text of a Storage Read row restriction if all
of it can be translated, and is left to DataFusion otherwise. The printing of
floats, dates and times is a parameter.
-/

namespace SilkChiffon.Pushdown

open Arrow

abbrev Text := List Char

-- ---------------------------------------------------------------------------
-- Expressions and session schemas
-- ---------------------------------------------------------------------------

/-- The operators of a binary expression, the untranslated ones as one. -/
inductive Operator
  | and | or
  | eq | notEq | lt | ltEq | gt | gtEq
  | other
  deriving DecidableEq, Repr

inductive ScalarValue
  | boolean (value : Option Bool)
  | int8 (value : Option Int8)
  | int16 (value : Option Int16)
  | int32 (value : Option Int32)
  | int64 (value : Option Int64)
  | uint8 (value : Option UInt8)
  | uint16 (value : Option UInt16)
  | uint32 (value : Option UInt32)
  | uint64 (value : Option UInt64)
  | float64 (value : Option Float64)
  | utf8 (value : Option Text)
  | utf8View (value : Option Text)
  | largeUtf8 (value : Option Text)
  | binary (value : Option (List UInt8))
  | binaryView (value : Option (List UInt8))
  | largeBinary (value : Option (List UInt8))
  | date32 (days : Option Int32)
  | time64Microsecond (value : Option Int64)
  | timestampMicrosecond (value : Option Int64) (timezone : Option String)
  | timestampNanosecond (value : Option Int64) (timezone : Option String)
  | decimal128 (value : Option Int) (precision : Nat) (scale : Int)
  | decimal256 (value : Option Int) (precision : Nat) (scale : Int)
  | other

/-- Expressions, every kind the translation refuses as one. A column's
relation is the list of the names it is qualified with. -/
inductive Expr
  | column (relation : Option (List String)) (name : String)
  | literal (value : ScalarValue)
  | binaryExpr (left : Expr) (op : Operator) (right : Expr)
  | not (child : Expr)
  | isNull (child : Expr)
  | isNotNull (child : Expr)
  | inList (expr : Expr) (list : List Expr) (negated : Bool)
  | between (expr : Expr) (negated : Bool) (low high : Expr)
  | other

structure SessionSchema where
  fields : Schema
  metadata : List String → List (String × String)

-- ---------------------------------------------------------------------------
-- Columns
-- ---------------------------------------------------------------------------

def quote (mark : Char) (text : Text) : Text := mark :: text ++ [mark]

def quoteIdentifier (value : Text) : Text :=
  quote '\x60' ((value.flatMap fun c => if c = '\\' then ['\\', '\\'] else [c]).flatMap
    fun c => if c = '\x60' then ['\\', '\x60'] else [c])

def containsIgnoringCase (text part : String) : Bool :=
  (text.toList.map Char.toUpper).tails.any (part.toList.isPrefixOf ·)

def supportedField (metadata : List (String × String)) (dataType : DataType) : Bool :=
  let unsupportedLogicalType := metadata.any fun (name, value) =>
    (containsIgnoringCase name "LOGICAL" || containsIgnoringCase name "EXTENSION") &&
      (containsIgnoringCase value "GEOGRAPHY" || containsIgnoringCase value "JSON")
  !unsupportedLogicalType &&
    match dataType with
    | .boolean | .int64 | .float64 | .utf8 | .binary | .date32 | .time64 .microsecond
    | .timestamp .microsecond _ | .timestamp .nanosecond _ | .decimal128 _ _
    | .decimal256 _ _ => true
    | _ => false

structure ResolvedColumn where
  path : List String
  dataType : DataType

def pathSql (path : List String) : Text :=
  ['.'].intercalate (path.map fun name => quoteIdentifier name.toList)

def ResolvedColumn.sql (column : ResolvedColumn) : Text := pathSql column.path

def SessionSchema.supported (schema : SessionSchema) (path : List String) (field : Field) :
    Option ResolvedColumn :=
  if supportedField (schema.metadata path) field.dataType then some ⟨path, field.dataType⟩ else none

def descend (field : Field) : List String → Option Field
  | [] => some field
  | part :: parts =>
    match field.dataType with
    | .struct fields => do descend (← Schema.fieldWithName fields part) parts
    | _ => none

def resolveColumnPath (schema : SessionSchema) (path : String) : Option ResolvedColumn :=
  match schema.fields.fieldWithName path with
  | some field => schema.supported [path] field
  | none => do
    match (path.toList.splitOn '.').map String.ofList with
    | [] => none
    | first :: parts =>
      let field ← descend (← schema.fields.fieldWithName first) parts
      schema.supported (first :: parts) field

def resolveColumn (schema : SessionSchema) : Expr → Option ResolvedColumn
  | .column relation name =>
    match schema.fields.fieldWithName name with
    | some field => schema.supported [name] field
    | none =>
      match relation with
      | some [table] =>
        (resolveColumnPath schema (table ++ "." ++ name)).or (resolveColumnPath schema name)
      | _ => resolveColumnPath schema name
  | _ => none

-- ---------------------------------------------------------------------------
-- Literals
-- ---------------------------------------------------------------------------

/-- How values are printed: a finite FLOAT64, the date so many days from the
epoch, a time of day from seconds and nanoseconds, and the moment so many
seconds and nanoseconds from the epoch. -/
structure Formatting where
  float64 : Float64 → Text
  date : Int → Option Text
  time : Nat → Nat → Option Text
  moment : Int → Nat → Option Text

def integer (value : Int) : Text := (toString value).toList

def integerLiteral : ScalarValue → Option Text
  | .int8 (some value) => some (integer value.toInt)
  | .int16 (some value) => some (integer value.toInt)
  | .int32 (some value) => some (integer value.toInt)
  | .int64 (some value) => some (integer value.toInt)
  | .uint8 (some value) => some (integer value.toNat)
  | .uint16 (some value) => some (integer value.toNat)
  | .uint32 (some value) => some (integer value.toNat)
  | .uint64 (some value) =>
    if value.toNat ≤ 9223372036854775807 then some (integer value.toNat) else none
  | _ => none

def isControl (c : Char) : Bool := c.toNat < 0x20 || (0x7f ≤ c.toNat && c.toNat ≤ 0x9f)

def escapeCharacter (c : Char) : Option Text :=
  match c with
  | '\\' => some ['\\', '\\']
  | '\x27' => some ['\\', '\x27']
  | '\n' => some ['\\', 'n']
  | '\r' => some ['\\', 'r']
  | '\t' => some ['\\', 't']
  | c => if isControl c then none else some [c]

def stringLiteral (value : Text) : Option Text := do
  let escaped ← value.mapM escapeCharacter
  return quote '\x27' escaped.flatten

def byteText (byte : UInt8) : Text :=
  ['\\', 'x', (byte.toNat / 16).digitChar, (byte.toNat % 16).digitChar]

def timeLiteral (fmt : Formatting) (micros : Int) : Option Text :=
  if 0 ≤ micros ∧ micros < 86400000000 then do
    let time ← fmt.time (micros / 1000000).toNat (micros % 1000000 * 1000).toNat
    return "TIME ".toList ++ quote '\x27' time
  else
    none

def checkedI128 (value : Int) : Option Int :=
  if -170141183460469231731687303715884105728 ≤ value ∧
      value < 170141183460469231731687303715884105728 then some value else none

def checkedI64 (value : Int) : Option Int :=
  if -9223372036854775808 ≤ value ∧ value < 9223372036854775808 then some value else none

def timestampLiteral (fmt : Formatting) (value nanosPerUnit : Int) (timezone : Option String) :
    Option Text := do
  let totalNanos ← checkedI128 (value * nanosPerUnit)
  let seconds ← checkedI64 (totalNanos / 1000000000)
  let formatted ← fmt.moment seconds (totalNanos % 1000000000).toNat
  match timezone with
  | none => some ("DATETIME ".toList ++ quote '\x27' formatted)
  | some "UTC" | some "+00:00" =>
    some ("TIMESTAMP ".toList ++ quote '\x27' (formatted ++ "+00".toList))
  | some _ => none

def equivalentTimezone (expected actual : Option String) : Bool :=
  expected = actual ||
    match expected, actual with
    | some "UTC", some "+00:00" | some "+00:00", some "UTC" => true
    | _, _ => false

def splitSign : Text → Bool × Text
  | '-' :: digits => (true, digits)
  | digits => (false, digits)

def padDigits (digits : Text) (scale : Nat) : Text :=
  if digits.length ≤ scale then List.replicate (scale + 1 - digits.length) '0' ++ digits
  else digits

def insertPoint (digits : Text) (point : Nat) : Text :=
  digits.take point ++ '.' :: digits.drop point

/-- The point goes in front of the last `scale` digits, zeros before them if
there are too few. -/
def scaledDecimalString (value : Text) (scale : Int) : Option Text :=
  if scale < 0 then none
  else if scale = 0 then some value
  else
    let (negative, digits) := splitSign value
    let padded := padDigits digits scale.toNat
    let pointed := insertPoint padded (padded.length - scale.toNat)
    some (if negative then '-' :: pointed else pointed)

def scaledDecimal (value scale : Int) : Option Text := scaledDecimalString (integer value) scale

def literal (fmt : Formatting) (expression : Expr) (expected : DataType) : Option Text :=
  match expression with
  | .literal value =>
    match expected, value with
    | .boolean, .boolean (some value) => some (if value then "TRUE".toList else "FALSE".toList)
    | .int64, value => integerLiteral value
    | .float64, .float64 (some value) => if value.isFinite then some (fmt.float64 value) else none
    | .utf8, .utf8 (some value) | .utf8, .utf8View (some value)
    | .utf8, .largeUtf8 (some value) => stringLiteral value
    | .binary, .binary (some value) | .binary, .binaryView (some value)
    | .binary, .largeBinary (some value) => some ('b' :: quote '\x27' (value.flatMap byteText))
    | .date32, .date32 (some days) => do
      let date ← fmt.date days.toInt
      return "DATE ".toList ++ quote '\x27' date
    | .time64 .microsecond, .time64Microsecond (some value) => timeLiteral fmt value.toInt
    | .timestamp .microsecond timezone, .timestampMicrosecond (some value) literalTimezone =>
      if equivalentTimezone timezone literalTimezone then
        timestampLiteral fmt value.toInt 1000 timezone
      else none
    | .timestamp .nanosecond timezone, .timestampNanosecond (some value) literalTimezone =>
      if equivalentTimezone timezone literalTimezone then
        timestampLiteral fmt value.toInt 1 timezone
      else none
    | .decimal128 precision scale, .decimal128 (some value) literalPrecision literalScale =>
      if precision = literalPrecision ∧ scale = literalScale then do
        return "NUMERIC ".toList ++ quote '\x27' (← scaledDecimal value scale)
      else none
    | .decimal256 precision scale, .decimal256 (some value) literalPrecision literalScale =>
      if precision = literalPrecision ∧ scale = literalScale then do
        return "BIGNUMERIC ".toList ++
          quote '\x27' (← scaledDecimalString (integer value) scale)
      else none
    | _, _ => none
  | _ => none

-- ---------------------------------------------------------------------------
-- Leaves
-- ---------------------------------------------------------------------------

def comparisonSymbol : Operator → Option Text
  | .eq => some "=".toList
  | .notEq => some "!=".toList
  | .lt => some "<".toList
  | .ltEq => some "<=".toList
  | .gt => some ">".toList
  | .gtEq => some ">=".toList
  | _ => none

def reverseComparison : Operator → Option Operator
  | .eq => some .eq
  | .notEq => some .notEq
  | .lt => some .gt
  | .ltEq => some .gtEq
  | .gt => some .lt
  | .gtEq => some .ltEq
  | _ => none

def comparisonText (column : ResolvedColumn) (symbol value : Text) : Text :=
  column.sql ++ " ".toList ++ symbol ++ " ".toList ++ value

def translateComparison (fmt : Formatting) (schema : SessionSchema) (left : Expr)
    (operator : Operator) (right : Expr) : Option Text := do
  let symbol ← comparisonSymbol operator
  match resolveColumn schema left with
  | some column => return comparisonText column symbol (← literal fmt right column.dataType)
  | none =>
    let column ← resolveColumn schema right
    let symbol ← comparisonSymbol (← reverseComparison operator)
    return comparisonText column symbol (← literal fmt left column.dataType)

def negation (negated : Bool) : Text := if negated then " NOT".toList else []

def translateLeaf (fmt : Formatting) (schema : SessionSchema) : Expr → Option Text
  | .binaryExpr left op right => translateComparison fmt schema left op right
  | .isNull child => do
    let column ← resolveColumn schema child
    return column.sql ++ " IS NULL".toList
  | .isNotNull child => do
    let column ← resolveColumn schema child
    return column.sql ++ " IS NOT NULL".toList
  | .inList expr list negated =>
    if list.isEmpty then none
    else do
      let column ← resolveColumn schema expr
      let values ← list.mapM fun value => literal fmt value column.dataType
      return column.sql ++ negation negated ++ " IN (".toList ++
        ", ".toList.intercalate values ++ ")".toList
  | .between expr negated low high => do
    let column ← resolveColumn schema expr
    let low ← literal fmt low column.dataType
    let high ← literal fmt high column.dataType
    return column.sql ++ negation negated ++ " BETWEEN ".toList ++ low ++ " AND ".toList ++ high
  | _ => none

-- ---------------------------------------------------------------------------
-- Trees
-- ---------------------------------------------------------------------------

inductive Translation
  | expression (e : Expr)
  | text (t : Text)

def Expr.weight : Expr → Nat
  | .binaryExpr left _ right => left.weight + right.weight + 3
  | .not child => child.weight + 2
  | _ => 1

def Translation.weight : Translation → Nat
  | .expression e => e.weight
  | .text _ => 1

theorem Expr.weight_pos (e : Expr) : 0 < e.weight := by cases e <;> simp [Expr.weight]

def translateLoop (fmt : Formatting) (schema : SessionSchema) (sql : Text) :
    List Translation → Option Text
  | [] => some sql
  | .text text :: pending => translateLoop fmt schema (sql ++ text) pending
  | .expression expression :: pending =>
    match expression with
    | .binaryExpr left .and right =>
      translateLoop fmt schema (sql ++ "(".toList)
        (.expression left :: .text " AND ".toList :: .expression right :: .text ")".toList ::
          pending)
    | .binaryExpr left .or right =>
      translateLoop fmt schema (sql ++ "(".toList)
        (.expression left :: .text " OR ".toList :: .expression right :: .text ")".toList ::
          pending)
    | .not child =>
      translateLoop fmt schema (sql ++ "(NOT ".toList)
        (.expression child :: .text ")".toList :: pending)
    | leaf => do translateLoop fmt schema (sql ++ (← translateLeaf fmt schema leaf)) pending
termination_by pending => (pending.map Translation.weight).sum
decreasing_by
  all_goals simp only [List.map_cons, List.sum_cons, Translation.weight, Expr.weight]
  all_goals try have := Expr.weight_pos leaf
  all_goals omega

def translate (fmt : Formatting) (schema : SessionSchema) (expression : Expr) : Option Text :=
  translateLoop fmt schema [] [.expression expression]

inductive FilterPushDown
  | exact | unsupported
  deriving DecidableEq, Repr

def support (fmt : Formatting) (schema : SessionSchema) (expression : Expr) : FilterPushDown :=
  if (translate fmt schema expression).isSome then .exact else .unsupported

def parenthesized (text : Text) : Text := "(".toList ++ text ++ ")".toList

def rowRestriction (fmt : Formatting) (schema : SessionSchema) (filters : List Expr)
    (explicit : Option Text) : Option Text :=
  let restrictions := (filters.filterMap (translate fmt schema)).map parenthesized ++
    ((explicit.filter (!·.isEmpty)).map parenthesized).toList
  if restrictions.isEmpty then none else some (" AND ".toList.intercalate restrictions)

end SilkChiffon.Pushdown
