import SilkChiffon.BigQuery.Restriction

/-!
# Pushing FLOAT64 filters down

DataFusion compares floats in the total order and the service in the IEEE
order, so a filter that is pushed down keeps other rows than the filter itself
when a leaf compares NaN or a zero with a zero of the opposite sign. The reading
of number literals by the service is a parameter.
-/

namespace SilkChiffon.GoogleSql

open Arrow Pushdown ThreeValued

/-- The FLOAT64 columns of a row; a missing value is `NULL`. -/
abbrev FloatRow := List Text → Option Float64

-- ---------------------------------------------------------------------------
-- Predicates over floats
-- ---------------------------------------------------------------------------

inductive FloatPredicate
  | compare (column : List Text) (c : Comparison) (y : Float64)
  | isNull (column : List Text)
  | isNotNull (column : List Text)
  | inList (column : List Text) (negated : Bool) (ys : List Float64)
  | between (column : List Text) (negated : Bool) (low high : Float64)

abbrev FloatOrder := Comparison → Float64 → Float64 → Bool

def inListTruth (order : FloatOrder) (negated : Bool) (ys : List Float64) (x : Float64) : Bool :=
  negated != ys.any fun y => order .eq x y

def betweenTruth (order : FloatOrder) (negated : Bool) (low high x : Float64) : Bool :=
  negated != (order .gtEq x low && order .ltEq x high)

def valueTruth (f : Float64 → Bool) : Option Float64 → Truth
  | none => .unknown
  | some x => .ofBool (f x)

namespace FloatPredicate

def truth (order : FloatOrder) (row : FloatRow) : FloatPredicate → Truth
  | .compare column c y => valueTruth (order c · y) (row column)
  | .isNull column => .ofBool (row column).isNone
  | .isNotNull column => .ofBool (row column).isSome
  | .inList column negated ys => valueTruth (inListTruth order negated ys) (row column)
  | .between column negated low high =>
    valueTruth (betweenTruth order negated low high) (row column)

def literals : FloatPredicate → List Float64
  | .compare _ _ y => [y]
  | .isNull _ | .isNotNull _ => []
  | .inList _ _ ys => ys
  | .between _ _ low high => [low, high]

/-- Equality with the values of a list differs between the orders on a zero
that only the other zero represents in it. -/
def InListDiverges (ys : List Float64) (x : Float64) : Prop :=
  x = .negativeZero ∧ .zero ∈ ys ∧ .negativeZero ∉ ys ∨
  x = .zero ∧ .negativeZero ∈ ys ∧ .zero ∉ ys

def BetweenDiverges (low high x : Float64) : Prop :=
  x = .negativeZero ∧ low = .zero ∧ 0 ≤ high.position ∨
  x = .zero ∧ high = .negativeZero ∧ low.position ≤ 0

/-- The values on which the two orders give the predicate different truth. -/
def Diverges (row : FloatRow) : FloatPredicate → Prop
  | .compare column c y => ∃ x, row column = some x ∧ c.Diverges x y
  | .isNull _ | .isNotNull _ => False
  | .inList column _ ys => ∃ x, row column = some x ∧ InListDiverges ys x
  | .between column _ low high => ∃ x, row column = some x ∧ BetweenDiverges low high x

end FloatPredicate

theorem valueTruth_ne {o : Option Float64} :
    valueTruth f o ≠ valueTruth g o ↔ ∃ x, o = some x ∧ f x ≠ g x := by
  cases o <;> simp [valueTruth]

theorem negated_ne {negated a b : Bool} : (negated != a) ≠ (negated != b) ↔ a ≠ b := by
  cases negated <;> cases a <;> cases b <;> simp

theorem inListDiverges_iff (hys : ∀ y ∈ ys, y.isFinite = true) :
    FloatPredicate.InListDiverges ys x ↔
      inListTruth Comparison.total negated ys x ≠ inListTruth Comparison.ieee negated ys x := by
  have htotal : (ys.any fun y => Comparison.eq.total x y) = true ↔ x ∈ ys := by
    simp [Comparison.total_eq_iff]
  have hieee : (ys.any fun y => Comparison.eq.ieee x y) = true ↔
      x ∈ ys ∨ x = .negativeZero ∧ .zero ∈ ys ∨ x = .zero ∧ .negativeZero ∈ ys := by
    rw [List.any_eq_true]
    constructor
    · rintro ⟨y, hy, h⟩
      rcases (Comparison.ieee_eq_iff (hys y hy)).mp h with rfl | ⟨rfl, rfl⟩ | ⟨rfl, rfl⟩
      · exact .inl hy
      · exact .inr (.inl ⟨rfl, hy⟩)
      · exact .inr (.inr ⟨rfl, hy⟩)
    · rintro (h | ⟨rfl, h⟩ | ⟨rfl, h⟩)
      · exact ⟨x, h, (Comparison.ieee_eq_iff (hys x h)).mpr (.inl rfl)⟩
      · exact ⟨_, h, (Comparison.ieee_eq_iff (hys _ h)).mpr (.inr (.inl ⟨rfl, rfl⟩))⟩
      · exact ⟨_, h, (Comparison.ieee_eq_iff (hys _ h)).mpr (.inr (.inr ⟨rfl, rfl⟩))⟩
  rw [inListTruth, inListTruth, negated_ne, Ne, Bool.eq_iff_iff, htotal, hieee,
    FloatPredicate.InListDiverges]
  constructor
  · rintro (⟨rfl, h, h'⟩ | ⟨rfl, h, h'⟩) heq
    · exact h' (heq.mpr (.inr (.inl ⟨rfl, h⟩)))
    · exact h' (heq.mpr (.inr (.inr ⟨rfl, h⟩)))
  · intro h
    by_cases hx : x ∈ ys
    · exact absurd ⟨.inl, fun _ => hx⟩ h
    · by_cases hzero : x = .negativeZero ∧ .zero ∈ ys
      · exact .inl ⟨hzero.1, hzero.2, hzero.1 ▸ hx⟩
      · by_cases hzero' : x = .zero ∧ .negativeZero ∈ ys
        · exact .inr ⟨hzero'.1, hzero'.2, hzero'.1 ▸ hx⟩
        · exact absurd ⟨fun h => absurd h hx, fun h => by tauto⟩ h

/-- A number compares with the two zeros as its place does with zero. -/
theorem ieee_negativeZero (hy : y.isFinite = true) :
    Comparison.ltEq.ieee .negativeZero y = true ↔ 0 ≤ y.position := by
  cases y with
  | nan => simp [Float64.isFinite] at hy
  | number n m => simp [Comparison.ieee, Comparison.int, Float64.negativeZero, Float64.position]

theorem ieee_zero (hy : y.isFinite = true) :
    Comparison.gtEq.ieee .zero y = true ↔ y.position ≤ 0 := by
  cases y with
  | nan => simp [Float64.isFinite] at hy
  | number n m => simp [Comparison.ieee, Comparison.int, Float64.zero, Float64.position]

theorem betweenDiverges_iff (hlow : low.isFinite = true) (hhigh : high.isFinite = true) :
    FloatPredicate.BetweenDiverges low high x ↔
      betweenTruth Comparison.total negated low high x ≠
        betweenTruth Comparison.ieee negated low high x := by
  have hl := Comparison.diverges_iff (c := .gtEq) (x := x) hlow
  have hh := Comparison.diverges_iff (c := .ltEq) (x := x) hhigh
  have hzero : Float64.negativeZero ≠ .zero := by decide
  rw [betweenTruth, betweenTruth, negated_ne]
  simp only [Comparison.Diverges, reduceCtorEq, or_false, or_self, and_false, false_or, or_true,
    and_true] at hl hh
  unfold FloatPredicate.BetweenDiverges
  by_cases hnan : x = .nan
  · subst hnan
    have htotal : Comparison.ltEq.total .nan high = false := by
      cases high with
      | nan => simp [Float64.isFinite] at hhigh
      | number n m =>
        cases n <;> simp [Comparison.total, Comparison.int, Float64.totalPosition] <;> omega
    have hieee : Comparison.gtEq.ieee .nan low = false := by simp [Comparison.ieee]
    simp [htotal, hieee, Float64.negativeZero, Float64.zero]
  by_cases hneg : x = .negativeZero ∧ low = .zero
  · obtain ⟨rfl, rfl⟩ := hneg
    have := ieee_negativeZero hhigh
    grind
  by_cases hpos : x = .zero ∧ high = .negativeZero
  · obtain ⟨rfl, rfl⟩ := hpos
    have := ieee_zero hlow
    grind
  · grind

theorem FloatPredicate.diverges_iff {p : FloatPredicate}
    (hfinite : ∀ y ∈ p.literals, y.isFinite = true) :
    p.Diverges row ↔ p.truth Comparison.total row ≠ p.truth Comparison.ieee row := by
  cases p with
  | compare column c y =>
    simp only [literals, List.forall_mem_singleton] at hfinite
    simp only [Diverges, truth, valueTruth_ne, Comparison.diverges_iff hfinite]
  | isNull column | isNotNull column => simp [Diverges, truth]
  | inList column negated ys =>
    simp only [Diverges, truth, valueTruth_ne]
    exact exists_congr fun x => and_congr_right fun _ => inListDiverges_iff hfinite
  | between column negated low high =>
    simp only [literals, List.forall_mem_cons] at hfinite
    simp only [Diverges, truth, valueTruth_ne]
    exact exists_congr fun x => and_congr_right fun _ =>
      betweenDiverges_iff hfinite.1 hfinite.2.1

-- ---------------------------------------------------------------------------
-- The evaluation DataFusion would have made
-- ---------------------------------------------------------------------------

def floatColumn (schema : SessionSchema) (e : Expr) : Option (List Text) := do
  let column ← resolveColumn schema e
  match column.dataType with
  | .float64 => some (columnNames column)
  | _ => none

def floatLiteral : Expr → Option Float64
  | .literal (.float64 (some y)) => if y.isFinite then some y else none
  | _ => none

/-- The value of an operand, `NULL` as the inner `none`. -/
def operand (schema : SessionSchema) (row : FloatRow) (e : Expr) : Option (Option Float64) :=
  match floatColumn schema e with
  | some column => some (row column)
  | none => (floatLiteral e).map some

def operandsTruth (f : Float64 → Float64 → Bool) : Option Float64 → Option Float64 → Truth
  | some x, some y => .ofBool (f x y)
  | _, _ => .unknown

/-- The truth of a leaf over FLOAT64 operands, in the total order. -/
def leafTruth (schema : SessionSchema) (row : FloatRow) : Expr → Option Truth
  | .binaryExpr left op right => do
    let c ← comparisonOf op
    let x ← operand schema row left
    let y ← operand schema row right
    return operandsTruth c.total x y
  | .isNull child => do return .ofBool (← operand schema row child).isNone
  | .isNotNull child => do return .ofBool (← operand schema row child).isSome
  | .inList expr list negated => do
    let x ← operand schema row expr
    let ys ← list.mapM floatLiteral
    return valueTruth (inListTruth Comparison.total negated ys) x
  | .between expr negated low high => do
    let x ← operand schema row expr
    let low ← operand schema row low
    let high ← operand schema row high
    let inside := (operandsTruth Comparison.gtEq.total x low).and
      (operandsTruth Comparison.ltEq.total x high)
    return if negated then inside.not else inside
  | _ => none

def dataFusionTruth (schema : SessionSchema) (row : FloatRow) (e : Expr) : Truth :=
  (condition e).eval fun leaf => (leafTruth schema row leaf).getD .unknown

def floatPredicate (schema : SessionSchema) : Expr → Option FloatPredicate
  | .binaryExpr left op right => do
    let c ← comparisonOf op
    match floatColumn schema left with
    | some column => return .compare column c (← floatLiteral right)
    | none => return .compare (← floatColumn schema right) c.mirror (← floatLiteral left)
  | .isNull child => do return .isNull (← floatColumn schema child)
  | .isNotNull child => do return .isNotNull (← floatColumn schema child)
  | .inList expr list negated => do
    if list.isEmpty then none
    else return .inList (← floatColumn schema expr) negated (← list.mapM floatLiteral)
  | .between expr negated low high => do
    return .between (← floatColumn schema expr) negated (← floatLiteral low) (← floatLiteral high)
  | _ => none

theorem floatLiteral_eq_some :
    floatLiteral e = some y ↔ e = .literal (.float64 (some y)) ∧ y.isFinite = true := by
  unfold floatLiteral
  split
  · split <;> simp_all
    · grind
    · grind
  · simp_all

theorem floatColumn_literal : floatColumn schema (.literal value) = none := rfl

theorem operand_literal (h : floatLiteral e = some y) : operand schema row e = some (some y) := by
  obtain ⟨rfl, -⟩ := floatLiteral_eq_some.mp h
  rw [operand, floatColumn_literal, h]
  rfl

theorem operand_column (h : floatColumn schema e = some column) :
    operand schema row e = some (row column) := by
  rw [operand, h]

theorem literals_finite (h : floatPredicate schema e = some p) :
    ∀ y ∈ p.literals, y.isFinite = true := by
  unfold floatPredicate at h
  split at h
  · simp only [Option.bind_eq_bind, Option.bind_eq_some_iff] at h
    obtain ⟨c, -, h⟩ := h
    split at h
    · obtain ⟨y, hy, h⟩ := Option.bind_eq_some_iff.mp h
      cases h
      simpa [FloatPredicate.literals] using (floatLiteral_eq_some.mp hy).2
    · simp only [Option.bind_eq_some_iff] at h
      obtain ⟨column, -, y, hy, h⟩ := h
      cases h
      simpa [FloatPredicate.literals] using (floatLiteral_eq_some.mp hy).2
  · obtain ⟨column, -, h⟩ := Option.bind_eq_some_iff.mp h
    cases h
    simp [FloatPredicate.literals]
  · obtain ⟨column, -, h⟩ := Option.bind_eq_some_iff.mp h
    cases h
    simp [FloatPredicate.literals]
  · split at h
    · cases h
    · simp only [Option.bind_eq_bind, Option.bind_eq_some_iff] at h
      obtain ⟨column, -, ys, hys, h⟩ := h
      cases h
      intro y hy
      obtain ⟨e', -, he'⟩ := Lists.mem_of_mapM_some hys hy
      exact (floatLiteral_eq_some.mp he').2
  · simp only [Option.bind_eq_bind, Option.bind_eq_some_iff] at h
    obtain ⟨column, -, low, hlow, high, hhigh, h⟩ := h
    cases h
    simpa [FloatPredicate.literals] using
      ⟨(floatLiteral_eq_some.mp hlow).2, (floatLiteral_eq_some.mp hhigh).2⟩
  · cases h

theorem operandsTruth_literal {f : Float64 → Float64 → Bool} :
    operandsTruth f x (some y) = valueTruth (f · y) x := by cases x <;> rfl

theorem operandsTruth_mirror {c : Comparison} :
    operandsTruth c.total (some y) x = valueTruth (c.mirror.total · y) x := by
  cases x with
  | none => rfl
  | some x => simp only [operandsTruth, valueTruth, Comparison.total_mirror]

theorem range_truth (low high : Float64) (x : Option Float64) :
    (let inside := (operandsTruth Comparison.gtEq.total x (some low)).and
      (operandsTruth Comparison.ltEq.total x (some high))
     if negated then inside.not else inside) =
      valueTruth (betweenTruth Comparison.total negated low high) x := by
  cases x with
  | none => cases negated <;> rfl
  | some x =>
    simp only [operandsTruth, valueTruth, betweenTruth]
    cases negated <;> cases Comparison.gtEq.total x low <;> cases Comparison.ltEq.total x high <;> rfl

/-- DataFusion gives a leaf the truth of its predicate in the total order. -/
theorem leafTruth_eq (h : floatPredicate schema e = some p) (row : FloatRow) :
    leafTruth schema row e = some (p.truth Comparison.total row) := by
  unfold floatPredicate at h
  split at h
  · simp only [Option.bind_eq_bind, Option.bind_eq_some_iff] at h
    obtain ⟨c, hc, h⟩ := h
    split at h
    · rename_i column hcolumn
      obtain ⟨y, hy, h⟩ := Option.bind_eq_some_iff.mp h
      cases h
      simp [leafTruth, hc, operand_column hcolumn, operand_literal hy, operandsTruth_literal,
        FloatPredicate.truth]
    · simp only [Option.bind_eq_some_iff] at h
      obtain ⟨column, hcolumn, y, hy, h⟩ := h
      cases h
      simp [leafTruth, hc, operand_column hcolumn, operand_literal hy, operandsTruth_mirror,
        FloatPredicate.truth]
  · obtain ⟨column, hcolumn, h⟩ := Option.bind_eq_some_iff.mp h
    cases h
    simp [leafTruth, operand_column hcolumn, FloatPredicate.truth]
  · obtain ⟨column, hcolumn, h⟩ := Option.bind_eq_some_iff.mp h
    cases h
    simp [leafTruth, operand_column hcolumn, FloatPredicate.truth]
  · split at h
    · cases h
    · simp only [Option.bind_eq_bind, Option.bind_eq_some_iff] at h
      obtain ⟨column, hcolumn, ys, hys, h⟩ := h
      cases h
      simp [leafTruth, operand_column hcolumn, hys, FloatPredicate.truth]
  · simp only [Option.bind_eq_bind, Option.bind_eq_some_iff] at h
    obtain ⟨column, hcolumn, low, hlow, high, hhigh, h⟩ := h
    cases h
    simp only [leafTruth, operand_column hcolumn, operand_literal hlow, operand_literal hhigh,
      FloatPredicate.truth, ← range_truth]
    rfl
  · cases h

-- ---------------------------------------------------------------------------
-- The evaluation of the service
-- ---------------------------------------------------------------------------

section
variable (reader : Value → Option Float64) (foreignTruth : φ → Truth) (row : FloatRow)

def readNumber (value : Value) : Float64 := (reader value).getD .nan

/-- The truth of a predicate over FLOAT64 columns, in the IEEE order. -/
def predicateTruth : Predicate φ → Truth
  | .compare column c value => valueTruth (c.ieee · (readNumber reader value)) (row column)
  | .isNull column => .ofBool (row column).isNone
  | .isNotNull column => .ofBool (row column).isSome
  | .inList column negated values =>
    valueTruth (inListTruth Comparison.ieee negated (values.map (readNumber reader))) (row column)
  | .between column negated low high =>
    valueTruth (betweenTruth Comparison.ieee negated (readNumber reader low) (readNumber reader high))
      (row column)
  | .foreign p => foreignTruth p

def predicateValues : Predicate φ → List Value
  | .compare _ _ value => [value]
  | .inList _ _ values => values
  | .between _ _ low high => [low, high]
  | _ => []

/-- The service selects the row: it can read all literals of the text, and
what the text denotes is true. -/
def Selects (foreign : Foreign φ) (text : Text) : Prop :=
  ∃ c, Denotes foreign text c ∧
    (∀ p ∈ c.leaves, ∀ value ∈ predicateValues p, (reader value).isSome) ∧
    c.eval (predicateTruth reader foreignTruth row) = .holds

end

/-- The service reads the text of a float as that number, or not at all. -/
def ReadsFloats (fmt : Formatting) (reader : Value → Option Float64) : Prop :=
  ∀ y, y.isFinite = true → ∀ w, reader (.ofNumeral (fmt.float64 y)) = some w → w.SameNumber y

namespace FloatPredicate

def sql (fmt : Formatting) : FloatPredicate → Predicate φ
  | .compare column c y => .compare column c (.ofNumeral (fmt.float64 y))
  | .isNull column => .isNull column
  | .isNotNull column => .isNotNull column
  | .inList column negated ys => .inList column negated (ys.map fun y => .ofNumeral (fmt.float64 y))
  | .between column negated low high =>
    .between column negated (.ofNumeral (fmt.float64 low)) (.ofNumeral (fmt.float64 high))

def Readable (fmt : Formatting) (reader : Value → Option Float64) (p : FloatPredicate) : Prop :=
  ∀ y ∈ p.literals, (reader (.ofNumeral (fmt.float64 y))).isSome

def Missing (row : FloatRow) : FloatPredicate → Prop
  | .isNull _ | .isNotNull _ => False
  | .compare column _ _ | .inList column _ _ | .between column _ _ _ => row column = none

theorem truth_unknown {p : FloatPredicate} : p.truth order row = .unknown ↔ p.Missing row := by
  cases p with
  | isNull column | isNotNull column => simp [truth, Missing]
  | compare column c y => cases h : row column <;> simp [truth, Missing, valueTruth, h]
  | inList column negated ys => cases h : row column <;> simp [truth, Missing, valueTruth, h]
  | between column negated low high =>
    cases h : row column <;> simp [truth, Missing, valueTruth, h]

theorem predicateValues_sql {p : FloatPredicate} :
    predicateValues (p.sql fmt : Predicate φ) =
      p.literals.map fun y => .ofNumeral (fmt.float64 y) := by
  cases p <;> rfl

theorem readNumber_same (hread : ReadsFloats fmt reader) (hy : y.isFinite = true)
    (h : (reader (.ofNumeral (fmt.float64 y))).isSome) :
    (readNumber reader (.ofNumeral (fmt.float64 y))).SameNumber y := by
  obtain ⟨w, hw⟩ := Option.isSome_iff_exists.mp h
  rw [readNumber, hw]
  exact hread y hy w hw

theorem predicateTruth_sql {p : FloatPredicate} (hread : ReadsFloats fmt reader)
    (hfinite : ∀ y ∈ p.literals, y.isFinite = true) (h : p.Readable fmt reader) :
    predicateTruth reader foreignTruth row (p.sql fmt) = p.truth Comparison.ieee row := by
  have hsame : ∀ y ∈ p.literals, ∀ c x,
      Comparison.ieee c x (readNumber reader (.ofNumeral (fmt.float64 y))) = c.ieee x y :=
    fun y hy c x => (readNumber_same hread (hfinite y hy) (h y hy)).ieee
  cases p with
  | compare column c y =>
    simp only [sql, predicateTruth, truth, hsame y (by simp [literals])]
  | isNull column | isNotNull column => rfl
  | inList column negated ys =>
    have hlist : inListTruth Comparison.ieee negated
        ((ys.map fun y => Value.ofNumeral (fmt.float64 y)).map (readNumber reader)) =
        inListTruth Comparison.ieee negated ys := by
      funext x
      rw [inListTruth, inListTruth, List.any_map, List.any_map]
      congr 1
      rw [Bool.eq_iff_iff, List.any_eq_true, List.any_eq_true]
      refine exists_congr fun y => and_congr_right fun hy => ?_
      simp only [Function.comp_apply, hsame y hy]
    simp only [sql, predicateTruth, truth, hlist]
  | between column negated low high =>
    have hrange : betweenTruth Comparison.ieee negated
        (readNumber reader (.ofNumeral (fmt.float64 low)))
        (readNumber reader (.ofNumeral (fmt.float64 high))) =
        betweenTruth Comparison.ieee negated low high := by
      funext x
      simp only [betweenTruth, hsame low (by simp [literals]), hsame high (by simp [literals])]
    simp only [sql, predicateTruth, truth, hrange]

end FloatPredicate

theorem floatColumn_eq_some (h : floatColumn schema e = some column) :
    ∃ resolved, resolveColumn schema e = some resolved ∧ resolved.dataType = .float64 ∧
      columnNames resolved = column := by
  obtain ⟨resolved, hresolved, h⟩ := Option.bind_eq_some_iff.mp h
  split at h <;> cases h
  exact ⟨resolved, hresolved, ‹_›, rfl⟩

theorem literal_float (fmt : Formatting) (h : floatLiteral e = some y) :
    literal fmt e .float64 = some (fmt.float64 y) ∧
      literalValue fmt e .float64 = some (.ofNumeral (fmt.float64 y)) := by
  obtain ⟨rfl, hfinite⟩ := floatLiteral_eq_some.mp h
  simp [literal, literalValue, hfinite]

theorem literals_float (fmt : Formatting) {list : List Expr} (h : list.mapM floatLiteral = some ys) :
    list.mapM (fun value => literal fmt value .float64) = some (ys.map fmt.float64) ∧
      list.mapM (fun value => literalValue fmt value .float64) =
        some (ys.map fun y => .ofNumeral (fmt.float64 y)) := by
  simp only [Lists.mapM_eq_some_iff_forall₂, List.forall₂_map_right_iff] at h ⊢
  exact ⟨h.imp fun _ _ h => (literal_float fmt h).1, h.imp fun _ _ h => (literal_float fmt h).2⟩

theorem comparison_symbols (h : comparisonOf op = some c) :
    (∃ symbol, comparisonSymbol op = some symbol) ∧
      ∃ op' symbol, reverseComparison op = some op' ∧ comparisonSymbol op' = some symbol := by
  cases op <;> cases h <;> exact ⟨⟨_, rfl⟩, _, _, rfl, rfl⟩

/-- Comparisons, lists, ranges and tests for `NULL` over a FLOAT64 column and
finite literals are translated, as the predicates they are. -/
theorem float_translated (fmt : Formatting) (h : floatPredicate schema e = some p) :
    (translateLeaf fmt schema e).isSome ∧
      leafPredicate fmt schema e = some (p.sql fmt : Predicate φ) := by
  unfold floatPredicate at h
  split at h
  · simp only [Option.bind_eq_bind, Option.bind_eq_some_iff] at h
    obtain ⟨c, hc, h⟩ := h
    obtain ⟨⟨symbol, hsymbol⟩, op', symbol', hop', hsymbol'⟩ := comparison_symbols hc
    split at h
    · rename_i column hcolumn
      obtain ⟨y, hy, h⟩ := Option.bind_eq_some_iff.mp h
      cases h
      obtain ⟨resolved, hresolved, htype, rfl⟩ := floatColumn_eq_some hcolumn
      obtain ⟨htext, hvalue⟩ := literal_float fmt hy
      simp [translateLeaf, translateComparison, leafPredicate, hsymbol, hc, hresolved, htype, htext,
        hvalue, FloatPredicate.sql]
    · simp only [Option.bind_eq_some_iff] at h
      obtain ⟨column, hcolumn, y, hy, h⟩ := h
      cases h
      obtain ⟨resolved, hresolved, htype, rfl⟩ := floatColumn_eq_some hcolumn
      obtain ⟨htext, hvalue⟩ := literal_float fmt hy
      obtain ⟨rfl, -⟩ := floatLiteral_eq_some.mp hy
      have hnone : resolveColumn schema (.literal (.float64 (some y))) = none := rfl
      simp [translateLeaf, translateComparison, leafPredicate, hsymbol, hop', hsymbol', hc, hnone,
        hresolved, htype, htext, hvalue, FloatPredicate.sql]
  · obtain ⟨column, hcolumn, h⟩ := Option.bind_eq_some_iff.mp h
    cases h
    obtain ⟨resolved, hresolved, -, rfl⟩ := floatColumn_eq_some hcolumn
    simp [translateLeaf, leafPredicate, hresolved, FloatPredicate.sql]
  · obtain ⟨column, hcolumn, h⟩ := Option.bind_eq_some_iff.mp h
    cases h
    obtain ⟨resolved, hresolved, -, rfl⟩ := floatColumn_eq_some hcolumn
    simp [translateLeaf, leafPredicate, hresolved, FloatPredicate.sql]
  · split at h
    · cases h
    · rename_i hne
      simp only [Option.bind_eq_bind, Option.bind_eq_some_iff] at h
      obtain ⟨column, hcolumn, ys, hys, h⟩ := h
      cases h
      obtain ⟨resolved, hresolved, htype, rfl⟩ := floatColumn_eq_some hcolumn
      obtain ⟨htexts, hvalues⟩ := literals_float fmt hys
      simp [translateLeaf, leafPredicate, hne, hresolved, htype, htexts, hvalues,
        FloatPredicate.sql]
  · simp only [Option.bind_eq_bind, Option.bind_eq_some_iff] at h
    obtain ⟨column, hcolumn, low, hlow, high, hhigh, h⟩ := h
    cases h
    obtain ⟨resolved, hresolved, htype, rfl⟩ := floatColumn_eq_some hcolumn
    obtain ⟨hlowtext, hlowvalue⟩ := literal_float fmt hlow
    obtain ⟨hhightext, hhighvalue⟩ := literal_float fmt hhigh
    simp [translateLeaf, leafPredicate, hresolved, htype, hlowtext, hlowvalue, hhightext,
      hhighvalue, FloatPredicate.sql]
  · cases h

-- ---------------------------------------------------------------------------
-- Filters
-- ---------------------------------------------------------------------------

/-- Every leaf is a predicate over a FLOAT64 column and finite literals. -/
def FloatFilter (schema : SessionSchema) (e : Expr) : Prop :=
  ∀ leaf ∈ (condition e).leaves, (floatPredicate schema leaf).isSome

def orderTruth (order : FloatOrder) (schema : SessionSchema) (row : FloatRow) (leaf : Expr) :
    Truth := ((floatPredicate schema leaf).map (·.truth order row)).getD .unknown

theorem dataFusionTruth_eq (h : FloatFilter schema e) (row : FloatRow) :
    dataFusionTruth schema row e =
      (condition e).eval (orderTruth Comparison.total schema row) := by
  refine Condition.eval_congr fun leaf hleaf => ?_
  obtain ⟨p, hp⟩ := Option.isSome_iff_exists.mp (h leaf hleaf)
  rw [leafTruth_eq hp, orderTruth, hp]
  rfl

def ReadableFilter (fmt : Formatting) (reader : Value → Option Float64) (schema : SessionSchema)
    (e : Expr) : Prop :=
  ∀ leaf ∈ (condition e).leaves, ∀ p, floatPredicate schema leaf = some p → p.Readable fmt reader

/-- A filter over floats is pushed down, and its restriction selects the rows
on which the service can read it and it is true in the IEEE order. -/
theorem translate_selects (foreign : Foreign φ) (foreignTruth : φ → Truth) (row : FloatRow) (hfmt : Lawful fmt)
    (hread : ReadsFloats fmt reader) (h : FloatFilter schema e) :
    ∃ text, translate fmt schema e = some text ∧
      (Selects reader foreignTruth row foreign text ↔ ReadableFilter fmt reader schema e ∧
        (condition e).eval (orderTruth Comparison.ieee schema row) = .holds) := by
  have hsome : ∃ text, translate fmt schema e = some text := by
    rw [← Option.isSome_iff_exists, Option.isSome_iff_ne_none, Ne, translate_eq_none]
    rintro ⟨leaf, hleaf, hnone⟩
    obtain ⟨p, hp⟩ := Option.isSome_iff_exists.mp (h leaf hleaf)
    have := (float_translated (φ := φ) fmt hp).1
    simp [hnone] at this
  obtain ⟨text, htext⟩ := hsome
  obtain ⟨c, hc, hunary⟩ := translate_unary foreign hfmt htext
  have hvalues : (∀ P ∈ c.leaves, ∀ value ∈ predicateValues P, (reader value).isSome) ↔
      ReadableFilter fmt reader schema e := by
    simp only [Condition.mem_leaves_traverse hc]
    constructor
    · intro hall leaf hleaf p hp y hy
      refine hall (p.sql fmt) ⟨leaf, hleaf, (float_translated fmt hp).2⟩ _ ?_
      rw [FloatPredicate.predicateValues_sql]
      exact List.mem_map_of_mem hy
    · rintro hall P ⟨leaf, hleaf, hP⟩ value hvalue
      obtain ⟨p, hp⟩ := Option.isSome_iff_exists.mp (h leaf hleaf)
      cases (float_translated fmt hp).2.symm.trans hP
      rw [FloatPredicate.predicateValues_sql] at hvalue
      obtain ⟨y, hy, rfl⟩ := List.mem_map.mp hvalue
      exact hall leaf hleaf p hp y hy
  have heval (hreadable : ReadableFilter fmt reader schema e) :
      c.eval (predicateTruth reader foreignTruth row) =
        (condition e).eval (orderTruth Comparison.ieee schema row) := by
    refine Condition.traverse_eval hc fun leaf hleaf P hP => ?_
    obtain ⟨p, hp⟩ := Option.isSome_iff_exists.mp (h leaf hleaf)
    cases (float_translated fmt hp).2.symm.trans hP
    rw [FloatPredicate.predicateTruth_sql hread (literals_finite hp) (hreadable leaf hleaf p hp),
      orderTruth, hp]
    rfl
  refine ⟨text, htext, ?_, ?_⟩
  · rintro ⟨c', hdenotes, hread', htrue⟩
    cases hdenotes.unique hunary.denotes
    have hreadable := hvalues.mp hread'
    exact ⟨hreadable, heval hreadable ▸ htrue⟩
  · rintro ⟨hreadable, htrue⟩
    exact ⟨c, hunary.denotes, hvalues.mpr hreadable, (heval hreadable).trans htrue⟩

/-- Dropping the filter for its restriction keeps the row or drops it, as the
filter would, if the filter is pushed down as exact. -/
def PushedExactly (fmt : Formatting) (reader : Value → Option Float64) (foreign : Foreign φ)
    (foreignTruth : φ → Truth) (schema : SessionSchema) (row : FloatRow) (e : Expr) : Prop :=
  support fmt schema e = .exact → ∃ text, translate fmt schema e = some text ∧
    (Selects reader foreignTruth row foreign text ↔ dataFusionTruth schema row e = .holds)

theorem condition_leaf (h : floatPredicate schema e = some p) : condition e = .leaf e := by
  unfold condition
  split
  · cases h
  · cases h
  · cases h
  · rfl

theorem known_filter (h : floatPredicate schema leaf = some p)
    (hknown : p.truth order row ≠ .unknown) :
    ∃ e, (condition e).leaves = [leaf] ∧
      (condition e).eval (orderTruth order schema row) = .holds ∧
      ∀ t, (condition e).eval t = .holds → t leaf = p.truth order row := by
  have htruth : orderTruth order schema row leaf = p.truth order row := by rw [orderTruth, h]; rfl
  cases hp : p.truth order row with
  | unknown => exact absurd hp hknown
  | holds =>
    refine ⟨leaf, ?_⟩
    rw [condition_leaf h]
    exact ⟨rfl, htruth.trans hp, fun _ ht => ht⟩
  | fails =>
    refine ⟨.not leaf, ?_⟩
    rw [condition, condition_leaf h]
    refine ⟨rfl, by simp [Condition.eval, htruth, hp, Truth.not], fun t ht => ?_⟩
    simp only [Condition.eval] at ht
    cases hleaf : t leaf <;> simp [hleaf, Truth.not] at ht ⊢

section
variable {foreign : Foreign φ} {foreignTruth : φ → Truth}

theorem pushedExactly_iff (hfmt : Lawful fmt) (hread : ReadsFloats fmt reader)
    (h : FloatFilter schema e) :
    PushedExactly fmt reader foreign foreignTruth schema row e ↔
      (ReadableFilter fmt reader schema e ∧
        (condition e).eval (orderTruth Comparison.ieee schema row) = .holds ↔
        (condition e).eval (orderTruth Comparison.total schema row) = .holds) := by
  obtain ⟨text, htext, hselects⟩ := translate_selects foreign foreignTruth row hfmt hread h
  rw [← hselects, ← dataFusionTruth_eq h]
  constructor
  · intro hpushed
    obtain ⟨text', htext', hiff⟩ := hpushed (by simp [support, htext])
    cases htext.symm.trans htext'
    exact hiff
  · exact fun hiff _ => ⟨text, htext, hiff⟩

/-- The filters over a set of leaves are pushed down exactly on a row if and
only if none of the leaves compares NaN or a zero as `Diverges` says, and the
service can read all literals or all leaves compare a missing value. -/
theorem float_pushdown_exact_iff (hfmt : Lawful fmt) (hread : ReadsFloats fmt reader)
    (L : Expr → Prop) (hL : ∀ leaf, L leaf → (floatPredicate schema leaf).isSome) :
    (∀ e, (∀ leaf ∈ (condition e).leaves, L leaf) →
      PushedExactly fmt reader foreign foreignTruth schema row e) ↔
    (∀ leaf, L leaf → ∀ p, floatPredicate schema leaf = some p → ¬p.Diverges row) ∧
      ((∀ leaf, L leaf → ∀ p, floatPredicate schema leaf = some p → p.Readable fmt reader) ∨
        ∀ leaf, L leaf → ∀ p, floatPredicate schema leaf = some p → p.Missing row) := by
  have hfilter : ∀ e, (∀ leaf ∈ (condition e).leaves, L leaf) → FloatFilter schema e :=
    fun e he leaf hleaf => hL leaf (he leaf hleaf)
  constructor
  · intro hexact
    refine ⟨fun leaf hleaf p hp hdiverges => ?_, ?_⟩
    · have hne := (FloatPredicate.diverges_iff (literals_finite hp)).mp hdiverges
      have hknown : p.truth Comparison.total row ≠ .unknown := by
        intro hunknown
        have hmissing := FloatPredicate.truth_unknown.mp hunknown
        exact hne (hunknown.trans (FloatPredicate.truth_unknown.mpr hmissing).symm)
      obtain ⟨e, hleaves, htrue, honly⟩ := known_filter hp hknown
      have he : ∀ l ∈ (condition e).leaves, L l := by simpa [hleaves] using hleaf
      have hiff := (pushedExactly_iff hfmt hread (hfilter e he)).mp (hexact e he)
      have hieee := honly _ (hiff.mpr htrue).2
      rw [orderTruth, hp] at hieee
      exact hne hieee.symm
    · by_contra hneither
      rw [not_or] at hneither
      obtain ⟨hunreadable, hpresent⟩ := hneither
      push Not at hunreadable hpresent
      obtain ⟨bad, hbad, pbad, hpbad, hunreadable⟩ := hunreadable
      obtain ⟨leaf, hleaf, p, hp, hpresent⟩ := hpresent
      have hknown : p.truth Comparison.total row ≠ .unknown := FloatPredicate.truth_unknown.not.mpr hpresent
      obtain ⟨e, hleaves, htrue, -⟩ := known_filter hp hknown
      have hcondition : condition (.binaryExpr e .or bad) = .or (condition e) (.leaf bad) := by
        rw [condition, condition_leaf hpbad]
      have he : ∀ l ∈ (condition (.binaryExpr e .or bad)).leaves, L l := by
        simp [hcondition, Condition.leaves, hleaves, hleaf, hbad]
      have hiff := (pushedExactly_iff hfmt hread (hfilter _ he)).mp (hexact _ he)
      have htrue' : (condition (.binaryExpr e .or bad)).eval
          (orderTruth Comparison.total schema row) = .holds := by
        rw [hcondition, Condition.eval, htrue, Truth.or]
      refine hunreadable ((hiff.mpr htrue').1 bad ?_ pbad hpbad)
      simp [hcondition, Condition.leaves]
  · rintro ⟨hsame, hread'⟩ e he
    rw [pushedExactly_iff hfmt hread (hfilter e he)]
    have heval : (condition e).eval (orderTruth Comparison.ieee schema row) =
        (condition e).eval (orderTruth Comparison.total schema row) := by
      refine Condition.eval_congr fun leaf hleaf => ?_
      obtain ⟨p, hp⟩ := Option.isSome_iff_exists.mp (hL leaf (he leaf hleaf))
      have heq := (FloatPredicate.diverges_iff (literals_finite hp)).not.mp
        (hsame leaf (he leaf hleaf) p hp)
      rw [orderTruth, orderTruth, hp]
      exact (not_not.mp heq).symm
    rcases hread' with hreadable | hmissing
    · rw [heval]
      exact and_iff_right fun leaf hleaf => hreadable leaf (he leaf hleaf)
    · have hunknown : (condition e).eval (orderTruth Comparison.total schema row) = .unknown := by
        refine Condition.eval_unknown fun leaf hleaf => ?_
        obtain ⟨p, hp⟩ := Option.isSome_iff_exists.mp (hL leaf (he leaf hleaf))
        rw [orderTruth, hp]
        exact FloatPredicate.truth_unknown.mpr (hmissing leaf (he leaf hleaf) p hp)
      rw [heval, hunknown]
      simp

end

def one : Float64 := .number false ⟨0x3FF0000000000000, by decide⟩

def unitFormatting : Formatting :=
  { epochFormatting with float64 := fun x => if x = one then "1".toList else "0".toList }

def unitReader (value : Value) : Option Float64 :=
  if value = .number false "1".toList then some one else none

theorem unitFormatting_lawful : Lawful unitFormatting where
  float64 x _ := by
    by_cases hx : x = one
    · exact ⟨['1'], isNumeral_digit rfl, .inl (if_pos hx)⟩
    · exact ⟨['0'], isNumeral_digit rfl, .inl (if_neg hx)⟩
  date := epochFormatting_lawful.date
  time h := nomatch h
  moment h := nomatch h

theorem unitReader_reads : ReadsFloats unitFormatting unitReader := by
  intro y _ w hw
  by_cases hy : y = one
  · subst hy
    have hone : unitReader (.ofNumeral (unitFormatting.float64 one)) = some one := by decide
    cases hone.symm.trans hw
    rfl
  · have hnone : unitReader (.ofNumeral (unitFormatting.float64 y)) = none := by
      have htext : unitFormatting.float64 y = "0".toList := if_neg hy
      rw [htext]
      decide
    cases hnone.symm.trans hw

def ratioSchema : SessionSchema := ⟨[.mk "ratio" .float64 true], fun _ => []⟩

def ratioAboveOne : Expr :=
  .binaryExpr (.column none "ratio") .gt (.literal (.float64 (some one)))

def ratioPredicate : FloatPredicate := .compare ["ratio".toList] .gt one

theorem ratioAboveOne_predicate : floatPredicate ratioSchema ratioAboveOne = some ratioPredicate :=
  rfl

theorem float_pushdown_exact_iff_one :
    PushedExactly unitFormatting unitReader (fun _ => none : Foreign Empty) nofun ratioSchema
      (fun _ => some one) ratioAboveOne := by
  refine (float_pushdown_exact_iff unitFormatting_lawful unitReader_reads (· = ratioAboveOne) ?_).mpr
    ⟨?_, .inl ?_⟩ ratioAboveOne ?_
  · rintro leaf rfl
    rfl
  · rintro leaf rfl p hp
    cases ratioAboveOne_predicate.symm.trans hp
    rintro ⟨x, hx, hdiverges⟩
    cases hx
    revert hdiverges
    decide
  · rintro leaf rfl p hp
    cases ratioAboveOne_predicate.symm.trans hp
    intro y hy
    cases List.mem_singleton.mp hy
    decide
  · simp [condition_leaf ratioAboveOne_predicate, Condition.leaves]

/-- On NaN, DataFusion keeps `ratio > 1.0` and the service drops it. -/
theorem nan_dropped :
    Lawful unitFormatting ∧ ReadsFloats unitFormatting unitReader ∧
      ¬PushedExactly unitFormatting unitReader (fun _ => none : Foreign Empty) nofun ratioSchema
        (fun _ => some .nan) ratioAboveOne := by
  refine ⟨unitFormatting_lawful, unitReader_reads, fun h => ?_⟩
  have hfilter : FloatFilter ratioSchema ratioAboveOne := by
    intro leaf hleaf
    rw [condition_leaf ratioAboveOne_predicate] at hleaf
    cases List.mem_singleton.mp hleaf
    rfl
  have hiff := (pushedExactly_iff unitFormatting_lawful unitReader_reads hfilter).mp h
  rw [condition_leaf ratioAboveOne_predicate] at hiff
  have htrue : orderTruth Comparison.total ratioSchema (fun _ => some .nan) ratioAboveOne =
      .holds := by decide
  have hfalse := (hiff.mpr htrue).2
  revert hfalse
  decide

end SilkChiffon.GoogleSql
