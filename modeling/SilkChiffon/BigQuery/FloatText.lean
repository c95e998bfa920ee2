import SilkChiffon.BigQuery.DecimalText
import SilkChiffon.BigQuery.TemporalText
import SilkChiffon.Lib.FloatValues

/-!
# FLOAT64 literals

A float is printed by position with the fewest digits that are rounded to it,
and without a point if it is an integer. Without a point the digits are an INT64
literal, so they have to be in range and stand for no other integer.
-/

namespace SilkChiffon.GoogleSql

open Pushdown Float64

-- ---------------------------------------------------------------------------
-- Number literals
-- ---------------------------------------------------------------------------

def readNumeral (text : Text) : Option Text :=
  match readValue text with
  | some (.number negative digits) => some (if negative then '-' :: digits else digits)
  | _ => none

def InInt64 (q : ℚ) : Prop := -9223372036854775808 ≤ q ∧ q < 9223372036854775808

def IsIntegerLiteral (numeral : Text) (q : ℚ) : Prop :=
  IsDecimal 0 numeral ∧ decimalValue numeral = q ∧ InInt64 q

def IsFloatLiteral (numeral : Text) (x : Float64) : Prop :=
  (∃ scale, scale ≠ 0 ∧ IsDecimal scale numeral) ∧ IsNearest (decimalValue numeral) x

/-- The text is a literal for exactly this number. Numerals with an exponent
and hexadecimal ones are not read. -/
def DenotesNumber (text : Text) (q : ℚ) : Prop :=
  ∃ numeral, readNumeral text = some numeral ∧
    (IsIntegerLiteral numeral q ∨ ∃ x, IsFloatLiteral numeral x ∧ x.value = q)

/-- The text is a literal, and this float once it is converted to FLOAT64. -/
def ConvertsTo (text : Text) (x : Float64) : Prop :=
  ∃ numeral, readNumeral text = some numeral ∧
    ((∃ n, IsIntegerLiteral numeral n ∧ IsNearest n x) ∨ IsFloatLiteral numeral x)

theorem isDecimal_signed (h : IsDecimal scale text) : IsSigned text := by
  obtain ⟨sign, whole, fraction, hsign, hwhole, hdigits, hlength, rfl⟩ := h
  have hnumeral : IsNumeral (whole ++ if scale = 0 then [] else '.' :: fraction) := by
    obtain ⟨first, rest, rfl⟩ := List.exists_cons_of_ne_nil hwhole
    refine ⟨⟨first, rfl, hdigits first (by simp)⟩, fun c hc => ?_⟩
    rcases List.mem_append.mp hc with hc | hc
    · exact .inl (hdigits c (List.mem_append_left _ hc))
    · split at hc
      · cases hc
      · rcases List.mem_cons.mp hc with rfl | hc
        · exact .inr rfl
        · exact .inl (hdigits c (List.mem_append_right _ hc))
  rcases hsign with rfl | rfl
  · exact ⟨_, hnumeral, .inl (by simp)⟩
  · exact ⟨_, hnumeral, .inr (by simp)⟩

theorem readNumeral_ok (h : IsSigned text) : readNumeral text = some text := by
  have hread := readValue_ok h.reads
  obtain ⟨digits, ⟨⟨first, hfirst, hdigit⟩, -⟩, hcases⟩ := h
  have hminus : ∀ rest, digits ≠ '-' :: rest := by
    rintro rest rfl
    cases hfirst
    cases hdigit
  rcases hcases with rfl | rfl
  · have hvalue : Value.ofNumeral text = .number false text := by
      unfold Value.ofNumeral
      split
      · exact absurd rfl (hminus _)
      · rfl
    rw [hvalue] at hread
    simp [readNumeral, hread]
  · simp [readNumeral, hread, Value.ofNumeral]

theorem isDecimal_scale (h : IsDecimal scale text) (h' : IsDecimal scale' text) :
    scale = 0 ↔ scale' = 0 := by
  have hpoint {scale} (h : IsDecimal scale text) : '.' ∈ text ↔ scale ≠ 0 := by
    obtain ⟨sign, whole, fraction, hsign, -, hdigits, -, rfl⟩ := h
    have hplain : '.' ∉ sign ++ whole := by
      intro hc
      rcases List.mem_append.mp hc with hc | hc
      · rcases hsign with rfl | rfl <;> simp at hc
      · cases hdigits '.' (List.mem_append_left _ hc)
    rw [List.mem_append, or_iff_right hplain]
    split <;> simp_all
  rw [← not_iff_not]
  exact (hpoint h).symm.trans (hpoint h')

-- ---------------------------------------------------------------------------
-- Printing
-- ---------------------------------------------------------------------------

/-- How Rust prints a finite float: by position, without a point exactly if it
is an integer, with as few significant digits as any number that is rounded to
it, and of these as close to it as possible. -/
structure PrintsShortest (text : Text) (x : Float64) : Prop where
  positional : ∃ scale, IsDecimal scale text ∧ (scale = 0 ↔ x.IsInteger)
  nearest : IsNearest (decimalValue text) x
  shortest : ∀ {q count}, IsNearest q x → HasDigits count q → HasDigits count (decimalValue text)
  closest : ∀ {q}, IsNearest q x → (∀ count, HasDigits count (decimalValue text) → HasDigits count q) →
    |decimalValue text - x.value| ≤ |q - x.value|

/-- No number with fewer significant digits is rounded to `x`. -/
def OwnDigits (x : Float64) : Prop :=
  ∀ q count, IsNearest q x → HasDigits count q → HasDigits count x.value

/-- Exactly the floats with their own digits are printed as what they are. -/
theorem PrintsShortest.value_iff (h : PrintsShortest text x) :
    decimalValue text = x.value ↔ OwnDigits x := by
  constructor
  · intro heq q count hq hcount
    exact heq ▸ h.shortest hq hcount
  · intro hown
    have hclosest := h.closest (isNearest_value h.nearest.1) fun count => hown _ count h.nearest
    rw [sub_self, abs_zero] at hclosest
    exact sub_eq_zero.mp (abs_nonpos_iff.mp hclosest)

theorem PrintsShortest.inInt64_iff (h : PrintsShortest text x) :
    InInt64 (decimalValue text) ↔ |x.value| < 9223372036854775808 := by
  have hlimit : integerLimit ≠ .nan := by simp [integerLimit]
  have hneg := h.nearest.neg
  rw [abs_lt, InInt64, ← integerLimit_value]
  constructor
  · rintro ⟨hlow, hhigh⟩
    constructor
    · by_contra hle
      have hle' : integerLimit.value ≤ x.neg.value := by rw [value_neg]; linarith
      rcases hle'.lt_or_eq with hlt | heq
      · have := hneg.gt hlimit hlt
        linarith [integerLimit_value]
      · have hdigits := (h.shortest (by simpa using (isNearest_limit heq.symm hneg.1).neg)
          hasDigits_limit.neg).neg
        have := hneg.limit_lt heq.symm hdigits
        linarith [integerLimit_value]
    · by_contra hle
      rcases (not_lt.mp hle).lt_or_eq with hlt | heq
      · have := h.nearest.gt hlimit hlt
        linarith
      · have hdigits := h.shortest (isNearest_limit heq.symm h.nearest.1) hasDigits_limit
        have := h.nearest.limit_lt heq.symm hdigits
        linarith
  · rintro ⟨hlow, hhigh⟩
    have hlow' := hneg.lt hlimit (by rw [value_neg]; linarith)
    exact ⟨by linarith [integerLimit_value], h.nearest.lt hlimit hhigh⟩

theorem literal_float64 (hx : x.isFinite = true) :
    literal fmt (.literal (.float64 (some x))) .float64 = some (fmt.float64 x) := by
  simp [literal, hx]

/-- A float is printed as itself unless it is an integer out of range or one
that shares its digits with a shorter one. -/
theorem PrintsShortest.denotes_iff (h : PrintsShortest text x) :
    DenotesNumber text x.value ↔ (x.IsInteger → InInt64 x.value ∧ OwnDigits x) := by
  obtain ⟨scale, hdecimal, hinteger⟩ := h.positional
  have hread := readNumeral_ok (isDecimal_signed hdecimal)
  constructor
  · rintro ⟨numeral, hnumeral, hliteral⟩ hx
    obtain rfl := Option.some.inj (hread.symm.trans hnumeral)
    have hscale := hinteger.mpr hx
    rcases hliteral with ⟨-, heq, hrange⟩ | ⟨y, ⟨⟨scale', hne, hdecimal'⟩, -⟩, -⟩
    · exact ⟨hrange, h.value_iff.mp heq⟩
    · exact absurd ((isDecimal_scale hdecimal hdecimal').mp hscale) hne
  · intro hcondition
    refine ⟨text, hread, ?_⟩
    by_cases hscale : scale = 0
    · obtain ⟨hrange, hown⟩ := hcondition (hinteger.mp hscale)
      exact .inl ⟨hscale ▸ hdecimal, h.value_iff.mpr hown, hrange⟩
    · exact .inr ⟨x, ⟨⟨scale, hscale, hdecimal⟩, h.nearest⟩, rfl⟩

theorem PrintsShortest.convertsTo_iff (h : PrintsShortest text x) :
    ConvertsTo text x ↔ (x.IsInteger → |x.value| < 9223372036854775808) := by
  obtain ⟨scale, hdecimal, hinteger⟩ := h.positional
  have hread := readNumeral_ok (isDecimal_signed hdecimal)
  constructor
  · rintro ⟨numeral, hnumeral, hliteral⟩ hx
    obtain rfl := Option.some.inj (hread.symm.trans hnumeral)
    have hscale := hinteger.mpr hx
    rcases hliteral with ⟨n, ⟨-, heq, hrange⟩, -⟩ | ⟨⟨scale', hne, hdecimal'⟩, -⟩
    · exact h.inInt64_iff.mp (heq ▸ hrange)
    · exact absurd ((isDecimal_scale hdecimal hdecimal').mp hscale) hne
  · intro hcondition
    refine ⟨text, hread, ?_⟩
    by_cases hscale : scale = 0
    · have hrange := h.inInt64_iff.mpr (hcondition (hinteger.mp hscale))
      exact .inl ⟨_, ⟨hscale ▸ hdecimal, rfl, hrange⟩, h.nearest⟩
    · exact .inr ⟨⟨scale, hscale, hdecimal⟩, h.nearest⟩

-- ---------------------------------------------------------------------------
-- Literals
-- ---------------------------------------------------------------------------

/-- Dates are readable in the years GoogleSQL has and timestamps of nanoseconds
always; a float is the number it was printed for unless it is an integer that
INT64 does not hold or that shares its digits with a shorter one. -/
theorem literals_valid_iff (hfmt : fmt.Chrono) :
    (∀ days : Int32,
      (∀ text, literal fmt (.literal (.date32 (some days))) .date32 = some text →
        readTemporal text = some (.date days.toInt)) ↔
      (Represented days.toInt → Expressible days.toInt)) ∧
    (∀ (micros : Int64) (timezone literalTimezone : Option String),
      (∀ text, literal fmt (.literal (.timestampMicrosecond (some micros) literalTimezone))
          (.timestamp .microsecond timezone) = some text →
        readTemporal text = some (.moment timezone (micros.toInt * 1000))) ↔
      (equivalentTimezone timezone literalTimezone = true → zoneSupported timezone = true →
        Represented (micros.toInt * 1000 / dayNanos) → Expressible (micros.toInt * 1000 / dayNanos))) ∧
    (∀ (nanos : Int64) (timezone literalTimezone : Option String) (text : Text),
      literal fmt (.literal (.timestampNanosecond (some nanos) literalTimezone))
          (.timestamp .nanosecond timezone) = some text →
        readTemporal text = some (.moment timezone nanos.toInt)) ∧
    ∀ x, x.isFinite = true → PrintsShortest (fmt.float64 x) x →
      ((∀ text, literal fmt (.literal (.float64 (some x))) .float64 = some text →
        DenotesNumber text x.value) ↔ (x.IsInteger → InInt64 x.value ∧ OwnDigits x)) ∧
      ((∀ text, literal fmt (.literal (.float64 (some x))) .float64 = some text → ConvertsTo text x) ↔
        (x.IsInteger → |x.value| < 9223372036854775808)) := by
  refine ⟨date_literal_valid_iff hfmt, ?_, ?_, ?_⟩
  · intro micros timezone literalTimezone
    have hvalid := moment_literal_valid_iff hfmt ⟨micros.le_toInt, micros.toInt_lt⟩ (.inr rfl) timezone
    by_cases hzone : equivalentTimezone timezone literalTimezone = true
    · simpa only [literal, hzone, if_pos, forall_const] using hvalid
    · simp [literal, hzone]
  · intro nanos timezone literalTimezone text htext
    have hvalid := moment_literal_valid_iff hfmt ⟨nanos.le_toInt, nanos.toInt_lt⟩ (.inl rfl) timezone
    have hexpressible : Expressible (nanos.toInt * 1 / dayNanos) := by
      have hlow := nanos.le_toInt
      have hhigh := nanos.toInt_lt
      have hfirst : Calendar.newYear 1 = -719162 := rfl
      have hlast : Calendar.newYear 10000 = 2932897 := rfl
      unfold Expressible dayNanos
      omega
    simp only [literal] at htext
    split at htext
    · rw [← Int.mul_one nanos.toInt]
      exact hvalid.mpr (fun _ _ => hexpressible) text htext
    · cases htext
  · intro x hx hprint
    simp only [literal_float64 hx, Option.some.injEq, forall_eq']
    exact ⟨hprint.denotes_iff, hprint.convertsTo_iff⟩

def oneAndHalf : Float64 := .number false ⟨1023 * 2 ^ 52 + 2 ^ 51, by decide⟩

def chronoFormatting : Formatting where
  float64 x := if x = oneAndHalf then "1.5".toList else "0".toList
  date := chronoDate
  time _ _ := none
  moment := chronoMoment

theorem chronoFormatting_chrono : chronoFormatting.Chrono where
  date _ := rfl
  moment _ _ := rfl

theorem value_unit (hr : r < 2 ^ 52) (hbound : 1023 * 2 ^ 52 + r < infiniteMagnitude + 1) :
    (number false ⟨1023 * 2 ^ 52 + r, hbound⟩).value = (2 ^ 52 + r) / 2 ^ 52 := by
  have hunits := units_normal hr 1022
  simp only [Nat.reduceAdd] at hunits
  have hpow : (2 : ℚ) ^ 1022 ≠ 0 := pow_ne_zero _ (by norm_num)
  simp only [value, hunits, if_neg Bool.false_ne_true, one_mul]
  rw [Nat.cast_mul, Nat.cast_add, Nat.cast_pow, Nat.cast_pow, pow_add 2 1022 52, mul_comm, Nat.cast_ofNat,
    mul_div_mul_left _ _ hpow]

theorem oneAndHalf_value : oneAndHalf.value = 3 / 2 := (value_unit (by decide) (by decide)).trans (by norm_num)

/-- One digit is not enough for a number near it. -/
theorem oneAndHalf_digits (hq : IsNearest q oneAndHalf) (hdigits : HasDigits count q) : 2 ≤ count := by
  have hbelow := hq.gt (y := .number false ⟨1023 * 2 ^ 52 + 2 ^ 50, by decide⟩) (by simp) (by
    rw [value_unit (by decide) (by decide), oneAndHalf_value]
    norm_num)
  have habove := hq.lt (y := .number false ⟨1023 * 2 ^ 52 + (2 ^ 51 + 2 ^ 50), by decide⟩) (by simp) (by
    rw [value_unit (by decide) (by decide), oneAndHalf_value]
    norm_num)
  rw [value_unit (by decide) (by decide)] at hbelow habove
  norm_num at hbelow habove
  by_contra hfew
  obtain ⟨m, e, hm, rfl⟩ := hdigits
  have hm : |m| < 10 := hm.trans_le (pow_le_pow_right₀ (by norm_num) (by omega : count ≤ 1))
  have hm := abs_lt.mp hm
  rcases le_or_gt 0 e with he | he
  · obtain ⟨j, rfl⟩ := Int.eq_ofNat_of_zero_le he
    rw [zpow_natCast] at hbelow habove
    have hlow : (1 : ℚ) < (m * 10 ^ j : ℤ) := by push_cast; linarith
    have hhigh : ((m * 10 ^ j : ℤ) : ℚ) < 2 := by push_cast; linarith
    have hlow : 1 < m * 10 ^ j := by exact_mod_cast hlow
    have hhigh : m * 10 ^ j < 2 := by exact_mod_cast hhigh
    omega
  · have hpow : (10 : ℚ) ^ e ≤ 10 ^ (-1 : ℤ) := zpow_le_zpow_right₀ (by norm_num) (by omega)
    have hpos : (0 : ℚ) < 10 ^ e := zpow_pos (by norm_num) e
    have hm9 : (m : ℚ) ≤ 9 := by exact_mod_cast (by omega : m ≤ 9)
    have hsmall := mul_le_mul hm9 hpow hpos.le (by norm_num)
    norm_num at hsmall
    linarith

theorem printsShortest_oneAndHalf : PrintsShortest "1.5".toList oneAndHalf := by
  have htext : decimalValue "1.5".toList = oneAndHalf.value := by
    have hdigit : Nat.ofDigitChars 10 ['1', '5'] 0 = 15 := by decide
    rw [oneAndHalf_value]
    refine (unsignedValue_pointed (show ∀ c ∈ ['1'], c.isDigit = true by simp) ['5']).trans ?_
    simp only [List.cons_append, List.nil_append, hdigit]
    norm_num
  constructor
  · refine ⟨1, ⟨[], ['1'], ['5'], .inl rfl, by decide, by simp, rfl, rfl⟩, iff_of_false (by decide) ?_⟩
    rintro ⟨n, hn⟩
    rw [oneAndHalf_value, div_eq_iff (by norm_num)] at hn
    have hn : 3 = n * 2 := by exact_mod_cast hn
    omega
  · rw [htext]
    exact isNearest_value rfl
  · intro q count hq hdigits
    have hcount := oneAndHalf_digits hq hdigits
    refine ⟨15, -1, ?_, by rw [htext, oneAndHalf_value]; norm_num⟩
    exact lt_of_lt_of_le (by norm_num) (pow_le_pow_right₀ (by norm_num : (1 : ℤ) ≤ 10) hcount)
  · intro q _ _
    rw [htext, sub_self, abs_zero]
    exact abs_nonneg _

/-- The first day of 2024, its noon, and one and a half. -/
theorem literals_valid_iff_noon :
    ((∀ text, literal chronoFormatting (.literal (.date32 (some 19723))) .date32 = some text →
        readTemporal text = some (.date 19723)) ↔ (Represented 19723 → Expressible 19723)) ∧
    ((∀ text, literal chronoFormatting (.literal (.timestampMicrosecond (some 1704110400000000) (some "UTC")))
          (.timestamp .microsecond (some "UTC")) = some text →
        readTemporal text = some (.moment (some "UTC") (1704110400000000 * 1000))) ↔
      (equivalentTimezone (some "UTC") (some "UTC") = true → zoneSupported (some "UTC") = true →
        Represented (1704110400000000 * 1000 / dayNanos) → Expressible (1704110400000000 * 1000 / dayNanos))) ∧
    (∀ text, literal chronoFormatting (.literal (.timestampNanosecond (some 1704110400000000001) none))
          (.timestamp .nanosecond none) = some text →
        readTemporal text = some (.moment none 1704110400000000001)) ∧
    ((∀ text, literal chronoFormatting (.literal (.float64 (some oneAndHalf))) .float64 = some text →
        DenotesNumber text oneAndHalf.value) ↔
      (oneAndHalf.IsInteger → InInt64 oneAndHalf.value ∧ OwnDigits oneAndHalf)) ∧
    ((∀ text, literal chronoFormatting (.literal (.float64 (some oneAndHalf))) .float64 = some text →
        ConvertsTo text oneAndHalf) ↔ (oneAndHalf.IsInteger → |oneAndHalf.value| < 9223372036854775808)) :=
  have hvalid := literals_valid_iff chronoFormatting_chrono
  ⟨hvalid.1 19723, hvalid.2.1 1704110400000000 (some "UTC") (some "UTC"),
    hvalid.2.2.1 1704110400000000001 none none, hvalid.2.2.2 oneAndHalf rfl printsShortest_oneAndHalf⟩

/-- The day after 9999-12-31. -/
theorem five_digit_year_unreadable :
    ¬ ∀ (days : Int32) (text : Text),
      literal chronoFormatting (.literal (.date32 (some days))) .date32 = some text →
        readTemporal text = some (.date days.toInt) := by
  intro h
  have hread := h 2932897 "DATE '+10000-01-01'".toList (by decide)
  revert hread
  decide

end SilkChiffon.GoogleSql
