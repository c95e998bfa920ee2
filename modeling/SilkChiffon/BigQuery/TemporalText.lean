import Mathlib.Data.List.TakeWhile
import SilkChiffon.BigQuery.PushdownText
import SilkChiffon.Lib.Calendar

/-!
# Date and time literals

How chrono prints dates and moments, and how GoogleSQL reads them: four digits
for a year from 0001 to 9999. chrono knows far more years, so a literal is
unreadable on the days of the others.
-/

namespace SilkChiffon.Pushdown

open Calendar

-- ---------------------------------------------------------------------------
-- Printing
-- ---------------------------------------------------------------------------

def digitsOf : Nat → Nat → Text
  | 0, _ => []
  | width + 1, n => digitsOf width (n / 10) ++ [(n % 10).digitChar]

/-- Years that four digits do not hold are printed with a sign. -/
def yearText (year : Int) : Text :=
  if 0 ≤ year ∧ year ≤ 9999 then digitsOf 4 year.toNat
  else (if year < 0 then '-' else '+') ::
    if year.natAbs ≤ 9999 then digitsOf 4 year.natAbs else Nat.toDigits 10 year.natAbs

def dateText (date : Date) : Text :=
  yearText date.year ++ '-' :: (digitsOf 2 date.month ++ '-' :: digitsOf 2 date.day)

/-- `%.f`: no digits, three, six or nine. -/
def fractionText (nanos : Nat) : Text :=
  if nanos = 0 then []
  else if nanos % 1000000 = 0 then '.' :: digitsOf 3 (nanos / 1000000)
  else if nanos % 1000 = 0 then '.' :: digitsOf 6 (nanos / 1000)
  else '.' :: digitsOf 9 nanos

def clockText (second nanos : Nat) : Text :=
  digitsOf 2 (second / 3600) ++ ':' ::
    (digitsOf 2 (second / 60 % 60) ++ ':' :: (digitsOf 2 (second % 60) ++ fractionText nanos))

/-- A day in the years from -262143 to 262142, the only ones chrono has. -/
def Represented (day : Int) : Prop := newYear (-262143) ≤ day ∧ day < newYear 262143

instance : Decidable (Represented day) := by unfold Represented; infer_instance

def chronoDate (day : Int) : Option Text :=
  if Represented day then some (dateText (.ofNumber day)) else none

def chronoMoment (seconds : Int) (nanos : Nat) : Option Text :=
  (chronoDate (seconds / 86400)).map (· ++ ' ' :: clockText (seconds % 86400).toNat nanos)

/-- Dates and moments are printed as chrono prints them. -/
structure Formatting.Chrono (fmt : Formatting) : Prop where
  date : ∀ day, fmt.date day = chronoDate day
  moment : ∀ seconds nanos, fmt.moment seconds nanos = chronoMoment seconds nanos

@[simp] theorem length_digitsOf (width n : Nat) : (digitsOf width n).length = width := by
  induction width generalizing n with
  | zero => rfl
  | succ width ih => simp [digitsOf, ih]

theorem isDigit_digitsOf (width n : Nat) : ∀ c ∈ digitsOf width n, c.isDigit = true := by
  induction width generalizing n with
  | zero => nofun
  | succ width ih =>
    intro c hc
    rcases List.mem_append.mp hc with hc | hc
    · exact ih _ c hc
    · rw [List.mem_singleton.mp hc]
      rw [Nat.isDigit_digitChar]
      exact decide_eq_true (Nat.mod_lt _ (by decide))

theorem ofDigitChars_digitsOf (h : n < 10 ^ width) : Nat.ofDigitChars 10 (digitsOf width n) 0 = n := by
  induction width generalizing n with
  | zero => simp_all [digitsOf]
  | succ width ih =>
    rw [digitsOf, Nat.ofDigitChars_append, ih (by rw [Nat.pow_succ] at h; omega),
      Nat.ofDigitChars_cons_digitChar_of_lt_ten (Nat.mod_lt _ (by decide)), Nat.ofDigitChars_nil]
    omega

theorem fractionText_cases (nanos : Nat) :
    fractionText nanos = [] ∧ nanos = 0 ∨
    ∃ width scaled, fractionText nanos = '.' :: digitsOf width scaled ∧ (1 ≤ width ∧ width ≤ 9) ∧
      scaled * 10 ^ (9 - width) = nanos := by
  unfold fractionText
  split
  · exact .inl ⟨rfl, ‹_›⟩
  split
  · exact .inr ⟨3, _, rfl, by decide, by omega⟩
  split
  · exact .inr ⟨6, _, rfl, by decide, by omega⟩
  · exact .inr ⟨9, _, rfl, by decide, by omega⟩

def isDateCharacter (c : Char) : Bool := c.isDigit || c = '+' || c = '-'

def isClockCharacter (c : Char) : Bool := c.isDigit || c = ':' || c = '.'

theorem all_digitsOf (h : ∀ c, c.isDigit = true → p c = true) (width n : Nat) :
    (digitsOf width n).all p = true :=
  List.all_eq_true.mpr fun c hc => h c (isDigit_digitsOf width n c hc)

theorem isDateCharacter_digit (h : c.isDigit = true) : isDateCharacter c = true := by
  simp [isDateCharacter, h]

theorem isClockCharacter_digit (h : c.isDigit = true) : isClockCharacter c = true := by
  simp [isClockCharacter, h]

theorem all_yearText (year : Int) : (yearText year).all isDateCharacter = true := by
  unfold yearText
  split
  · exact all_digitsOf (fun _ => isDateCharacter_digit) 4 _
  have hsign : isDateCharacter (if year < 0 then '-' else '+') = true := by split <;> rfl
  rw [List.all_cons, hsign, Bool.true_and]
  split
  · exact all_digitsOf (fun _ => isDateCharacter_digit) 4 _
  · exact List.all_eq_true.mpr fun c hc =>
      isDateCharacter_digit (Nat.isDigit_of_mem_toDigits (by decide) (by decide) hc)

theorem all_dateText (date : Date) : (dateText date).all isDateCharacter = true := by
  have hmark : isDateCharacter '-' = true := rfl
  simp only [dateText, List.all_append, List.all_cons, all_yearText, hmark,
    all_digitsOf fun _ => isDateCharacter_digit, Bool.and_true]

theorem all_fractionText (nanos : Nat) : (fractionText nanos).all isClockCharacter = true := by
  rcases fractionText_cases nanos with ⟨h, -⟩ | ⟨width, scaled, h, -, -⟩
  · rw [h]
    rfl
  · have hpoint : isClockCharacter '.' = true := rfl
    rw [h, List.all_cons, hpoint, all_digitsOf fun _ => isClockCharacter_digit, Bool.and_true]

theorem all_clockText (second nanos : Nat) : (clockText second nanos).all isClockCharacter = true := by
  have hmark : isClockCharacter ':' = true := rfl
  simp only [clockText, List.all_append, List.all_cons, hmark, all_fractionText,
    all_digitsOf fun _ => isClockCharacter_digit, Bool.and_true]

end SilkChiffon.Pushdown

namespace SilkChiffon.GoogleSql

open Calendar Pushdown

-- ---------------------------------------------------------------------------
-- Reading
-- ---------------------------------------------------------------------------

def readField (least most : Nat) (text : Text) : Option Nat :=
  if least ≤ text.length ∧ text.length ≤ most ∧ text.all Char.isDigit then
    some (Nat.ofDigitChars 10 text 0)
  else none

/-- `YYYY-[M]M-[D]D` -/
def readDate (text : Text) : Option Date :=
  match text.span (· ≠ '-') with
  | (year, '-' :: rest) =>
    match rest.span (· ≠ '-') with
    | (month, '-' :: day) => do
      let date := ⟨← readField 4 4 year, ← readField 1 2 month, ← readField 1 2 day⟩
      if 1 ≤ date.year ∧ date.Valid then some date else none
    | _ => none
  | _ => none

def readFraction : Text → Option Nat
  | [] => some 0
  | point :: digits => do
    if point = '.' then some ((← readField 1 9 digits) * 10 ^ (9 - digits.length)) else none

/-- The nanosecond of the day at `[H]H:[M]M:[S]S[.F]`. -/
def readClock (text : Text) : Option Nat :=
  match text.span (· ≠ ':') with
  | (hour, ':' :: rest) =>
    match rest.span (· ≠ ':') with
    | (minute, ':' :: rest) => do
      let hour ← readField 1 2 hour
      let minute ← readField 1 2 minute
      let second ← readField 1 2 (rest.span (· ≠ '.')).1
      let fraction ← readFraction (rest.span (· ≠ '.')).2
      if hour < 24 ∧ minute < 60 ∧ second < 60 then
        some (((hour * 60 + minute) * 60 + second) * 1000000000 + fraction)
      else none
    | _ => none
  | _ => none

def dayNanos : Int := 86400000000000

/-- The nanosecond since the epoch at a date, with or without a time behind a
blank or a `T`. -/
def readDatetime (text : Text) : Option Int :=
  match text.span fun c => c ≠ ' ' && c ≠ 'T' && c ≠ 't' with
  | (date, []) => do some ((← readDate date).number * dayNanos)
  | (date, _ :: clock) => do some ((← readDate date).number * dayNanos + (← readClock clock))

def readOffset (text : Text) : Option Int :=
  match text.span (· ≠ ':') with
  | (hour, []) => do some ((← readField 1 2 hour) * 3600)
  | (hour, _ :: minute) => do some ((← readField 1 2 hour) * 3600 + (← readField 2 2 minute) * 60)

/-- A moment in UTC or at an offset from it, within the years of a
`TIMESTAMP`. Names of time zones are not read. -/
def readTimestamp (text : Text) : Option Int := do
  let (date, time) := text.span fun c => c ≠ ' ' && c ≠ 'T' && c ≠ 't'
  let (clock, offset) := time.span fun c => c ≠ '+' && c ≠ '-'
  let nanos ← readDatetime (date ++ clock)
  let seconds ← match offset with
    | '+' :: offset => readOffset offset
    | _ :: offset => (readOffset offset).map (-·)
    | [] => some 0
  let moment := nanos - seconds * 1000000000
  if newYear 1 * dayNanos ≤ moment ∧ moment < newYear 10000 * dayNanos then some moment else none

inductive Temporal
  | date (day : Int)
  | datetime (nanos : Int)
  | timestamp (nanos : Int)
  deriving DecidableEq, Repr

def Value.temporal : Value → Option Temporal
  | .typed type content =>
    let type := type.map Char.toUpper
    if type = "DATE".toList then (readDate content).map (.date ·.number)
    else if type = "DATETIME".toList then (readDatetime content).map .datetime
    else if type = "TIMESTAMP".toList then (readTimestamp content).map .timestamp
    else none
  | _ => none

def readValue (text : Text) : Option Value := do
  match parseValue (← lexer.scan text) with
  | some (value, []) => some value
  | _ => none

def readTemporal (text : Text) : Option Temporal := do (← readValue text).temporal

theorem readValue_ok {value : Value} (h : Reads text value.tokens) : readValue text = some value := by
  have hparse := parseValue_tokens value []
  rw [List.append_nil] at hparse
  simp [readValue, h.scan, hparse]

-- ---------------------------------------------------------------------------
-- Reading back what is printed
-- ---------------------------------------------------------------------------

theorem span_at {text : Text} (h : text.all p = true) (hc : p c = false) (rest : Text) :
    (text ++ c :: rest).span p = (text, c :: rest) := by
  rw [List.span_eq_takeWhile_dropWhile, List.takeWhile_append_of_pos (List.all_eq_true.mp h),
    List.dropWhile_append_of_pos (List.all_eq_true.mp h)]
  simp [hc]

theorem span_all {text : Text} (h : text.all p = true) : text.span p = (text, []) := by
  rw [List.span_eq_takeWhile_dropWhile, List.takeWhile_eq_self_iff.mpr (List.all_eq_true.mp h),
    List.dropWhile_eq_nil_iff.mpr (List.all_eq_true.mp h)]

theorem readField_digitsOf (hwidth : least ≤ width ∧ width ≤ most) (h : n < 10 ^ width) :
    readField least most (digitsOf width n) = some n := by
  rw [readField, if_pos ⟨by rw [length_digitsOf]; exact hwidth.1, by rw [length_digitsOf]; exact hwidth.2,
    all_digitsOf (fun _ => id) width n⟩, ofDigitChars_digitsOf h]

theorem digit_ne {c d : Char} (hd : d.isDigit = false) (hc : c.isDigit = true) :
    decide (c ≠ d) = true := by
  refine decide_eq_true ?_
  rintro rfl
  rw [hc] at hd
  cases hd

theorem span_digitsOf {c : Char} (hc : c.isDigit = false) (width n : Nat) (rest : Text) :
    (digitsOf width n ++ c :: rest).span (· ≠ c) = (digitsOf width n, c :: rest) :=
  span_at (all_digitsOf (fun _ => digit_ne hc) width n) (by simp) rest

theorem readDate_none (hspan : text.span (· ≠ '-') = (year, '-' :: rest))
    (hyear : readField 4 4 year = none) : readDate text = none := by
  simp only [readDate, hspan]
  split
  · simp [hyear]
  · rfl

/-- A year with a sign is none that GoogleSQL has. -/
theorem readDate_signed (hsign : sign = '-' ∨ sign = '+') (hdigits : digits.all Char.isDigit = true)
    (rest : Text) : readDate (sign :: digits ++ '-' :: rest) = none := by
  rcases hsign with rfl | rfl
  · exact readDate_none (span_at (show ([] : Text).all (· ≠ '-') = true from rfl) rfl (digits ++ '-' :: rest)) rfl
  · refine readDate_none (span_at (show ('+' :: digits).all (· ≠ '-') = true from ?_) rfl rest) (if_neg ?_)
    · rw [List.all_cons, List.all_eq_true.mpr fun c hc => digit_ne rfl (List.all_eq_true.mp hdigits c hc)]
      rfl
    · rintro ⟨-, -, hall⟩
      cases (Bool.and_eq_true_iff.mp hall).1

theorem readDate_dateText (h : date.Valid) :
    readDate (dateText date) = if 1 ≤ date.year ∧ date.year ≤ 9999 then some date else none := by
  have hbounds := h.bounds
  unfold dateText yearText
  split
  · rename_i hyear
    have hmark : Char.isDigit '-' = false := rfl
    simp only [readDate, span_digitsOf hmark]
    rw [readField_digitsOf (by decide) (by omega), readField_digitsOf (by decide) (by omega),
      readField_digitsOf (by decide) (by omega)]
    have hcast : (date.year.toNat : Int) = date.year := by omega
    simp only [Option.bind_eq_bind, Option.bind_some, hcast, h, and_true, hyear.2]
  · rename_i hyear
    have hnot : ¬ (1 ≤ date.year ∧ date.year ≤ 9999) := by omega
    rw [if_neg hnot]
    refine readDate_signed ?_ ?_ _
    · split <;> simp
    split
    · exact all_digitsOf (fun _ => id) 4 _
    · exact List.all_eq_true.mpr fun c hc => Nat.isDigit_of_mem_toDigits (by decide) (by decide) hc

theorem readFraction_fractionText (h : nanos < 1000000000) :
    readFraction (fractionText nanos) = some nanos := by
  rcases fractionText_cases nanos with ⟨htext, rfl⟩ | ⟨width, scaled, htext, hwidth, hscaled⟩
  · rfl
  · have hlt : scaled < 10 ^ width := by
      have hpow : 10 ^ width * 10 ^ (9 - width) = 1000000000 := by
        rw [← Nat.pow_add, show width + (9 - width) = 9 by omega]
      exact Nat.lt_of_mul_lt_mul_right (a := 10 ^ (9 - width)) (by omega)
    rw [htext]
    simp [readFraction, readField_digitsOf hwidth hlt, hscaled]

theorem readClock_clockText (hsecond : second < 86400) (hnanos : nanos < 1000000000) :
    readClock (clockText second nanos) = some (second * 1000000000 + nanos) := by
  have hspan : (digitsOf 2 (second % 60) ++ fractionText nanos).span (· ≠ '.') =
      (digitsOf 2 (second % 60), fractionText nanos) := by
    have hall := all_digitsOf (fun _ => digit_ne (d := '.') rfl) 2 (second % 60)
    rcases fractionText_cases nanos with ⟨htext, -⟩ | ⟨width, scaled, htext, -, -⟩
    · rw [htext, List.append_nil, span_all hall]
    · rw [htext]
      exact span_at hall rfl _
  have hmark : Char.isDigit ':' = false := rfl
  simp only [readClock, clockText, span_digitsOf hmark, hspan, readFraction_fractionText hnanos]
  rw [readField_digitsOf (by decide) (by omega), readField_digitsOf (by decide) (by omega),
    readField_digitsOf (by decide) (by omega)]
  simp only [Option.bind_eq_bind, Option.bind_some]
  rw [if_pos (by omega), Option.some.injEq]
  omega

theorem isDateCharacter_ne {c d : Char} (hd : isDateCharacter d = false) (hc : isDateCharacter c = true) :
    decide (c ≠ d) = true := by
  refine decide_eq_true ?_
  rintro rfl
  rw [hc] at hd
  cases hd

theorem span_dateText (date : Date) (rest : Text) :
    (dateText date ++ ' ' :: rest).span (fun c => c ≠ ' ' && c ≠ 'T' && c ≠ 't') =
      (dateText date, ' ' :: rest) := by
  refine span_at (List.all_eq_true.mpr fun c hc => ?_) rfl rest
  have hdate := List.all_eq_true.mp (all_dateText date) c hc
  rw [isDateCharacter_ne rfl hdate, isDateCharacter_ne rfl hdate, isDateCharacter_ne rfl hdate]
  rfl

def nanosAt (day : Int) (second nanos : Nat) : Int :=
  day * dayNanos + (second * 1000000000 + nanos : Nat)

theorem readDatetime_text (h : date.Valid) (hsecond : second < 86400) (hnanos : nanos < 1000000000) :
    readDatetime (dateText date ++ ' ' :: clockText second nanos) =
      if 1 ≤ date.year ∧ date.year ≤ 9999 then some (nanosAt date.number second nanos) else none := by
  simp only [readDatetime, span_dateText, readDate_dateText h, readClock_clockText hsecond hnanos]
  split <;> rfl

theorem nanosAt_bounds (day first : Int) (hsecond : second < 86400) (hnanos : nanos < 1000000000) :
    first * dayNanos ≤ nanosAt day second nanos ↔ first ≤ day := by
  unfold nanosAt dayNanos
  omega

theorem span_clockText (second nanos : Nat) (rest : Text) :
    (' ' :: clockText second nanos ++ '+' :: rest).span (fun c => c ≠ '+' && c ≠ '-') =
      (' ' :: clockText second nanos, '+' :: rest) := by
  have hclock : ∀ c ∈ clockText second nanos, (c ≠ '+' && c ≠ '-' : Bool) = true := by
    intro c hc
    have hmember := List.all_eq_true.mp (all_clockText second nanos) c hc
    have hplus : c ≠ '+' := by
      rintro rfl
      cases hmember
    have hminus : c ≠ '-' := by
      rintro rfl
      cases hmember
    simp [hplus, hminus]
  refine span_at ?_ rfl rest
  rw [List.all_cons, List.all_eq_true.mpr hclock]
  rfl

theorem readTimestamp_text (hdate : date.Valid)
    (hyear : 1 ≤ date.year ∧ date.year ≤ 9999 → newYear 1 ≤ date.number ∧ date.number < newYear 10000)
    (hsecond : second < 86400) (hnanos : nanos < 1000000000) :
    readTimestamp (dateText date ++ ' ' :: clockText second nanos ++ "+00".toList) =
      if 1 ≤ date.year ∧ date.year ≤ 9999 then some (nanosAt date.number second nanos) else none := by
  have hspan := span_dateText date (clockText second nanos ++ "+00".toList)
  have hclock := span_clockText second nanos "00".toList
  have hoffset : readOffset "00".toList = some 0 := by decide
  have hlow := nanosAt_bounds date.number (newYear 1) hsecond hnanos
  have hhigh := nanosAt_bounds date.number (newYear 10000) hsecond hnanos
  have htext : dateText date ++ ' ' :: clockText second nanos ++ "+00".toList =
      dateText date ++ ' ' :: (clockText second nanos ++ "+00".toList) := by simp
  have hzone : ' ' :: (clockText second nanos ++ "+00".toList) =
      ' ' :: clockText second nanos ++ '+' :: "00".toList := rfl
  rw [readTimestamp, htext, hspan, hzone]
  simp only [hclock, readDatetime_text hdate hsecond hnanos, hoffset]
  split
  · rename_i h
    have := hyear h
    simp only [Option.bind_eq_bind, Option.bind_some, Int.zero_mul, Int.sub_zero]
    rw [if_pos ⟨hlow.mpr this.1, Int.not_le.mp fun hle => Int.not_le.mpr this.2 (hhigh.mp hle)⟩]
  · rfl

-- ---------------------------------------------------------------------------
-- Literals
-- ---------------------------------------------------------------------------

/-- A day in the years from 0001 to 9999. -/
def Expressible (day : Int) : Prop := newYear 1 ≤ day ∧ day < newYear 10000

instance : Decidable (Expressible day) := by unfold Expressible; infer_instance

theorem expressible_iff (day : Int) :
    Expressible day ↔ 1 ≤ (Date.ofNumber day).year ∧ (Date.ofNumber day).year ≤ 9999 := by
  have hlow := le_yearOf (y := 1) (n := day)
  have hhigh := le_yearOf (y := 10000) (n := day)
  change _ ↔ 1 ≤ yearOf day ∧ yearOf day ≤ 9999
  unfold Expressible
  omega

theorem plain_temporal (h : ∀ c ∈ text, isDateCharacter c = true ∨ isClockCharacter c = true ∨ c = ' ') :
    Plain text := by
  intro c hc
  rcases h c hc with h | h | rfl
  · refine ⟨?_, ?_, ?_, ?_⟩ <;> rintro rfl <;> cases h
  · refine ⟨?_, ?_, ?_, ?_⟩ <;> rintro rfl <;> cases h
  · decide

theorem plain_dateText (date : Date) : Plain (dateText date) :=
  plain_temporal fun c hc => .inl (List.all_eq_true.mp (all_dateText date) c hc)

theorem plain_clockText (second nanos : Nat) : Plain (' ' :: clockText second nanos) :=
  plain_temporal fun c hc => by
    rcases List.mem_cons.mp hc with rfl | hc
    · exact .inr (.inr rfl)
    · exact .inr (.inl (List.all_eq_true.mp (all_clockText second nanos) c hc))

theorem readTemporal_typed (type : String) (h : Plain content)
    (htype : Closes (type.toList ++ [' ']) [.word type.toList]) :
    readTemporal (type.toList ++ [' '] ++ quote '\x27' content) = (typedValue type content).temporal := by
  rw [readTemporal, readValue_ok (h.reads_typed type htype)]
  rfl

theorem readTemporal_date (day : Int) :
    readTemporal ("DATE ".toList ++ quote '\x27' (dateText (.ofNumber day))) =
      if Expressible day then some (.date day) else none := by
  obtain ⟨hvalid, hnumber⟩ := Date.ofNumber_ok day
  have hread := readTemporal_typed "DATE" (plain_dateText (.ofNumber day)) rfl
  refine hread.trans ?_
  simp only [typedValue, Value.temporal]
  rw [if_pos (by rfl), readDate_dateText hvalid, if_congr (expressible_iff day).symm rfl rfl]
  split
  · rw [Option.map_some, hnumber]
  · rfl

/-- A date literal is readable unless chrono has the day and GoogleSQL has not. -/
theorem date_literal_valid_iff (hfmt : fmt.Chrono) (days : Int32) :
    (∀ text, literal fmt (.literal (.date32 (some days))) .date32 = some text →
      readTemporal text = some (.date days.toInt)) ↔
    (Represented days.toInt → Expressible days.toInt) := by
  have hliteral : literal fmt (.literal (.date32 (some days))) .date32 =
      if Represented days.toInt then
        some ("DATE ".toList ++ quote '\x27' (dateText (.ofNumber days.toInt)))
      else none := by
    simp only [literal, hfmt.date, chronoDate]
    split <;> rfl
  rw [hliteral]
  split
  · simp only [Option.some.injEq, forall_eq', readTemporal_date, ite_eq_left_iff]
    grind
  · grind

def Temporal.moment (timezone : Option String) (nanos : Int) : Temporal :=
  if timezone.isNone then .datetime nanos else .timestamp nanos

def zoneSupported : Option String → Bool
  | none | some "UTC" | some "+00:00" => true
  | some _ => false

def momentText (timezone : Option String) (formatted : Text) : Text :=
  if timezone.isNone then "DATETIME ".toList ++ quote '\x27' formatted
  else "TIMESTAMP ".toList ++ quote '\x27' (formatted ++ "+00".toList)

theorem readTemporal_moment (hsecond : second < 86400) (hnanos : nanos < 1000000000) (timezone : Option String)
    (day : Int) :
    readTemporal (momentText timezone (dateText (.ofNumber day) ++ ' ' :: clockText second nanos)) =
      if Expressible day then some (.moment timezone (nanosAt day second nanos)) else none := by
  obtain ⟨hvalid, hnumber⟩ := Date.ofNumber_ok day
  have hplain := (plain_dateText (.ofNumber day)).append (plain_clockText second nanos)
  unfold momentText Temporal.moment
  split
  · refine (readTemporal_typed "DATETIME" hplain rfl).trans ?_
    simp only [typedValue, Value.temporal]
    rw [if_neg (by decide), if_pos (by rfl), readDatetime_text hvalid hsecond hnanos,
      if_congr (expressible_iff day).symm rfl rfl, hnumber]
    split <;> rfl
  · refine (readTemporal_typed "TIMESTAMP" (hplain.append (by decide)) rfl).trans ?_
    simp only [typedValue, Value.temporal]
    rw [if_neg (by decide), if_neg (by decide), if_pos (by rfl),
      readTimestamp_text hvalid (by rw [hnumber]; exact (expressible_iff day).mpr) hsecond hnanos,
      if_congr (expressible_iff day).symm rfl rfl, hnumber]
    split <;> rfl

theorem zoned_eq (timezone : Option String) (formatted : Text) :
    (match timezone with
      | none => some ("DATETIME ".toList ++ quote '\x27' formatted)
      | some "UTC" | some "+00:00" =>
        some ("TIMESTAMP ".toList ++ quote '\x27' (formatted ++ "+00".toList))
      | some _ => none) =
      if zoneSupported timezone = true then some (momentText timezone formatted) else none := by
  unfold zoneSupported
  split <;> rfl

theorem timestampLiteral_eq (hfmt : fmt.Chrono)
    (hvalue : -9223372036854775808 ≤ value ∧ value < 9223372036854775808) (hunit : unit = 1 ∨ unit = 1000)
    (timezone : Option String) :
    timestampLiteral fmt value unit timezone =
      if Represented (value * unit / dayNanos) then
        if zoneSupported timezone = true then
          some (momentText timezone (dateText (.ofNumber (value * unit / dayNanos)) ++
            ' ' :: clockText (value * unit / 1000000000 % 86400).toNat (value * unit % 1000000000).toNat))
        else none
      else none := by
  have hbound : -9223372036854775808000 ≤ value * unit ∧ value * unit < 9223372036854775808000 := by
    rcases hunit with rfl | rfl <;> omega
  have hday : value * unit / 1000000000 / 86400 = value * unit / dayNanos := by
    unfold dayNanos
    omega
  have h128 : checkedI128 (value * unit) = some (value * unit) := if_pos (by omega)
  have h64 : checkedI64 (value * unit / 1000000000) = some (value * unit / 1000000000) :=
    if_pos (by omega)
  rw [timestampLiteral, h128, Option.bind_eq_bind, Option.bind_some, h64, Option.bind_eq_bind, Option.bind_some,
    hfmt.moment, chronoMoment, chronoDate, hday]
  split
  · exact zoned_eq timezone _
  · rfl

/-- A literal of a moment is readable unless its column's time zone is
supported and chrono has the day and GoogleSQL has not. -/
theorem moment_literal_valid_iff (hfmt : fmt.Chrono)
    (hvalue : -9223372036854775808 ≤ value ∧ value < 9223372036854775808) (hunit : unit = 1 ∨ unit = 1000)
    (timezone : Option String) :
    (∀ text, timestampLiteral fmt value unit timezone = some text →
      readTemporal text = some (.moment timezone (value * unit))) ↔
    (zoneSupported timezone = true → Represented (value * unit / dayNanos) →
      Expressible (value * unit / dayNanos)) := by
  have hsecond : (value * unit / 1000000000 % 86400).toNat < 86400 := by omega
  have hbelow : (value * unit % 1000000000).toNat < 1000000000 := by omega
  have hread := readTemporal_moment hsecond hbelow timezone (value * unit / dayNanos)
  have hnanos : nanosAt (value * unit / dayNanos) (value * unit / 1000000000 % 86400).toNat
      (value * unit % 1000000000).toNat = value * unit := by
    unfold nanosAt dayNanos
    omega
  rw [timestampLiteral_eq hfmt hvalue hunit]
  split
  · split
    · simp only [Option.some.injEq, forall_eq', hread, hnanos, ite_eq_left_iff]
      grind
    · grind
  · grind

end SilkChiffon.GoogleSql
