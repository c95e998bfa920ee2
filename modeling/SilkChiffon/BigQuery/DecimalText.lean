import Mathlib.Data.List.TakeWhile
import Mathlib.Data.Rat.Defs
import Mathlib.Tactic.Ring
import Mathlib.Tactic.FieldSimp
import SilkChiffon.BigQuery.PushdownText

/-!
# Decimal literals

A scaled integer is printed with its point moved: what is read back is the
integer over the power of ten, whatever zeros have to be added.
-/

namespace SilkChiffon.Pushdown

-- ---------------------------------------------------------------------------
-- Numerals
-- ---------------------------------------------------------------------------

def unsignedValue (text : Text) : ℚ :=
  let whole := text.takeWhile (· ≠ '.')
  let fraction := (text.dropWhile (· ≠ '.')).tail
  (Nat.ofDigitChars 10 (whole ++ fraction) 0 : ℚ) / 10 ^ fraction.length

def decimalValue : Text → ℚ
  | '-' :: text => -unsignedValue text
  | text => unsignedValue text

/-- An optional minus, digits, and behind a point as many digits as the scale
says; no point if it says none. -/
def IsDecimal (scale : Nat) (text : Text) : Prop :=
  ∃ sign whole fraction, (sign = [] ∨ sign = ['-']) ∧ whole ≠ [] ∧
    (∀ c ∈ whole ++ fraction, c.isDigit = true) ∧ fraction.length = scale ∧
    text = sign ++ whole ++ if scale = 0 then [] else '.' :: fraction

theorem digit_ne_point (h : c.isDigit = true) : (c ≠ '.') = true := by
  simp only [ne_eq, eq_iff_iff, iff_true]
  rintro rfl
  cases h

theorem unsignedValue_digits (h : ∀ c ∈ digits, c.isDigit = true) :
    unsignedValue digits = Nat.ofDigitChars 10 digits 0 := by
  have hplain : ∀ c ∈ digits, decide (c ≠ '.') = true := fun c hc => by simpa using digit_ne_point (h c hc)
  rw [unsignedValue, List.takeWhile_eq_self_iff.mpr hplain, List.dropWhile_eq_nil_iff.mpr hplain]
  simp

theorem unsignedValue_pointed (h : ∀ c ∈ whole, c.isDigit = true) (fraction : Text) :
    unsignedValue (whole ++ '.' :: fraction) =
      (Nat.ofDigitChars 10 (whole ++ fraction) 0 : ℚ) / 10 ^ fraction.length := by
  have hplain : ∀ c ∈ whole, decide (c ≠ '.') = true := fun c hc => by simpa using digit_ne_point (h c hc)
  rw [unsignedValue, List.takeWhile_append_of_pos hplain, List.dropWhile_append_of_pos hplain]
  simp

-- ---------------------------------------------------------------------------
-- Scaling
-- ---------------------------------------------------------------------------

theorem isDigit_toDigits (n : Nat) : ∀ c ∈ Nat.toDigits 10 n, c.isDigit = true := fun _ =>
  Nat.isDigit_of_mem_toDigits (by decide) (by decide)

theorem head_toDigits_ne_minus (n : Nat) (rest : Text) : Nat.toDigits 10 n ≠ '-' :: rest := by
  intro h
  have := isDigit_toDigits n '-' (h ▸ List.mem_cons_self)
  cases this

def signText (v : Int) : Text := if v < 0 then ['-'] else []

theorem integer_eq (v : Int) : integer v = signText v ++ Nat.toDigits 10 v.natAbs := by
  unfold integer signText
  rw [Int.toString_eq_repr, Int.repr_eq_if]
  split
  · rename_i hv
    simp [Nat.toList_repr, not_lt.mpr hv, show v.toNat = v.natAbs by omega]
  · rename_i hv
    simp [Nat.toList_repr, show v < 0 from not_le.mp hv, show (-v).toNat = v.natAbs by omega]

theorem splitSign_integer (v : Int) : splitSign (integer v) = (decide (v < 0), Nat.toDigits 10 v.natAbs) := by
  rw [integer_eq, signText]
  split
  · simp [splitSign, *]
  · rw [List.nil_append, splitSign]
    · simp [*]
    · exact fun digits h => head_toDigits_ne_minus _ _ h

theorem ofDigitChars_padDigits (digits : Text) (scale : Nat) :
    Nat.ofDigitChars 10 (padDigits digits scale) 0 = Nat.ofDigitChars 10 digits 0 := by
  unfold padDigits
  split
  · rw [Nat.ofDigitChars_append, Nat.ofDigitChars_replicate_zero, Nat.mul_zero]
  · rfl

theorem length_padDigits (digits : Text) (scale : Nat) (hne : digits ≠ []) : scale < (padDigits digits scale).length := by
  have := List.length_pos_iff.mpr hne
  unfold padDigits
  split
  · simp only [List.length_append, List.length_replicate]
    omega
  · omega

theorem isDigit_padDigits (h : ∀ c ∈ digits, c.isDigit = true) :
    ∀ c ∈ padDigits digits scale, c.isDigit = true := by
  unfold padDigits
  split
  · intro c hc
    rcases List.mem_append.mp hc with hc | hc
    · rw [List.eq_of_mem_replicate hc]
      rfl
    · exact h c hc
  · exact h

/-- Digits with a point in front of the last `scale` of them. -/
theorem unsignedValue_insertPoint (h : ∀ c ∈ digits, c.isDigit = true) (hscale : scale ≤ digits.length) :
    unsignedValue (insertPoint digits (digits.length - scale)) =
      (Nat.ofDigitChars 10 digits 0 : ℚ) / 10 ^ scale := by
  have htake : ∀ c ∈ digits.take (digits.length - scale), c.isDigit = true :=
    fun c hc => h c (List.mem_of_mem_take hc)
  rw [insertPoint, unsignedValue_pointed htake, List.take_append_drop, List.length_drop]
  congr 2
  omega

theorem decimalValue_sign (v : Int) (h : ∀ rest, text ≠ '-' :: rest) :
    decimalValue (signText v ++ text) = if v < 0 then -unsignedValue text else unsignedValue text := by
  unfold signText
  split
  · rfl
  · rw [List.nil_append]
    unfold decimalValue
    split
    · rename_i rest
      exact absurd rfl (h rest)
    · rfl

theorem natAbs_sign (v : Int) : (if v < 0 then -(v.natAbs : ℚ) else v.natAbs) = v := by
  have h : (if v < 0 then -(v.natAbs : Int) else v.natAbs) = v := by split <;> omega
  have hcast := congrArg (Int.cast (R := ℚ)) h
  rwa [apply_ite (Int.cast (R := ℚ)), Int.cast_neg, Int.cast_natCast] at hcast

theorem decimalValue_scaled (v : Int) (h : ∀ rest, text ≠ '-' :: rest)
    (hvalue : unsignedValue text = (v.natAbs : ℚ) / 10 ^ scale) :
    decimalValue (signText v ++ text) = v / 10 ^ scale := by
  rw [decimalValue_sign v h, hvalue, ← natAbs_sign v]
  split <;> simp [neg_div]

theorem insertPoint_ne_minus (h : ∀ c ∈ digits, c.isDigit = true) (hpoint : 0 < point) (hne : digits ≠ []) :
    ∀ rest, insertPoint digits point ≠ '-' :: rest := by
  intro rest heq
  obtain ⟨first, digits, rfl⟩ := List.exists_cons_of_ne_nil hne
  obtain ⟨n, rfl⟩ := Nat.exists_eq_add_of_lt hpoint
  have hfirst := h first List.mem_cons_self
  simp only [insertPoint, Nat.zero_add, List.take_succ_cons, List.cons_append, List.cons.injEq] at heq
  rw [heq.1] at hfirst
  cases hfirst

theorem signText_cases (v : Int) : signText v = [] ∨ signText v = ['-'] := by
  unfold signText
  split
  · exact .inr rfl
  · exact .inl rfl

theorem scaledDecimalString_integer (v : Int) (scale : Nat) :
    ∃ text, scaledDecimalString (integer v) scale = some text ∧ IsDecimal scale text ∧
      decimalValue text = v / 10 ^ scale := by
  have hdigits := isDigit_toDigits v.natAbs
  have hne : Nat.toDigits 10 v.natAbs ≠ [] := Nat.toDigits_ne_nil
  have hvalue : Nat.ofDigitChars 10 (Nat.toDigits 10 v.natAbs) 0 = v.natAbs := Nat.ofDigitChars_ten_toDigits
  by_cases hscale : scale = 0
  · subst hscale
    refine ⟨integer v, rfl, ⟨signText v, Nat.toDigits 10 v.natAbs, [], signText_cases v, hne, ?_, rfl, ?_⟩, ?_⟩
    · simpa using hdigits
    · simpa using integer_eq v
    · rw [integer_eq]
      refine decimalValue_scaled v (fun rest h => head_toDigits_ne_minus _ _ h) ?_
      rw [unsignedValue_digits hdigits, hvalue, pow_zero, div_one]
  · let padded := padDigits (Nat.toDigits 10 v.natAbs) scale
    have hlength : scale < padded.length := length_padDigits _ scale hne
    have hpadded : ∀ c ∈ padded, c.isDigit = true := isDigit_padDigits hdigits
    have hpaddedne : padded ≠ [] := List.ne_nil_of_length_pos (by omega)
    have hpoint : 0 < padded.length - scale := by omega
    have htext : scaledDecimalString (integer v) scale =
        some (signText v ++ insertPoint padded (padded.length - scale)) := by
      have hpos : ¬ (scale : Int) = 0 := by omega
      simp only [scaledDecimalString, splitSign_integer, hpos, Int.toNat_natCast, signText]
      by_cases hv : v < 0 <;> simp [hv, padded]
    refine ⟨_, htext, ⟨signText v, padded.take (padded.length - scale), padded.drop (padded.length - scale),
      signText_cases v, ?_, ?_, ?_, ?_⟩, ?_⟩
    · exact List.ne_nil_of_length_pos (by rw [List.length_take]; omega)
    · simpa using hpadded
    · rw [List.length_drop]
      omega
    · rw [if_neg hscale, List.append_assoc, insertPoint]
    · refine decimalValue_scaled v (insertPoint_ne_minus hpadded hpoint hpaddedne) ?_
      rw [unsignedValue_insertPoint hpadded (by omega), ofDigitChars_padDigits, hvalue]

/-- No scaled integer has a literal at a negative scale; at any other it has
an exact one, and no two share it. -/
theorem decimal_literals_exact (v scale : Int) :
    (scaledDecimalString (integer v) scale = none ↔ scale < 0) ∧
    (∀ text, scaledDecimalString (integer v) scale = some text →
      IsDecimal scale.toNat text ∧ decimalValue text = v / 10 ^ scale.toNat) ∧
    ∀ w text, scaledDecimalString (integer v) scale = some text →
      scaledDecimalString (integer w) scale = some text → v = w := by
  by_cases hscale : scale < 0
  · simp [scaledDecimalString, hscale]
  · obtain ⟨n, rfl⟩ := Int.eq_ofNat_of_zero_le (not_lt.mp hscale)
    obtain ⟨text, htext, hdecimal, hvalue⟩ := scaledDecimalString_integer v n
    refine ⟨by simp [htext], ?_, ?_⟩
    · rintro text' htext'
      obtain rfl := Option.some.inj (htext.symm.trans htext')
      exact ⟨hdecimal, hvalue⟩
    · rintro w text' htext' hother
      obtain rfl := Option.some.inj (htext.symm.trans htext')
      obtain ⟨text', htext', _, hvalue'⟩ := scaledDecimalString_integer w n
      obtain rfl := Option.some.inj (hother.symm.trans htext')
      have hpow : (10 : ℚ) ^ n ≠ 0 := pow_ne_zero n (by norm_num)
      have heq := hvalue.symm.trans hvalue'
      rw [div_left_inj' hpow] at heq
      exact_mod_cast heq

end SilkChiffon.Pushdown
