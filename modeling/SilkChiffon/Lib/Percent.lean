import Mathlib.Data.List.Basic
import Mathlib.Tactic.Common

/-!
# Percent encoding

Bytes of a set are written as a percent sign and two digits. Reading undoes
writing when the percent sign is in the set, and reads a concatenation piece by
piece when no piece stops inside of an escape.
-/

namespace SilkChiffon

abbrev Bytes := List UInt8

namespace Percent

def percent : UInt8 := 37

def hexDigit (n : UInt8) : UInt8 := if n < 10 then 48 + n else 55 + n

def hexValue (b : UInt8) : Option UInt8 :=
  if 48 ≤ b ∧ b ≤ 57 then some (b - 48)
  else if 65 ≤ b ∧ b ≤ 70 then some (b - 55)
  else if 97 ≤ b ∧ b ≤ 102 then some (b - 87)
  else none

def encodeByte (b : UInt8) : Bytes := [percent, hexDigit (b / 16), hexDigit (b % 16)]

def encode (reserved : UInt8 → Bool) (bs : Bytes) : Bytes :=
  bs.flatMap fun b => if reserved b then encodeByte b else [b]

def escaped : Bytes → Option UInt8
  | high :: low :: _ => do
    let high ← hexValue high
    let low ← hexValue low
    some (16 * high + low)
  | _ => none

/-- Reading, with the first `skip` bytes already read. -/
def decodeFrom : Nat → Bytes → Bytes
  | _, [] => []
  | skip + 1, _ :: rest => decodeFrom skip rest
  | 0, b :: rest =>
    match if b = percent then escaped rest else none with
    | some x => x :: decodeFrom 2 rest
    | none => b :: decodeFrom 0 rest

/-- A percent sign that no two digits follow stands for itself. -/
def decode (bs : Bytes) : Bytes := decodeFrom 0 bs

def completeFrom : Nat → Bytes → Bool
  | _, [] => true
  | skip + 1, _ :: rest => completeFrom skip rest
  | 0, b :: rest => if b = percent then (escaped rest).isSome && completeFrom 2 rest else completeFrom 0 rest

def complete (bs : Bytes) : Bool := completeFrom 0 bs

-- ---------------------------------------------------------------------------
-- Reading piece by piece
-- ---------------------------------------------------------------------------

theorem decodeFrom_eq_drop (skip : Nat) (bs : Bytes) : decodeFrom skip bs = decode (bs.drop skip) := by
  induction skip generalizing bs with
  | zero => rfl
  | succ skip ih =>
    cases bs with
    | nil => simp [decodeFrom, decode]
    | cons b rest => simpa [decodeFrom] using ih rest

theorem completeFrom_eq_drop (skip : Nat) (bs : Bytes) :
    completeFrom skip bs = complete (bs.drop skip) := by
  induction skip generalizing bs with
  | zero => rfl
  | succ skip ih =>
    cases bs with
    | nil => simp [completeFrom, complete]
    | cons b rest => simpa [completeFrom] using ih rest

@[simp] theorem decode_nil : decode [] = [] := rfl

@[simp] theorem complete_nil : complete [] = true := rfl

theorem decode_cons_of_ne (h : b ≠ percent) : decode (b :: rest) = b :: decode rest := by
  simp [decode, decodeFrom, h]

theorem complete_cons_of_ne (h : b ≠ percent) : complete (b :: rest) = complete rest := by
  simp [complete, completeFrom, h]

theorem decode_escape (h : escaped [high, low] = some x) :
    decode (percent :: high :: low :: rest) = x :: decode rest := by
  have h : escaped (high :: low :: rest) = some x := h
  simp [decode, decodeFrom, h]

theorem complete_cons_percent : complete (percent :: rest) = true ↔
    ∃ high low x rest', rest = high :: low :: rest' ∧ escaped [high, low] = some x ∧
      complete rest' = true := by
  have hunfold : complete (percent :: rest) = ((escaped rest).isSome && completeFrom 2 rest) := by
    simp [complete, completeFrom]
  rw [hunfold, completeFrom_eq_drop, Bool.and_eq_true, Option.isSome_iff_exists]
  constructor
  · rintro ⟨⟨x, hx⟩, hrest⟩
    match rest with
    | [] | [_] => cases hx
    | high :: low :: rest' => exact ⟨high, low, x, rest', rfl, hx, hrest⟩
  · rintro ⟨high, low, x, rest', rfl, hx, hrest⟩
    exact ⟨⟨x, hx⟩, hrest⟩

theorem complete_induction {motive : (bs : Bytes) → complete bs = true → Prop}
    (nil : motive [] rfl)
    (plain : ∀ b rest (hb : b ≠ percent) (h : complete rest = true), motive rest h →
      motive (b :: rest) ((complete_cons_of_ne hb).trans h))
    (escape : ∀ high low x rest (hx : escaped [high, low] = some x) (h : complete rest = true),
      motive rest h → motive (percent :: high :: low :: rest)
        (complete_cons_percent.mpr ⟨high, low, x, rest, rfl, hx, h⟩))
    (bs : Bytes) (h : complete bs = true) : motive bs h := by
  match bs with
  | [] => exact nil
  | b :: rest =>
    by_cases hb : b = percent
    · subst hb
      obtain ⟨high, low, x, rest', rfl, hx, hrest⟩ := complete_cons_percent.mp h
      exact escape high low x rest' hx hrest (complete_induction nil plain escape rest' hrest)
    · have hrest : complete rest = true := (complete_cons_of_ne hb).symm.trans h
      exact plain b rest hb hrest (complete_induction nil plain escape rest hrest)
termination_by bs.length

theorem decode_append (h : complete bs = true) : decode (bs ++ rest) = decode bs ++ decode rest := by
  induction bs, h using complete_induction with
  | nil => simp
  | plain b bs hb _ ih => simp [decode_cons_of_ne hb, ih]
  | escape high low x bs hx _ ih => simp [decode_escape hx, ih]

theorem complete_append (h : complete bs = true) : complete (bs ++ rest) = complete rest := by
  induction bs, h using complete_induction with
  | nil => rfl
  | plain b bs hb _ ih => simpa [complete_cons_of_ne hb] using ih
  | escape high low x bs hx _ ih =>
    rw [Bool.eq_iff_iff, List.cons_append, List.cons_append, List.cons_append, complete_cons_percent]
    constructor
    · rintro ⟨_, _, _, _, heq, _, hrest⟩
      obtain ⟨-, -, rfl⟩ := by simpa using heq
      exact ih ▸ hrest
    · intro hrest
      exact ⟨high, low, x, _, rfl, hx, ih ▸ hrest⟩

/-- No escape reaches across a byte that is no digit. -/
theorem complete_of_append (hb : hexValue b = none) (h : complete (bs ++ b :: rest) = true) :
    complete bs = true := by
  generalize hwhole : bs ++ b :: rest = whole at h
  induction whole, h using complete_induction generalizing bs with
  | nil => simp at hwhole
  | plain c whole hc _ ih =>
    match bs with
    | [] => rfl
    | d :: bs =>
      obtain ⟨rfl, hrest⟩ := List.cons.inj hwhole
      rw [complete_cons_of_ne hc]
      exact ih hrest
  | escape high low x whole hx _ ih =>
    match bs with
    | [] => rfl
    | [c] =>
      obtain ⟨-, rfl, -⟩ : c = percent ∧ b = high ∧ rest = low :: whole := by simpa using hwhole
      simp [escaped, hb] at hx
    | [c, d] =>
      obtain ⟨-, rfl, rfl, -⟩ : c = percent ∧ d = high ∧ b = low ∧ rest = whole := by
        simpa using hwhole
      simp [escaped, hb] at hx
    | c :: d :: e :: bs =>
      obtain ⟨rfl, rfl, rfl, hrest⟩ : c = percent ∧ d = high ∧ e = low ∧ bs ++ b :: rest = whole := by
        simpa using hwhole
      exact complete_cons_percent.mpr ⟨d, e, x, bs, rfl, hx, ih hrest⟩

theorem complete_split (hb : hexValue b = none) (hne : b ≠ percent) (h : complete (bs ++ b :: rest) = true) :
    complete bs = true ∧ complete rest = true := by
  have hbs := complete_of_append hb h
  rw [complete_append hbs, complete_cons_of_ne hne] at h
  exact ⟨hbs, h⟩

theorem hexValue_of_escaped (h : escaped (high :: low :: rest) = some x) :
    hexValue high ≠ none ∧ hexValue low ≠ none := by
  constructor
  · intro hnone
    simp [escaped, hnone] at h
  · intro hnone
    simp [escaped, hnone] at h

theorem mem_decodeFrom {bs : Bytes} (hne : b ≠ percent) (hdigit : hexValue b = none)
    (hskip : ∀ x ∈ bs.take skip, hexValue x ≠ none) (hb : b ∈ bs) : b ∈ decodeFrom skip bs := by
  induction bs generalizing skip with
  | nil => cases hb
  | cons c rest ih =>
    cases skip with
    | succ skip =>
      have hrest : ∀ x ∈ rest.take skip, hexValue x ≠ none := fun x hx => hskip x (by simp [hx])
      rcases List.mem_cons.mp hb with rfl | hb
      · exact absurd hdigit (hskip b (by simp))
      · exact ih hrest hb
    | zero =>
      simp only [decodeFrom]
      split
      · rename_i x hx
        split at hx
        · rename_i hc
          have hmem : b ∈ rest := by
            rcases List.mem_cons.mp hb with rfl | hb
            · exact absurd hc hne
            · exact hb
          refine List.mem_cons_of_mem _ (ih ?_ hmem)
          match rest with
          | [] | [_] => cases hx
          | high :: low :: rest =>
            obtain ⟨hhigh, hlow⟩ := hexValue_of_escaped hx
            simp [hhigh, hlow]
        · cases hx
      · rcases List.mem_cons.mp hb with rfl | hb
        · exact List.mem_cons_self
        · exact List.mem_cons_of_mem _ (ih (by simp) hb)

theorem mem_decode {bs : Bytes} (hne : b ≠ percent) (hdigit : hexValue b = none) (hb : b ∈ bs) :
    b ∈ decode bs :=
  mem_decodeFrom hne hdigit (by simp) hb

-- ---------------------------------------------------------------------------
-- Reading what was written
-- ---------------------------------------------------------------------------

theorem hexValue_hexDigit {n : UInt8} (h : n < 16) : hexValue (hexDigit n) = some n := by
  have : ∀ n : Fin 16, hexValue (hexDigit (.ofNat n)) = some (.ofNat n) := by decide
  simpa using this ⟨n.toNat, h⟩

theorem escaped_encodeByte (b : UInt8) : escaped [hexDigit (b / 16), hexDigit (b % 16)] = some b := by
  have hb := b.toNat_lt
  have hhigh : b / 16 < 16 := by
    rw [UInt8.lt_iff_toNat_lt, UInt8.toNat_div]
    show b.toNat / 16 < 16
    omega
  have hlow : b % 16 < 16 := by
    rw [UInt8.lt_iff_toNat_lt, UInt8.toNat_mod]
    show b.toNat % 16 < 16
    omega
  simp only [escaped, hexValue_hexDigit hhigh, hexValue_hexDigit hlow, Option.bind_eq_bind,
    Option.bind_some, Option.some.injEq]
  apply UInt8.toNat_inj.mp
  rw [UInt8.toNat_add, UInt8.toNat_mul, UInt8.toNat_div, UInt8.toNat_mod]
  show (16 * (b.toNat / 16) % 256 + b.toNat % 16) % 256 = b.toNat
  omega

theorem encode_cons (reserved : UInt8 → Bool) (b : UInt8) (bs : Bytes) :
    encode reserved (b :: bs) = (if reserved b then encodeByte b else [b]) ++ encode reserved bs := rfl

@[simp] theorem encode_append (reserved : UInt8 → Bool) (bs bs' : Bytes) :
    encode reserved (bs ++ bs') = encode reserved bs ++ encode reserved bs' := List.flatMap_append

variable {reserved : UInt8 → Bool}

theorem complete_encode (hpercent : reserved percent = true) (bs : Bytes) : complete (encode reserved bs) = true := by
  induction bs with
  | nil => rfl
  | cons b bs ih =>
    rw [encode_cons]
    split
    · exact complete_cons_percent.mpr ⟨_, _, b, _, rfl, escaped_encodeByte b, ih⟩
    · rename_i hb
      have hne : b ≠ percent := fun h => hb (h ▸ hpercent)
      rwa [List.singleton_append, complete_cons_of_ne hne]

theorem decode_encode (hpercent : reserved percent = true) (bs : Bytes) : decode (encode reserved bs) = bs := by
  induction bs with
  | nil => rfl
  | cons b bs ih =>
    rw [encode_cons]
    split
    · exact (decode_escape (escaped_encodeByte b)).trans (congrArg _ ih)
    · rename_i hb
      have hne : b ≠ percent := fun h => hb (h ▸ hpercent)
      rw [List.singleton_append, decode_cons_of_ne hne, ih]

theorem encode_injective (hpercent : reserved percent = true) (h : encode reserved bs = encode reserved bs') : bs = bs' := by
  rw [← decode_encode hpercent bs, h, decode_encode hpercent]

theorem hexDigit_range {n : UInt8} (h : n < 16) :
    (48 ≤ hexDigit n ∧ hexDigit n ≤ 57) ∨ (65 ≤ hexDigit n ∧ hexDigit n ≤ 70) := by
  have : ∀ n : Fin 16, (48 ≤ hexDigit (.ofNat n) ∧ hexDigit (.ofNat n) ≤ 57) ∨
      (65 ≤ hexDigit (.ofNat n) ∧ hexDigit (.ofNat n) ≤ 70) := by decide
  simpa using this ⟨n.toNat, h⟩

theorem mem_encode (h : x ∈ encode reserved bs) : reserved x = false ∨ x = percent ∨
    (48 ≤ x ∧ x ≤ 57) ∨ (65 ≤ x ∧ x ≤ 70) := by
  obtain ⟨b, _, hx⟩ := List.mem_flatMap.mp h
  split at hx
  · have hb := b.toNat_lt
    rcases List.mem_cons.mp hx with rfl | hx
    · exact .inr (.inl rfl)
    · rcases List.mem_cons.mp hx with rfl | hx
      · refine .inr (.inr (hexDigit_range ?_))
        rw [UInt8.lt_iff_toNat_lt, UInt8.toNat_div]
        show b.toNat / 16 < 16
        omega
      · obtain rfl := List.mem_singleton.mp hx
        refine .inr (.inr (hexDigit_range ?_))
        rw [UInt8.lt_iff_toNat_lt, UInt8.toNat_mod]
        show b.toNat % 16 < 16
        omega
  · rename_i hb
    obtain rfl := List.mem_singleton.mp hx
    exact .inl (by simpa using hb)

end Percent

end SilkChiffon
