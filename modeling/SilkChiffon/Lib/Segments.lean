import SilkChiffon.Lib.Lists
import SilkChiffon.Lib.Text
import Mathlib.Data.List.DropRight

/-!
# Texts in segments

Splitting a text at a separator, piece by piece. Where no value holds the
separator, the segments of a filled pattern are those of the pattern, filled.
-/

namespace SilkChiffon

namespace Lists

section Split

variable {α β : Type} [DecidableEq α] [DecidableEq β]

theorem splitOn_append (l l' : List α) (c : α) :
    (l ++ l').splitOn c = (l.splitOn c).dropLast ++
      (l'.splitOn c).modifyHead ((l.splitOn c).getLastD [] ++ ·) := by
  induction l with
  | nil =>
    obtain ⟨first, rest, h⟩ := List.exists_cons_of_ne_nil (List.splitOn_ne_nil c l')
    simp [h]
  | cons x l ih =>
    obtain ⟨first, rest, h⟩ := List.exists_cons_of_ne_nil (List.splitOn_ne_nil c l)
    obtain ⟨first', rest', h'⟩ := List.exists_cons_of_ne_nil (List.splitOn_ne_nil c l')
    simp only [List.cons_append, List.splitOn_cons_eq_if_modifyHead, ih, h, h']
    split
    · cases rest <;> simp
    · cases rest <;> simp

/-- Splitting commutes with a map that keeps the separator and makes it of
nothing else. -/
theorem splitOn_flatMap {f : α → List β} (hself : f c = [d]) (h : ∀ x, x ≠ c → d ∉ f x) (l : List α) :
    (l.flatMap f).splitOn d = (l.splitOn c).map (·.flatMap f) := by
  induction l with
  | nil => rfl
  | cons x l ih =>
    obtain ⟨first, rest, hl⟩ := List.exists_cons_of_ne_nil (List.splitOn_ne_nil c l)
    rw [List.flatMap_cons, List.splitOn_cons_eq_if_modifyHead]
    by_cases hx : x = c
    · subst hx
      simp [hself, ih, List.splitOn_cons_eq_if_modifyHead]
    · rw [if_neg (by simpa using hx), splitOn_append, ih, hl, List.splitOn_eq_singleton (h x hx)]
      simp

theorem mem_splitOn_of_mem {x c : α} {l : List α} (hx : x ∈ l) (hne : x ≠ c) :
    ∃ part ∈ l.splitOn c, x ∈ part := by
  induction l with
  | nil => cases hx
  | cons y l ih =>
    obtain ⟨first, rest, hl⟩ := List.exists_cons_of_ne_nil (List.splitOn_ne_nil c l)
    simp only [List.splitOn_cons_eq_if_modifyHead, hl] at ih ⊢
    rcases List.mem_cons.mp hx with rfl | hx
    · rw [if_neg (by simpa using hne)]
      exact ⟨x :: first, List.mem_cons_self, List.mem_cons_self⟩
    · obtain ⟨part, hpart, hmem⟩ := ih hx
      split
      · exact ⟨part, List.mem_cons_of_mem _ hpart, hmem⟩
      · rcases List.mem_cons.mp hpart with rfl | hpart
        · exact ⟨y :: part, List.mem_cons_self, List.mem_cons_of_mem _ hmem⟩
        · exact ⟨part, List.mem_cons_of_mem _ hpart, hmem⟩

theorem getLastD_splitOn_concat (l : List α) (x c : α) :
    ((l ++ [x]).splitOn c).getLastD [] = if x = c then [] else (l.splitOn c).getLastD [] ++ [x] := by
  rw [splitOn_append, List.splitOn_cons_eq_if_modifyHead]
  split <;> simp_all

end Split

section Join

variable {α : Type}

theorem intercalate_append {c : α} {l l' : List (List α)} (h : l ≠ []) (h' : l' ≠ []) :
    [c].intercalate (l ++ l') = [c].intercalate l ++ c :: [c].intercalate l' := by
  induction l with
  | nil => exact absurd rfl h
  | cons part l ih =>
    cases l with
    | nil =>
      obtain ⟨part', l', rfl⟩ := List.exists_cons_of_ne_nil h'
      simp
    | cons next l =>
      have ih := ih (List.cons_ne_nil _ _)
      rw [List.cons_append] at ih
      simp [ih]

theorem mem_intercalate {x c : α} {parts : List (List α)} (h : x ∈ [c].intercalate parts) :
    x = c ∨ ∃ part ∈ parts, x ∈ part := by
  induction parts with
  | nil => cases h
  | cons part parts ih =>
    cases parts with
    | nil => exact .inr ⟨part, List.mem_cons_self, by simpa using h⟩
    | cons next parts =>
      simp only [List.intercalate_cons_cons, List.mem_append, List.mem_singleton] at h
      rcases h with (h | h) | h
      · exact .inr ⟨part, List.mem_cons_self, h⟩
      · exact .inl h
      · exact (ih h).imp_right fun hpart => hpart.imp fun part h => ⟨List.mem_cons_of_mem _ h.1, h.2⟩

end Join

-- ---------------------------------------------------------------------------
-- Trimming
-- ---------------------------------------------------------------------------

section Trim

variable {α : Type} {p : α → Bool}

def trim (p : α → Bool) (l : List α) : List α := (l.dropWhile p).rdropWhile p

theorem rdropWhile_append_of_all {l l' : List α} (h : ∀ x ∈ l', p x) : (l ++ l').rdropWhile p = l.rdropWhile p := by
  rw [List.rdropWhile, List.reverse_append, List.dropWhile_append_of_pos (by simpa using h), List.rdropWhile]

theorem trim_eq_nil_iff {l : List α} : trim p l = [] ↔ ∀ x ∈ l, p x := by
  rw [trim, List.rdropWhile_eq_nil_iff]
  constructor
  · intro h x hx
    rw [← List.takeWhile_append_dropWhile (p := p) (l := l)] at hx
    rcases List.mem_append.mp hx with hx | hx
    · exact List.mem_takeWhile_imp hx
    · exact h x hx
  · exact fun h x hx => h x ((List.dropWhile_sublist p).mem hx)

theorem trim_append_left {l l' : List α} (h : ∀ x ∈ l, p x) : trim p (l ++ l') = trim p l' := by
  rw [trim, List.dropWhile_append_of_pos h, trim]

theorem trim_append_right {l l' : List α} (h : ∀ x ∈ l', p x) : trim p (l ++ l') = trim p l := by
  rw [trim, List.dropWhile_append]
  split
  · rename_i hl
    have hl : ∀ x ∈ l, p x := by simpa using hl
    rw [trim_eq_nil_iff.mpr hl]
    exact trim_eq_nil_iff.mpr h
  · exact rdropWhile_append_of_all h

theorem mem_of_mem_trim {x : α} {l : List α} (h : x ∈ trim p l) : x ∈ l :=
  (List.dropWhile_sublist p).mem ((List.rdropWhile_prefix p _).mem h)

theorem trim_append_cons {x : α} (hx : p x = false) (l l' : List α) :
    trim p (l ++ x :: l') = l.dropWhile p ++ x :: l'.rdropWhile p := by
  have hright : ∀ l : List α, (l ++ x :: l').rdropWhile p = l ++ x :: l'.rdropWhile p := by
    intro l
    rw [List.rdropWhile, List.reverse_append, List.reverse_cons, List.append_assoc, List.singleton_append,
      List.dropWhile_append]
    split
    · rename_i hnil
      have hnil : l'.rdropWhile p = [] := by
        rw [List.rdropWhile, List.isEmpty_iff.mp hnil]
        rfl
      rw [List.dropWhile_cons_of_neg (by simp [hx]), hnil]
      simp
    · rw [List.rdropWhile]
      simp
  rw [trim, List.dropWhile_append]
  split
  · rename_i hnil
    rw [List.isEmpty_iff.mp hnil, List.dropWhile_cons_of_neg (by simp [hx])]
    exact hright []
  · exact hright _

theorem trim_dropWhile (l : List α) : trim p (l.dropWhile p) = trim p l := by
  conv_rhs => rw [← List.takeWhile_append_dropWhile (p := p) (l := l)]
  exact (trim_append_left fun x hx => List.mem_takeWhile_imp hx).symm

theorem trim_rdropWhile (l : List α) : trim p (l.rdropWhile p) = trim p l := by
  conv_rhs => rw [← List.rdropWhile_append_rtakeWhile (p := p) (l := l)]
  exact (trim_append_right fun x hx => List.mem_rtakeWhile_imp hx).symm

@[simp] theorem trim_trim (l : List α) : trim p (trim p l) = trim p l := by
  have hsides : trim p l = (l.dropWhile p).rdropWhile p := rfl
  conv_lhs => rw [hsides]
  rw [trim_rdropWhile, trim_dropWhile]

end Trim

end Lists

namespace Percent

theorem decode_percent (bs : Bytes) : decode (percent :: bs) =
    match escaped bs with
    | some x => x :: decode (bs.drop 2)
    | none => percent :: decode bs := by
  rw [decode, decodeFrom, if_pos rfl]
  cases escaped bs with
  | none => rfl
  | some x => exact congrArg _ (decodeFrom_eq_drop 2 bs)

theorem decode_append_of_foreign (hdigit : hexValue b = none) (bs rest : Bytes) :
    decode (bs ++ b :: rest) = decode bs ++ decode (b :: rest) := by
  match bs with
  | [] => rfl
  | c :: bs =>
    have ih := decode_append_of_foreign hdigit bs rest
    by_cases hc : c = percent
    · subst hc
      rw [List.cons_append, decode_percent, decode_percent]
      match bs with
      | [] =>
        have hnone : escaped (b :: rest) = none := by cases rest <;> simp [escaped, hdigit]
        rw [List.nil_append, hnone]
        rfl
      | [high] =>
        have hnone : escaped ([high] ++ b :: rest) = none := by simp [escaped, hdigit]
        rw [hnone, ih]
        rfl
      | high :: low :: bs =>
        have hsome : escaped (high :: low :: bs ++ b :: rest) = escaped (high :: low :: bs) := rfl
        rw [hsome, ih]
        cases escaped (high :: low :: bs) with
        | none => rfl
        | some x => simpa using decode_append_of_foreign hdigit bs rest
    · rw [List.cons_append, decode_cons_of_ne hc, decode_cons_of_ne hc, ih, List.cons_append]
termination_by bs.length

theorem decode_intercalate (hpercent : c ≠ percent) (hdigit : hexValue c = none) (parts : List Bytes) :
    decode ([c].intercalate parts) = [c].intercalate (parts.map decode) := by
  induction parts with
  | nil => rfl
  | cons part parts ih =>
    cases parts with
    | nil => simp
    | cons next parts =>
      rw [List.intercalate_cons_cons, List.append_assoc, List.singleton_append,
        decode_append_of_foreign hdigit, decode_cons_of_ne hpercent, ih]
      simp

/-- A separator that is in no escape separates what is read, if reading makes
no more of them. -/
theorem splitOn_decode (hpercent : c ≠ percent) (hdigit : hexValue c = none) {bs : Bytes}
    (h : ∀ part ∈ bs.splitOn c, c ∉ decode part) : (decode bs).splitOn c = (bs.splitOn c).map decode := by
  have hread := decode_intercalate hpercent hdigit (bs.splitOn c)
  rw [List.intercalate_splitOn] at hread
  rw [hread, List.splitOn_intercalate]
  · simpa using h
  · simp

end Percent

namespace Text.Pattern

variable {β γ κ : Type}

theorem fill_eq_append (p : Pattern β κ) (value : κ → List β) :
    p.fill value = ({ p with ending := [] } : Pattern β κ).fill value ++ p.ending := by
  obtain ⟨slots, ending⟩ := p
  show fillSlots value ending slots = fillSlots value [] slots ++ ending
  induction slots with
  | nil => rfl
  | cons s slots ih => rw [fillSlots, fillSlots, ih, List.append_assoc, List.append_assoc, List.append_assoc]

def literals (p : Pattern β κ) : List (List β) := p.slots.map (·.1) ++ [p.ending]

theorem mem_fill_of_literal {f : List β → List γ} {p : Pattern β κ} (hliteral : literal ∈ p.literals)
    (hb : b ∈ f literal) (value : κ → List γ) : b ∈ (p.mapLiterals f).fill value := by
  obtain ⟨slots, ending⟩ := p
  show b ∈ fillSlots value (f ending) (slots.map fun s => (f s.1, s.2))
  change literal ∈ slots.map (·.1) ++ [ending] at hliteral
  induction slots with
  | nil =>
    obtain rfl : literal = ending := by simpa using hliteral
    exact hb
  | cons s slots ih =>
    rw [List.map_cons, fillSlots, List.mem_append, List.mem_append]
    rcases List.mem_cons.mp hliteral with rfl | hliteral
    · exact .inl (.inl hb)
    · exact .inr (ih hliteral)

def prepend (literal : List β) (k : κ) (p : Pattern β κ) : Pattern β κ := ⟨(literal, k) :: p.slots, p.ending⟩

variable [DecidableEq β] [DecidableEq γ]

def segmentsOf (c : β) (ending : List β) : List (List β × κ) → List (Pattern β κ)
  | [] => (ending.splitOn c).map (⟨[], ·⟩)
  | (literal, k) :: slots =>
    (literal.splitOn c).dropLast.map (⟨[], ·⟩) ++
      (segmentsOf c ending slots).modifyHead
        (prepend ((literal.splitOn c).getLastD []) k)

theorem segmentsOf_ne_nil (c : β) (ending : List β) (slots : List (List β × κ)) :
    segmentsOf c ending slots ≠ [] := by
  cases slots with
  | nil => simp [segmentsOf, List.splitOn_ne_nil]
  | cons s slots =>
    have ih := segmentsOf_ne_nil c ending slots
    simp [segmentsOf, ih]

/-- The patterns between the separators of the literals. -/
def segments (c : β) (p : Pattern β κ) : List (Pattern β κ) := segmentsOf c p.ending p.slots

theorem exists_segment {c : β} {p : Pattern β κ} (hliteral : literal ∈ p.literals) (hpart : part ∈ literal.splitOn c) :
    ∃ segment ∈ p.segments c, part ∈ segment.literals := by
  obtain ⟨slots, ending⟩ := p
  show ∃ segment ∈ segmentsOf c ending slots, part ∈ segment.literals
  change literal ∈ slots.map (·.1) ++ [ending] at hliteral
  induction slots with
  | nil =>
    obtain rfl : literal = ending := by simpa using hliteral
    exact ⟨⟨[], part⟩, List.mem_map.mpr ⟨part, hpart, rfl⟩, by simp [literals]⟩
  | cons s slots ih =>
    obtain ⟨before, last, hsplit⟩ : ∃ before last, s.1.splitOn c = before ++ [last] :=
      ⟨_, _, (List.dropLast_append_getLast (List.splitOn_ne_nil c s.1)).symm⟩
    obtain ⟨first, rest, hsegments⟩ := List.exists_cons_of_ne_nil (segmentsOf_ne_nil c ending slots)
    have hwhole : segmentsOf c ending (s :: slots) =
        before.map (⟨[], ·⟩) ++ prepend last s.2 first :: rest := by
      rw [segmentsOf, hsplit, hsegments]
      simp
    have hprepend : (prepend last s.2 first).literals = last :: first.literals := rfl
    rw [hwhole]
    rcases List.mem_cons.mp hliteral with rfl | hliteral
    · rw [hsplit] at hpart
      rcases List.mem_append.mp hpart with hpart | hpart
      · exact ⟨⟨[], part⟩, List.mem_append_left _ (List.mem_map.mpr ⟨part, hpart, rfl⟩), by simp [literals]⟩
      · obtain rfl := List.mem_singleton.mp hpart
        exact ⟨prepend part s.2 first, by simp, by simp [hprepend]⟩
    · obtain ⟨segment, hsegment, hmem⟩ := ih hliteral
      rw [hsegments] at hsegment
      rcases List.mem_cons.mp hsegment with rfl | hsegment
      · exact ⟨prepend last s.2 segment, by simp, by simp [hprepend, hmem]⟩
      · exact ⟨segment, by simp [hsegment], hmem⟩

/-- Where no value holds the separator, a filled pattern has the segments of the
pattern, filled; the literals may be read by a function that keeps them apart. -/
theorem splitOn_fill {c : β} {d : γ} {f : List β → List γ} {p : Pattern β κ} {value : κ → List γ}
    (hliterals : ∀ literal ∈ p.literals, (f literal).splitOn d = (literal.splitOn c).map f)
    (hvalues : ∀ k ∈ p.keys, d ∉ value k) :
    ((p.mapLiterals f).fill value).splitOn d =
      (p.segments c).map fun segment => (segment.mapLiterals f).fill value := by
  obtain ⟨slots, ending⟩ := p
  show (fillSlots value (f ending) (slots.map fun s => (f s.1, s.2))).splitOn d =
    (segmentsOf c ending slots).map fun segment => (segment.mapLiterals f).fill value
  induction slots with
  | nil =>
    have hending := hliterals ending (by simp [literals])
    simpa [segmentsOf, fillSlots, mapLiterals, fill, Function.comp_def] using hending
  | cons s slots ih =>
    have hliteral := hliterals s.1 (by simp [literals])
    have hvalue := hvalues s.2 (by simp [keys])
    have ih := ih (fun literal h => hliterals literal (List.mem_cons_of_mem _ h))
      (fun k h => hvalues k (List.mem_cons_of_mem _ h))
    obtain ⟨before, last, hsplit⟩ : ∃ before last, s.1.splitOn c = before ++ [last] :=
      ⟨_, _, (List.dropLast_append_getLast (List.splitOn_ne_nil c s.1)).symm⟩
    rw [List.map_cons, fillSlots, Lists.splitOn_append, Lists.splitOn_append, ih, hliteral, hsplit,
      List.splitOn_eq_singleton hvalue, segmentsOf, hsplit]
    cases segmentsOf c ending slots <;>
      simp [prepend, mapLiterals, fill, fillSlots, Function.comp_def]

end Text.Pattern

end SilkChiffon
