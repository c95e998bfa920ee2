import Mathlib.Data.List.Count
import Mathlib.Data.List.TakeWhile
import SilkChiffon.Lib.Percent

/-!
# Texts and their bytes

UTF-8 of a list of characters, and texts that are made of literals with values
between them. Where a separating symbol stands between two values and in none
of them, the text tells the values.
-/

namespace SilkChiffon.Text

-- ---------------------------------------------------------------------------
-- UTF-8
-- ---------------------------------------------------------------------------

def utf8 (text : List Char) : Bytes := text.flatMap String.utf8EncodeChar

def decodeUtf8 (bs : Bytes) : Option (List Char) :=
  (String.fromUTF8? bs.toByteArray).map String.toList

@[simp] theorem utf8_nil : utf8 [] = [] := rfl

@[simp] theorem utf8_append (text text' : List Char) : utf8 (text ++ text') = utf8 text ++ utf8 text' :=
  List.flatMap_append

theorem utf8Encode_eq (text : List Char) : text.utf8Encode = (utf8 text).toByteArray := rfl

theorem utf8_injective {text text' : List Char} (h : utf8 text = utf8 text') : text = text' := by
  have hencode : text.utf8Encode = text'.utf8Encode := congrArg List.toByteArray h
  rw [← String.toByteArray_ofList, ← String.toByteArray_ofList, String.toByteArray_inj] at hencode
  exact String.ofList_injective hencode

theorem eq_nil_of_utf8 {text : List Char} (h : utf8 text = []) : text = [] :=
  utf8_injective (h.trans (by rfl : [] = utf8 []))

theorem utf8_of_decode (h : decodeUtf8 bs = some text) : utf8 text = bs := by
  obtain ⟨s, hs, rfl⟩ := Option.map_eq_some_iff.mp h
  unfold String.fromUTF8? at hs
  split at hs
  · obtain rfl := Option.some.inj hs
    exact List.toByteArray_inj.mp String.utf8Encode_toList
  · cases hs

theorem decodeUtf8_utf8 (text : List Char) : decodeUtf8 (utf8 text) = some text := by
  have hbytes : (utf8 text).toByteArray = (String.ofList text).toByteArray := by
    rw [String.toByteArray_ofList, utf8Encode_eq]
  unfold decodeUtf8 String.fromUTF8?
  rw [hbytes, dif_pos (String.ofList text).isValidUTF8, Option.map_some]
  exact congrArg some String.toList_ofList

def asciiChar (b : UInt8) : Char := Char.ofNat b.toNat

theorem utf8_asciiChar {b : UInt8} (h : b < 128) : utf8 [asciiChar b] = [b] := by
  have : ∀ n : Fin 128, utf8 [asciiChar (.ofNat n)] = [.ofNat n] := by decide
  simpa using this ⟨b.toNat, h⟩

theorem utf8_map_asciiChar {bs : Bytes} (h : ∀ b ∈ bs, b < 128) : utf8 (bs.map asciiChar) = bs := by
  induction bs with
  | nil => rfl
  | cons b bs ih =>
    rw [List.map_cons, ← List.singleton_append, utf8_append,
      utf8_asciiChar (h b List.mem_cons_self), ih fun b hb => h b (List.mem_cons_of_mem _ hb),
      List.singleton_append]

theorem decodeUtf8_of_lt {bs : Bytes} (h : ∀ b ∈ bs, b < 128) : decodeUtf8 bs = some (bs.map asciiChar) := by
  have hdecode := decodeUtf8_utf8 (bs.map asciiChar)
  rwa [utf8_map_asciiChar h] at hdecode

theorem utf8EncodeChar_of_lt {c : Char} {b : UInt8} (hb : b ∈ String.utf8EncodeChar c) (hlt : b < 128) :
    String.utf8EncodeChar c = [b] := by
  have hhigh : ∀ n : Nat, 128 ≤ n → n < 256 → b ≠ UInt8.ofNat n := by
    rintro n hn hn' rfl
    have hlt : n % 256 < 128 := hlt
    omega
  by_cases hascii : c.val.toNat ≤ 127
  · have hc : String.utf8EncodeChar c = [UInt8.ofNat c.val.toNat] := if_pos hascii
    rw [hc] at hb ⊢
    rw [List.mem_singleton.mp hb]
  · have hnone : b ∉ String.utf8EncodeChar c := by
      unfold String.utf8EncodeChar
      simp only [if_neg hascii]
      split
      · simp only [List.mem_cons, List.not_mem_nil, or_false, not_or]
        exact ⟨hhigh _ (by omega) (by omega), hhigh _ (by omega) (by omega)⟩
      split
      · simp only [List.mem_cons, List.not_mem_nil, or_false, not_or]
        exact ⟨hhigh _ (by omega) (by omega), hhigh _ (by omega) (by omega), hhigh _ (by omega) (by omega)⟩
      · simp only [List.mem_cons, List.not_mem_nil, or_false, not_or]
        exact ⟨hhigh _ (by omega) (by omega), hhigh _ (by omega) (by omega), hhigh _ (by omega) (by omega),
          hhigh _ (by omega) (by omega)⟩
    exact absurd hb hnone

theorem toNat_asciiChar (b : UInt8) : (asciiChar b).toNat = b.toNat := by
  have hvalid : b.toNat.isValidChar := .inl (Nat.lt_trans b.toNat_lt (by decide))
  rw [asciiChar, Char.ofNat, dif_pos hvalid]
  rfl

theorem eq_asciiChar {c : Char} {b : UInt8} (hb : b ∈ String.utf8EncodeChar c) (hlt : b < 128) :
    c = asciiChar b := by
  have heq : utf8 [c] = utf8 [asciiChar b] := by
    rw [utf8_asciiChar hlt]
    simp [utf8, utf8EncodeChar_of_lt hb hlt]
  simpa using utf8_injective heq

theorem asciiChar_mem {text : List Char} {b : UInt8} (hb : b ∈ utf8 text) (hlt : b < 128) :
    asciiChar b ∈ text := by
  obtain ⟨c, hc, hb⟩ := List.mem_flatMap.mp hb
  rwa [← eq_asciiChar hb hlt]

theorem getLast?_utf8 {text : List Char} {c : Char} {b : UInt8} (hc : String.utf8EncodeChar c = [b]) (hb : b < 128)
    (h : (utf8 text).getLast? = some b) : text.getLast? = some c := by
  rcases List.eq_nil_or_concat text with rfl | ⟨before, d, rfl⟩
  · cases h
  · rw [List.concat_eq_append] at h ⊢
    have hd : utf8 [d] = String.utf8EncodeChar d := by simp [utf8]
    rw [utf8_append, hd, List.getLast?_append_of_ne_nil _ String.utf8EncodeChar_ne_nil] at h
    have hmem := utf8EncodeChar_of_lt (List.mem_of_getLast? h) hb
    have heq : utf8 [d] = utf8 [c] := by rw [hd, hmem]; simp [utf8, hc]
    have : d = c := by simpa using utf8_injective heq
    rw [this]
    simp

theorem utf8_length (s : String) : (utf8 s.toList).length = s.utf8ByteSize := by
  have hbytes : (utf8 s.toList).toByteArray = s.toByteArray := String.utf8Encode_toList
  rw [← String.size_toByteArray, ← hbytes, List.size_toByteArray]

-- ---------------------------------------------------------------------------
-- Messages
-- ---------------------------------------------------------------------------

def Mentions (message text : String) : Prop := text.toList <:+: message.toList

theorem mentions_self (text : String) : Mentions text text := List.infix_rfl

theorem Mentions.append (h : Mentions message text) (rest : String) :
    Mentions (message ++ rest) text := by
  rw [Mentions, String.toList_append]
  exact h.trans (List.prefix_append _ _).isInfix

theorem Mentions.prepend (h : Mentions message text) (front : String) :
    Mentions (front ++ message) text := by
  rw [Mentions, String.toList_append]
  exact h.trans (List.suffix_append _ _).isInfix

theorem mentions_intercalate (h : text ∈ texts) (separator : String) :
    Mentions (separator.intercalate texts) text := by
  rw [Mentions, String.toList_intercalate]
  induction texts with
  | nil => cases h
  | cons first rest ih =>
    cases rest with
    | nil =>
      obtain rfl := List.mem_singleton.mp h
      simp
    | cons second rest =>
      rw [List.map_cons, List.map_cons, List.intercalate_cons_cons]
      rcases List.mem_cons.mp h with rfl | hrest
      · rw [List.append_assoc]
        exact (List.prefix_append _ _).isInfix
      · exact (ih hrest).trans (List.suffix_append _ _).isInfix

-- ---------------------------------------------------------------------------
-- Prefix codes
-- ---------------------------------------------------------------------------

/-- No code word is the beginning of another one. -/
def PrefixCode (code : List β → Prop) : Prop :=
  ∀ x x' rest rest', code x → code x' → x ++ rest = x' ++ rest' → x = x' ∧ rest = rest'

theorem PrefixCode.intercalate_injective {code : List β → Prop} (hcode : PrefixCode code) {sep : List β}
    {l l' : List (List β)} (hlen : l.length = l'.length) (hl : ∀ x ∈ l, code x) (hl' : ∀ x ∈ l', code x)
    (h : sep.intercalate l = sep.intercalate l') : l = l' := by
  induction l generalizing l' with
  | nil => exact (List.length_eq_zero_iff.mp hlen.symm).symm
  | cons x l ih =>
    cases l' with
    | nil => cases hlen
    | cons x' l' =>
      have hx := hl x List.mem_cons_self
      have hx' := hl' x' List.mem_cons_self
      cases l with
      | nil =>
        obtain rfl : l' = [] := List.length_eq_zero_iff.mp (Nat.succ.inj hlen).symm
        rw [List.intercalate_singleton, List.intercalate_singleton] at h
        rw [h]
      | cons y l =>
        cases l' with
        | nil => cases hlen
        | cons y' l' =>
          rw [List.intercalate_cons_cons, List.intercalate_cons_cons, List.append_assoc,
            List.append_assoc] at h
          obtain ⟨rfl, hrest⟩ := hcode _ _ _ _ hx hx' h
          rw [ih (Nat.succ.inj hlen) (fun z hz => hl z (List.mem_cons_of_mem _ hz))
            (fun z hz => hl' z (List.mem_cons_of_mem _ hz)) (List.append_cancel_left hrest)]

-- ---------------------------------------------------------------------------
-- Values between literals
-- ---------------------------------------------------------------------------

/-- Literals, each in front of a slot, and the literal behind the last one. -/
structure Pattern (β κ : Type) where
  slots : List (List β × κ)
  ending : List β
  deriving DecidableEq, Repr

namespace Pattern

variable {β γ κ : Type}

def fillSlots (value : κ → List β) (ending : List β) : List (List β × κ) → List β
  | [] => ending
  | (literal, k) :: slots => literal ++ value k ++ fillSlots value ending slots

def fill (p : Pattern β κ) (value : κ → List β) : List β := fillSlots value p.ending p.slots

def keys (p : Pattern β κ) : List κ := p.slots.map (·.2)

def mapLiterals (f : List β → List γ) (p : Pattern β κ) : Pattern γ κ :=
  ⟨p.slots.map fun s => (f s.1, s.2), f p.ending⟩

theorem keys_mapLiterals (f : List β → List γ) (p : Pattern β κ) : (p.mapLiterals f).keys = p.keys := by
  simp [keys, mapLiterals]

theorem map_fill {f : List β → List γ} {p : Pattern β κ} {value : κ → List β} {value' : κ → List γ}
    (hslot : ∀ s ∈ p.slots, ∀ rest, f (s.1 ++ value s.2 ++ rest) = f s.1 ++ value' s.2 ++ f rest) :
    f (p.fill value) = (p.mapLiterals f).fill value' := by
  obtain ⟨slots, ending⟩ := p
  show f (fillSlots value ending slots) = fillSlots value' (f ending) (slots.map _)
  induction slots with
  | nil => rfl
  | cons s slots ih =>
    rw [List.map_cons, fillSlots, fillSlots, hslot s List.mem_cons_self,
      ih fun s hs => hslot s (List.mem_cons_of_mem _ hs)]

theorem fill_congr {p : Pattern β κ} {value value' : κ → List β} (h : ∀ k ∈ p.keys, value k = value' k) :
    p.fill value = p.fill value' := by
  obtain ⟨slots, ending⟩ := p
  show fillSlots value ending slots = fillSlots value' ending slots
  induction slots with
  | nil => rfl
  | cons s slots ih =>
    rw [fillSlots, fillSlots, h s.2 (List.mem_map_of_mem List.mem_cons_self),
      ih fun k hk => h k (List.mem_cons_of_mem _ hk)]

theorem mem_fill {p : Pattern β κ} {value : κ → List β} (hb : b ∈ p.fill value) :
    (∃ s ∈ p.slots, b ∈ s.1 ∨ b ∈ value s.2) ∨ b ∈ p.ending := by
  obtain ⟨slots, ending⟩ := p
  change b ∈ fillSlots value ending slots at hb
  induction slots with
  | nil => exact .inr hb
  | cons s slots ih =>
    simp only [fillSlots, List.mem_append] at hb
    rcases hb with hb | hb
    · exact .inl ⟨s, List.mem_cons_self, hb⟩
    · rcases ih hb with ⟨t, ht, hb⟩ | hb
      · exact .inl ⟨t, List.mem_cons_of_mem _ ht, hb⟩
      · exact .inr hb

theorem count_fill [DecidableEq β] {p : Pattern β κ} {value value' : κ → List β} {b : β}
    (h : ∀ k ∈ p.keys, b ∉ value k ∧ b ∉ value' k) : (p.fill value).count b = (p.fill value').count b := by
  obtain ⟨slots, ending⟩ := p
  show (fillSlots value ending slots).count b = (fillSlots value' ending slots).count b
  induction slots with
  | nil => rfl
  | cons s slots ih =>
    have hs := h s.2 (List.mem_map_of_mem List.mem_cons_self)
    simp only [fillSlots, List.count_append, List.count_eq_zero.mpr hs.1, List.count_eq_zero.mpr hs.2,
      ih fun k hk => h k (List.mem_cons_of_mem _ hk)]

/-- Between any two slots stands a separating symbol. -/
def Separated (separates : β → Prop) (p : Pattern β κ) : Prop :=
  ∀ s ∈ p.slots.tail, ∃ b ∈ s.1, separates b

/-- A literal with a separating symbol tells where the text in front of it ends. -/
theorem append_literal_inj {separates : β → Prop} [DecidablePred separates] {u u' literal rest rest' : List β}
    (hu : ∀ b ∈ u, ¬ separates b) (hu' : ∀ b ∈ u', ¬ separates b) (hlit : ∃ b ∈ literal, separates b)
    (h : u ++ (literal ++ rest) = u' ++ (literal ++ rest')) : u = u' ∧ rest = rest' := by
  have hread : ∀ {v : List β} (rest), (∀ b ∈ v, ¬ separates b) →
      (v ++ (literal ++ rest)).takeWhile (fun b => !decide (separates b)) =
        v ++ literal.takeWhile fun b => !decide (separates b) := by
    intro v rest hv
    rw [List.takeWhile_append_of_pos fun b hb => by simpa using hv b hb, List.takeWhile_append, if_neg]
    intro hlen
    obtain ⟨b, hmem, hb⟩ := hlit
    rw [← (List.takeWhile_prefix _).eq_of_length hlen] at hmem
    simpa [hb] using List.mem_takeWhile_imp hmem
  have htake := congrArg (List.takeWhile fun b => !decide (separates b)) h
  rw [hread rest hu, hread rest' hu'] at htake
  obtain rfl := List.append_cancel_right htake
  exact ⟨rfl, List.append_cancel_left (List.append_cancel_left h)⟩

theorem fill_injective {separates : β → Prop} [DecidablePred separates] {p : Pattern β κ}
    {value value' : κ → List β} (hsep : p.Separated separates)
    (hv : ∀ k ∈ p.keys, ∀ b ∈ value k, ¬ separates b)
    (hv' : ∀ k ∈ p.keys, ∀ b ∈ value' k, ¬ separates b) (h : p.fill value = p.fill value') :
    ∀ k ∈ p.keys, value k = value' k := by
  obtain ⟨slots, ending⟩ := p
  change fillSlots value ending slots = fillSlots value' ending slots at h
  intro k hk
  obtain ⟨s, hs, rfl⟩ := List.mem_map.mp hk
  clear hk
  induction slots with
  | nil => cases hs
  | cons first slots ih =>
    have hfirst := hv first.2 (List.mem_map_of_mem List.mem_cons_self)
    have hfirst' := hv' first.2 (List.mem_map_of_mem List.mem_cons_self)
    simp only [fillSlots, List.append_assoc, List.append_cancel_left_eq] at h
    cases slots with
    | nil =>
      obtain rfl := List.mem_singleton.mp hs
      exact List.append_cancel_right h
    | cons second slots =>
      have hsplit : ∀ v : κ → List β, fillSlots v ending (second :: slots) =
          second.1 ++ (v second.2 ++ fillSlots v ending slots) := fun v => by simp [fillSlots]
      rw [hsplit, hsplit] at h
      obtain ⟨heq, hrest⟩ := append_literal_inj hfirst hfirst' (hsep second List.mem_cons_self) h
      rcases List.mem_cons.mp hs with rfl | hs
      · exact heq
      · refine ih (fun t ht => hsep t (List.mem_of_mem_tail ht))
          (fun k hk => hv k (List.mem_cons_of_mem _ hk)) (fun k hk => hv' k (List.mem_cons_of_mem _ hk)) ?_ hs
        rw [hsplit, hsplit, hrest]

end Pattern

end SilkChiffon.Text
