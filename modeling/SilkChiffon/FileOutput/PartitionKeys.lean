import SilkChiffon.FileOutput.PartitionRuns
import SilkChiffon.Lib.Text

/-!
# Partition keys

A key is one component for each column. Components carry the length of their
text, so a key tells its components, and a component its text.
-/

namespace SilkChiffon.FileOutput

open Arrow

def keyComponent (format : Formatter α) : Option (Cell α) → String
  | some none => "!"
  | cell =>
    let v := formatScalarValue format cell
    toString v.utf8ByteSize ++ ":" ++ v

theorem partitionKey_eq (format : Formatter α) (values : PartitionValues α) (columnOrder : List String) :
    partitionKey format values columnOrder =
      ",".intercalate (columnOrder.map fun column => keyComponent format (values.get column)) := rfl

-- ---------------------------------------------------------------------------
-- Components
-- ---------------------------------------------------------------------------

def counted (v : String) : List Char := Nat.toDigits 10 v.utf8ByteSize ++ ([':'] ++ v.toList)

def IsComponent (text : List Char) : Prop := text = ['!'] ∨ ∃ v, text = counted v

theorem keyComponent_toList (format : Formatter α) (cell : Option (Cell α)) :
    (keyComponent format cell).toList =
      match cell with
      | some none => ['!']
      | cell => counted (formatScalarValue format cell) := by
  unfold keyComponent
  split
  · rfl
  · simp [counted, Nat.toList_repr]

theorem isComponent_keyComponent (format : Formatter α) (cell : Option (Cell α)) :
    IsComponent (keyComponent format cell).toList := by
  rw [keyComponent_toList]
  split
  · exact .inl rfl
  · exact .inr ⟨_, rfl⟩

theorem counted_append_inj (h : counted v ++ rest = counted v' ++ rest') : v = v' ∧ rest = rest' := by
  have hdigits : ∀ n, ∀ c ∈ Nat.toDigits 10 n, ¬ c = ':' := by
    intro n c hc heq
    have := Nat.isDigit_of_mem_toDigits (by decide) (by decide) hc
    rw [heq] at this
    cases this
  simp only [counted, List.append_assoc] at h
  obtain ⟨hlen, hrest⟩ := Text.Pattern.append_literal_inj (hdigits _) (hdigits _) ⟨':', by simp, rfl⟩ h
  have hsize : v.utf8ByteSize = v'.utf8ByteSize := by
    have := congrArg (Nat.ofDigitChars 10 · 0) hlen
    simpa only [Nat.ofDigitChars_ten_toDigits] using this
  have hbytes := congrArg Text.utf8 hrest
  rw [Text.utf8_append, Text.utf8_append] at hbytes
  have heq := (List.append_inj hbytes (by rw [Text.utf8_length, Text.utf8_length, hsize])).1
  have hv : v = v' := String.toList_injective (Text.utf8_injective heq)
  subst hv
  exact ⟨rfl, List.append_cancel_left hrest⟩

theorem bang_append_ne (v : String) (rest rest' : List Char) : ['!'] ++ rest ≠ counted v ++ rest' := by
  intro h
  have hne : Nat.toDigits 10 v.utf8ByteSize ≠ [] := Nat.toDigits_ne_nil
  obtain ⟨first, digits, hsplit⟩ := List.exists_cons_of_ne_nil hne
  have hdigit : first.isDigit := Nat.isDigit_of_mem_toDigits (b := 10) (by decide) (by decide)
    (hsplit ▸ List.mem_cons_self)
  rw [counted, hsplit] at h
  obtain ⟨rfl, -⟩ := List.cons.inj h
  cases hdigit

theorem isComponent_prefixCode : Text.PrefixCode IsComponent := by
  rintro x x' rest rest' (rfl | ⟨v, rfl⟩) (rfl | ⟨v', rfl⟩) h
  · exact ⟨rfl, List.append_cancel_left h⟩
  · exact absurd h (bang_append_ne v' rest rest')
  · exact absurd h.symm (bang_append_ne v rest' rest)
  · obtain ⟨rfl, hrest⟩ := counted_append_inj h
    exact ⟨rfl, hrest⟩

theorem partitionKey_inj {format : Formatter α} {a b : PartitionValues α} {columnOrder : List String} :
    partitionKey format a columnOrder = partitionKey format b columnOrder ↔
      ∀ column ∈ columnOrder, keyComponent format (a.get column) = keyComponent format (b.get column) := by
  rw [partitionKey_eq, partitionKey_eq]
  constructor
  · intro h
    have hchars := congrArg String.toList h
    simp only [String.toList_intercalate, List.map_map] at hchars
    have hcode : ∀ values : PartitionValues α, ∀ x ∈ columnOrder.map
        (String.toList ∘ fun column => keyComponent format (values.get column)), IsComponent x := by
      intro values x hx
      obtain ⟨column, _, rfl⟩ := List.mem_map.mp hx
      exact isComponent_keyComponent format _
    have hlist := isComponent_prefixCode.intercalate_injective (by simp) (hcode a) (hcode b) hchars
    intro column hcolumn
    exact String.toList_injective (List.map_inj_left.mp hlist column hcolumn)
  · intro h
    rw [List.map_congr_left h]

theorem keyComponent_null (format : Formatter α) : (keyComponent format (some none)).toList = ['!'] := by
  rw [keyComponent_toList]

theorem keyComponent_text {cell : Option (Cell α)} (h : cell ≠ some none) (format : Formatter α) :
    (keyComponent format cell).toList = counted (formatScalarValue format cell) := by
  rw [keyComponent_toList]
  split
  · exact absurd rfl h
  · rfl

theorem keyComponent_eq_iff {format : Formatter α} {cell cell' : Option (Cell α)} :
    keyComponent format cell = keyComponent format cell' ↔ (cell = some none ∧ cell' = some none) ∨
      (cell ≠ some none ∧ cell' ≠ some none ∧ formatScalarValue format cell = formatScalarValue format cell') := by
  have hnone : ∀ {c : Option (Cell α)}, c ≠ some none → keyComponent format (some none) ≠ keyComponent format c := by
    intro c hc h
    have hchars := congrArg String.toList h
    rw [keyComponent_null, keyComponent_text hc] at hchars
    exact bang_append_ne _ [] [] (by simpa using hchars)
  by_cases hcell : cell = some none
  · subst hcell
    by_cases hcell' : cell' = some none
    · simp [hcell']
    · simp [hcell', hnone hcell']
  · by_cases hcell' : cell' = some none
    · subst hcell'
      simp [hcell, (hnone hcell).symm]
    · constructor
      · intro h
        have hchars := congrArg String.toList h
        rw [keyComponent_text hcell, keyComponent_text hcell'] at hchars
        have hsplit : counted (formatScalarValue format cell) ++ [] =
            counted (formatScalarValue format cell') ++ [] := by simpa using hchars
        exact .inr ⟨hcell, hcell', (counted_append_inj hsplit).1⟩
      · rintro (⟨h, -⟩ | ⟨-, -, htext⟩)
        · exact absurd h hcell
        · apply String.toList_injective
          rw [keyComponent_text hcell, keyComponent_text hcell', htext]

theorem keyComponent_inj {format : Formatter α} {cell cell' : Cell α} :
    keyComponent format (some cell) = keyComponent format (some cell') ↔
      (cell = none ↔ cell' = none) ∧
        formatScalarValue format (some cell) = formatScalarValue format (some cell') := by
  rw [keyComponent_eq_iff]
  cases cell <;> cases cell' <;> simp [formatScalarValue]

-- ---------------------------------------------------------------------------
-- Keys
-- ---------------------------------------------------------------------------

def SameColumns (format : Formatter α) (columnOrder : List String) (a b : PartitionValues α) : Prop :=
  ∀ column ∈ columnOrder, (a.get column = some none ∧ b.get column = some none) ∨
    (a.get column ≠ some none ∧ b.get column ≠ some none ∧
      formatScalarValue format (a.get column) = formatScalarValue format (b.get column))

/-- A key tells the text of every column, and the nulls from the texts. -/
theorem partition_key_injective (format : Formatter α) (columnOrder : List String) (a b : PartitionValues α) :
    partitionKey format a columnOrder = partitionKey format b columnOrder ↔
      SameColumns format columnOrder a b := by
  rw [partitionKey_inj]
  exact forall₂_congr fun column _ => keyComponent_eq_iff

/-- A null is not the text of its name, and the length of a text is counted in
bytes. -/
example : partitionKey some [("region", none), ("city", some "é,1:a")] ["region", "city"] = "!,6:é,1:a" ∧
    partitionKey some [("region", some "null"), ("city", some "")] ["region", "city"] = "4:null,0:" := by
  decide

end SilkChiffon.FileOutput
