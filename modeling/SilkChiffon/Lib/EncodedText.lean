import SilkChiffon.Lib.Text

/-!
# Percent-encoded texts

A text whose escapes spell characters is read run by run: the bytes of escapes
that follow one another are decoded together, every other byte is read on its
own.
-/

namespace SilkChiffon.Percent

open Text (decodeUtf8)

variable {β γ : Type}

/-- Reading, with the first `skip` bytes already read and the bytes of a run of
escapes behind. -/
def readRunsFrom (plain : UInt8 → List β) (decoded : List Char → List β) : Nat → Bytes → Bytes → Option (List β)
  | _, run, [] => (decodeUtf8 run).map decoded
  | skip + 1, run, _ :: rest => readRunsFrom plain decoded skip run rest
  | 0, run, b :: rest =>
    if b = percent then
      (escaped rest).bind fun x => readRunsFrom plain decoded 2 (run ++ [x]) rest
    else
      (decodeUtf8 run).bind fun text =>
        (readRunsFrom plain decoded 0 [] rest).map fun more => decoded text ++ (plain b ++ more)

/-- None if an escape is not complete or a run is not UTF-8. -/
def readRuns (plain : UInt8 → List β) (decoded : List Char → List β) (bs : Bytes) : Option (List β) :=
  readRunsFrom plain decoded 0 [] bs

variable {plain : UInt8 → List β} {decoded : List Char → List β}

theorem readRunsFrom_eq_drop (skip : Nat) (run bs : Bytes) :
    readRunsFrom plain decoded skip run bs = readRunsFrom plain decoded 0 run (bs.drop skip) := by
  induction skip generalizing bs with
  | zero => rfl
  | succ skip ih =>
    cases bs with
    | nil => rfl
    | cons b rest => exact ih rest

theorem readRunsFrom_plain (hb : b ≠ percent) (run rest : Bytes) :
    readRunsFrom plain decoded 0 run (b :: rest) = (decodeUtf8 run).bind fun text =>
      (readRunsFrom plain decoded 0 [] rest).map fun more => decoded text ++ (plain b ++ more) := by
  rw [readRunsFrom, if_neg hb]

theorem readRunsFrom_percent (run rest : Bytes) : readRunsFrom plain decoded 0 run (percent :: rest) =
    (escaped rest).bind fun x => readRunsFrom plain decoded 0 (run ++ [x]) (rest.drop 2) := by
  rw [readRunsFrom, if_pos rfl]
  congr 1
  funext x
  exact readRunsFrom_eq_drop 2 _ _

/-- What is made of each piece may be made of the whole. -/
theorem readRunsFrom_flatMap (f : β → List γ) (skip : Nat) (run bs : Bytes) :
    readRunsFrom (fun b => (plain b).flatMap f) (fun text => (decoded text).flatMap f) skip run bs =
      (readRunsFrom plain decoded skip run bs).map (·.flatMap f) := by
  induction bs generalizing skip run with
  | nil => simp [readRunsFrom, Function.comp_def]
  | cons b rest ih =>
    cases skip with
    | succ skip => exact ih skip run
    | zero =>
      by_cases hb : b = percent
      · subst hb
        rw [readRunsFrom_percent, readRunsFrom_percent]
        cases escaped rest with
        | none => rfl
        | some x =>
          simp only [Option.bind_some, ← readRunsFrom_eq_drop]
          exact ih 2 _
      · rw [readRunsFrom_plain hb, readRunsFrom_plain hb, ih]
        cases decodeUtf8 run with
        | none => rfl
        | some text => simp [Option.map_map, Function.comp_def]

theorem readRuns_flatMap (f : β → List γ) (bs : Bytes) :
    readRuns (fun b => (plain b).flatMap f) (fun text => (decoded text).flatMap f) bs =
      (readRuns plain decoded bs).map (·.flatMap f) :=
  readRunsFrom_flatMap f 0 [] bs

/-- No run reaches across a byte that is in no escape. -/
theorem readRunsFrom_append (hne : c ≠ percent) (hdigit : hexValue c = none) (run before after : Bytes) :
    readRunsFrom plain decoded 0 run (before ++ c :: after) = (readRunsFrom plain decoded 0 run before).bind fun l =>
      (readRunsFrom plain decoded 0 [] after).map fun l' => l ++ (plain c ++ l') := by
  match before with
  | [] =>
    rw [List.nil_append, readRunsFrom_plain hne, readRunsFrom]
    cases decodeUtf8 run <;> rfl
  | b :: before =>
    by_cases hb : b = percent
    · subst hb
      rw [List.cons_append, readRunsFrom_percent, readRunsFrom_percent]
      match before with
      | [] =>
        have hnone : escaped (c :: after) = none := by cases after <;> simp [escaped, hdigit]
        rw [List.nil_append, hnone]
        rfl
      | [high] =>
        have hnone : escaped ([high] ++ c :: after) = none := by simp [escaped, hdigit]
        rw [hnone]
        rfl
      | high :: low :: before =>
        have hsome : escaped (high :: low :: before ++ c :: after) = escaped (high :: low :: before) := rfl
        rw [hsome]
        cases escaped (high :: low :: before) with
        | none => rfl
        | some x => exact readRunsFrom_append hne hdigit _ before after
    · rw [List.cons_append, readRunsFrom_plain hb, readRunsFrom_plain hb, readRunsFrom_append hne hdigit]
      cases decodeUtf8 run with
      | none => rfl
      | some text =>
        cases readRunsFrom plain decoded 0 [] before with
        | none => rfl
        | some l => simp [Option.map_map, Function.comp_def]
termination_by before.length

theorem readRuns_append (hne : c ≠ percent) (hdigit : hexValue c = none)
    (h : readRuns plain decoded (before ++ c :: after) = some whole) :
    ∃ l l', readRuns plain decoded before = some l ∧ readRuns plain decoded after = some l' ∧
      whole = l ++ (plain c ++ l') := by
  rw [readRuns, readRunsFrom_append hne hdigit] at h
  obtain ⟨l, hl, h⟩ := Option.bind_eq_some_iff.mp h
  obtain ⟨l', hl', rfl⟩ := Option.map_eq_some_iff.mp h
  exact ⟨l, l', hl, hl', rfl⟩

theorem mem_readRunsFrom (h : readRunsFrom plain decoded skip run bs = some whole) (hx : x ∈ whole) :
    (∃ b ∈ bs, x ∈ plain b) ∨ ∃ text, x ∈ decoded text := by
  induction bs generalizing skip run whole with
  | nil =>
    simp only [readRunsFrom] at h
    obtain ⟨text, _, rfl⟩ := Option.map_eq_some_iff.mp h
    exact .inr ⟨text, hx⟩
  | cons b rest ih =>
    have hrest : ∀ {skip run whole}, readRunsFrom plain decoded skip run rest = some whole → x ∈ whole →
        (∃ c ∈ b :: rest, x ∈ plain c) ∨ ∃ text, x ∈ decoded text := fun h hx =>
      (ih h hx).imp_left fun hc => hc.imp fun c h => ⟨List.mem_cons_of_mem _ h.1, h.2⟩
    cases skip with
    | succ skip => exact hrest h hx
    | zero =>
      simp only [readRunsFrom] at h
      split at h
      · obtain ⟨byte, _, h⟩ := Option.bind_eq_some_iff.mp h
        exact hrest h hx
      · obtain ⟨text, _, h⟩ := Option.bind_eq_some_iff.mp h
        obtain ⟨more, hmore, rfl⟩ := Option.map_eq_some_iff.mp h
        rcases List.mem_append.mp hx with hx | hx
        · exact .inr ⟨text, hx⟩
        · rcases List.mem_append.mp hx with hx | hx
          · exact .inl ⟨b, List.mem_cons_self, hx⟩
          · exact hrest hmore hx

end SilkChiffon.Percent
