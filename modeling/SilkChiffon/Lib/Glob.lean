import Mathlib.Data.List.Forall2
import Mathlib.Data.Option.Basic
import Mathlib.Order.Basic
import Mathlib.Tactic.Common

/-!
# Glob patterns

A pattern is read from raw and literal symbols: a raw symbol may be a
metacharacter, a literal one stands for its character. Wildcards and classes do
not match a separator. Writing the literal symbols in brackets gives a text that
reads as the symbols do, wherever no literal symbol is written into a class.
-/

namespace SilkChiffon.Glob

inductive Symbol
  | raw (c : Char)
  | literal (c : Char)
  deriving DecidableEq, Repr

def Symbol.char : Symbol → Char
  | raw c => c
  | literal c => c

inductive Specifier
  | single (c : Char)
  | range (first last : Char)
  deriving DecidableEq, Repr

inductive Token
  | char (c : Char)
  | anyChar
  | anySequence
  | anyRecursive
  | within (specifiers : List Specifier)
  | except (specifiers : List Specifier)
  deriving DecidableEq, Repr

-- ---------------------------------------------------------------------------
-- Matching
-- ---------------------------------------------------------------------------

def Specifier.has (c : Char) : Specifier → Bool
  | single d => c = d
  | range first last => first ≤ c ∧ c ≤ last

def one (p : Char → Bool) : List Char → Bool
  | [c] => c ≠ '/' && p c
  | _ => false

/-- What a token may match, in front of the rest of a path. -/
def Token.covers : Token → List Char → List Char → Bool
  | char c, piece, _ => piece = [c]
  | anyChar, piece, _ => one (fun _ => true) piece
  | anySequence, piece, _ => !piece.contains '/'
  | anyRecursive, piece, rest => piece.isEmpty || piece.getLast? = some '/' || rest.isEmpty
  | within specifiers, piece, _ => one (fun c => specifiers.any (·.has c)) piece
  | except specifiers, piece, _ => one (fun c => !specifiers.any (·.has c)) piece

def matchTokens : List Token → List Char → Bool
  | [], path => path.isEmpty
  | t :: ts, path => (List.range (path.length + 1)).any fun n =>
      t.covers (path.take n) (path.drop n) && matchTokens ts (path.drop n)

theorem matchTokens_cons : matchTokens (t :: ts) path = true ↔
    ∃ piece rest, path = piece ++ rest ∧ t.covers piece rest = true ∧ matchTokens ts rest = true := by
  simp only [matchTokens, List.any_eq_true, List.mem_range, Bool.and_eq_true]
  constructor
  · rintro ⟨n, _, hcovers, hrest⟩
    exact ⟨_, _, (List.take_append_drop n path).symm, hcovers, hrest⟩
  · rintro ⟨piece, rest, rfl, hcovers, hrest⟩
    have hlength : piece.length < (piece ++ rest).length + 1 := by
      rw [List.length_append]
      omega
    exact ⟨piece.length, hlength, by simpa using ⟨hcovers, hrest⟩⟩

def Token.Like (t t' : Token) : Prop := ∀ piece rest, t.covers piece rest = t'.covers piece rest

theorem Token.like_single (h : c ≠ '/') : (char c).Like (within [.single c]) := by
  intro piece rest
  rw [Bool.eq_iff_iff]
  match piece with
  | [] | _ :: _ :: _ => simp [covers, one]
  | [d] =>
    simp only [covers, one, List.any_cons, List.any_nil, Specifier.has, Bool.or_false, Bool.and_eq_true,
      decide_eq_true_eq, List.cons.injEq, and_true]
    exact ⟨fun hd => ⟨hd ▸ h, hd⟩, And.right⟩

theorem matchTokens_congr (h : List.Forall₂ Token.Like ts ts') : matchTokens ts path = matchTokens ts' path := by
  induction h generalizing path with
  | nil => rfl
  | cons ht _ ih => simp only [matchTokens, ht _ _, ih]

-- ---------------------------------------------------------------------------
-- Reading
-- ---------------------------------------------------------------------------

/-- Where the bracket is that closes a class. The first symbol is in the class. -/
def closing : List Symbol → Option Nat
  | [] => none
  | _ :: rest => (rest.findIdx? (· = .raw ']')).map (· + 1)

def specifiers : List Symbol → List Specifier
  | x :: dash :: y :: rest =>
    if dash = .raw '-' then .range x.char y.char :: specifiers rest
    else .single x.char :: specifiers (dash :: y :: rest)
  | x :: rest => .single x.char :: specifiers rest
  | [] => []

def classBody : List Symbol → Bool × List Symbol
  | [] => (false, [])
  | first :: rest => if first = .raw '!' then (true, rest) else (false, first :: rest)

def classToken (negated : Bool) (content : List Symbol) : Token :=
  if negated then .except (specifiers content) else .within (specifiers content)

/-- The token that starts with a symbol, and how many symbols behind it belong to
it. `border` tells that a path component starts here. -/
def nextToken (border : Bool) (s : Symbol) (rest : List Symbol) : Option (Token × Nat) :=
  if s = .raw '?' then some (.anyChar, 0)
  else if s = .raw '*' then
    if rest.head? = some (.raw '*') then
      if border then
        match rest.tail with
        | [] => some (.anyRecursive, 1)
        | next :: _ => if next.char = '/' then some (.anyRecursive, 2) else none
      else none
    else some (.anySequence, 0)
  else if s = .raw '[' then
    let (negated, body) := classBody rest
    (closing body).map fun n => (classToken negated (body.take n), if negated then n + 2 else n + 1)
  else some (.char s.char, 0)

/-- Reading, with the first `skip` symbols already read. -/
def tokensFrom : Nat → Bool → List Symbol → Option (List Token)
  | _, _, [] => some []
  | skip + 1, _, s :: rest => tokensFrom skip (s.char = '/') rest
  | 0, border, s :: rest =>
    match nextToken border s rest with
    | none => none
    | some (t, n) => (tokensFrom n (s.char = '/') rest).map (t :: ·)

def tokens (symbols : List Symbol) : Option (List Token) := tokensFrom 0 true symbols

def parse (text : List Char) : Option (List Token) := tokens (text.map .raw)

def borderAfter (border : Bool) (symbols : List Symbol) : Bool :=
  symbols.foldl (fun _ s => s.char = '/') border

theorem borderAfter_append (border : Bool) (symbols : List Symbol) (s : Symbol) :
    borderAfter border (symbols ++ [s]) = decide (s.char = '/') := by
  simp [borderAfter]

theorem tokensFrom_eq_drop (skip : Nat) (border : Bool) (symbols : List Symbol) :
    tokensFrom skip border symbols =
      tokensFrom 0 (borderAfter border (symbols.take skip)) (symbols.drop skip) := by
  induction skip generalizing border symbols with
  | zero => rfl
  | succ skip ih =>
    cases symbols with
    | nil => rfl
    | cons s rest => exact ih _ rest

theorem tokensFrom_cons (h : nextToken border s rest = some (t, n)) : tokensFrom 0 border (s :: rest) =
    (tokensFrom 0 (borderAfter (s.char = '/') (rest.take n)) (rest.drop n)).map (t :: ·) := by
  rw [tokensFrom, h, ← tokensFrom_eq_drop]

theorem tokensFrom_cons_none (h : nextToken border s rest = none) : tokensFrom 0 border (s :: rest) = none := by
  rw [tokensFrom, h]

-- ---------------------------------------------------------------------------
-- Writing literal symbols in brackets
-- ---------------------------------------------------------------------------

def isMeta (c : Char) : Bool := ['?', '*', '[', ']'].contains c

def escapeChar (c : Char) : List Char := if isMeta c then ['[', c, ']'] else [c]

def escape (text : List Char) : List Char := text.flatMap escapeChar

def Symbol.written : Symbol → List Char
  | raw c => [c]
  | literal c => escapeChar c

def splice (symbols : List Symbol) : List Char := symbols.flatMap Symbol.written

def Symbol.plain (s : Symbol) : Bool := s ≠ .raw '?' && s ≠ .raw '*' && s ≠ .raw '['

def Symbol.compiled : Symbol → Token
  | raw c => .char c
  | literal c => if isMeta c then .within [.single c] else .char c

theorem isMeta_eq : isMeta c = true ↔ c = '?' ∨ c = '*' ∨ c = '[' ∨ c = ']' := by
  simp [isMeta]

theorem Symbol.like_compiled (s : Symbol) : (Token.char s.char).Like s.compiled := by
  cases s with
  | raw c => exact fun _ _ => rfl
  | literal c =>
    by_cases hc : isMeta c = true
    · rw [compiled, if_pos hc]
      exact Token.like_single fun hsep : c = '/' => absurd hc (by simp [hsep, isMeta_eq])
    · rw [compiled, if_neg hc]
      exact fun _ _ => rfl

theorem nextToken_plain {s : Symbol} (h : s.plain = true) : nextToken border s rest = some (.char s.char, 0) := by
  simp only [Symbol.plain, Bool.and_eq_true, decide_eq_true_eq] at h
  simp [nextToken, h]

theorem tokensFrom_plain {s : Symbol} (h : s.plain = true) : tokensFrom 0 border (s :: rest) =
    (tokensFrom 0 (s.char = '/') rest).map (.char s.char :: ·) := by
  simpa [borderAfter] using tokensFrom_cons (nextToken_plain h)

theorem splice_cons (s : Symbol) (rest : List Symbol) : splice (s :: rest) = s.written ++ splice rest := rfl

theorem splice_append (symbols symbols' : List Symbol) : splice (symbols ++ symbols') = splice symbols ++ splice symbols' :=
  List.flatMap_append

theorem tokensFrom_written {s : Symbol} (h : s.plain = true) (rest : List Char) :
    tokensFrom 0 border ((s.written ++ rest).map .raw) =
      (tokensFrom 0 (s.char = '/') (rest.map .raw)).map (s.compiled :: ·) := by
  cases s with
  | raw c => exact tokensFrom_plain h
  | literal c =>
    by_cases hc : isMeta c = true
    · have hneg : c ≠ '!' := fun h => absurd hc (by simp [h, isMeta_eq])
      have hsep : c ≠ '/' := fun h => absurd hc (by simp [h, isMeta_eq])
      have hclosing : closing (.raw c :: .raw ']' :: rest.map .raw) = some 1 := by
        simp [closing, List.findIdx?_cons]
      have hnext : nextToken border (.raw '[') (.raw c :: .raw ']' :: rest.map .raw) =
          some (.within [.single c], 2) := by
        simp [nextToken, classBody, hneg, hclosing, classToken, specifiers, Symbol.char]
      have hwritten : (Symbol.literal c).written = ['[', c, ']'] := by
        simp [Symbol.written, escapeChar, hc]
      have hcompiled : (Symbol.literal c).compiled = .within [.single c] := if_pos hc
      rw [hwritten, hcompiled]
      have hstep := tokensFrom_cons hnext
      simpa [borderAfter, Symbol.char, hsep] using hstep
    · have hplain : (Symbol.raw c).plain = true := by
        simp only [isMeta_eq, not_or] at hc
        simp [Symbol.plain, hc]
      have hwritten : (Symbol.literal c).written = [c] := by simp [Symbol.written, escapeChar, hc]
      have hcompiled : (Symbol.literal c).compiled = .char c := if_neg hc
      rw [hwritten, hcompiled]
      exact tokensFrom_plain hplain

theorem tokensFrom_splice_append {symbols : List Symbol} (h : ∀ s ∈ symbols, s.plain = true) (rest : List Char) :
    tokensFrom 0 border ((splice symbols ++ rest).map .raw) =
      (tokensFrom 0 (borderAfter border symbols) (rest.map .raw)).map (symbols.map Symbol.compiled ++ ·) := by
  induction symbols generalizing border with
  | nil => simp [splice, borderAfter]
  | cons s symbols ih =>
    rw [splice_cons, List.append_assoc, tokensFrom_written (h s List.mem_cons_self),
      ih fun s hs => h s (List.mem_cons_of_mem _ hs), Option.map_map]
    rfl

theorem matchTokens_compiled_append {symbols : List Symbol} {ts : List Token} :
    matchTokens (symbols.map Symbol.compiled ++ ts) path = true ↔
      ∃ rest, path = symbols.map Symbol.char ++ rest ∧ matchTokens ts rest = true := by
  induction symbols generalizing path with
  | nil => simp
  | cons s symbols ih =>
    rw [List.map_cons, List.cons_append, matchTokens_cons]
    constructor
    · rintro ⟨piece, rest, rfl, hcovers, hrest⟩
      obtain ⟨rest', rfl, hmatch⟩ := ih.mp hrest
      rw [← s.like_compiled, Token.covers, decide_eq_true_eq] at hcovers
      exact ⟨rest', by simp [hcovers], hmatch⟩
    · rintro ⟨rest, rfl, hmatch⟩
      refine ⟨[s.char], symbols.map Symbol.char ++ rest, rfl, ?_, ih.mpr ⟨rest, rfl, hmatch⟩⟩
      rw [← s.like_compiled, Token.covers, decide_eq_true_eq]

-- ---------------------------------------------------------------------------
-- Classes
-- ---------------------------------------------------------------------------

/-- The symbols of a class whose text starts here, up to its bracket or the end. -/
def classContent (body : List Symbol) : List Symbol :=
  match closing body with
  | some n => body.take n
  | none => body

/-- A literal hyphen between two symbols, which its own text takes for a range. -/
def joinsRange : List Symbol → Bool
  | _ :: dash :: y :: rest =>
    if dash = .raw '-' then joinsRange rest else dash = .literal '-' || joinsRange (dash :: y :: rest)
  | _ => false

/-- A class that says something else once its literal symbols are written: one of
them is a metacharacter, negates the class or makes a range. -/
def misread (negated : Bool) (content : List Symbol) : Bool :=
  content.any (fun s => s = .literal s.char && isMeta s.char) ||
    (!negated && content.head? = some (.literal '!')) || joinsRange content

/-- No class is misread; the first `skip` symbols are already read. -/
def faithfulFrom : Nat → List Symbol → Bool
  | _, [] => true
  | skip + 1, _ :: rest => faithfulFrom skip rest
  | 0, s :: rest =>
    if s = .raw '[' then
      let (negated, body) := classBody rest
      !misread negated (classContent body) &&
        match closing body with
        | some n => faithfulFrom (if negated then n + 2 else n + 1) rest
        | none => true
    else faithfulFrom 0 rest

def faithful (symbols : List Symbol) : Bool := faithfulFrom 0 symbols

theorem faithfulFrom_eq_drop (skip : Nat) (symbols : List Symbol) :
    faithfulFrom skip symbols = faithfulFrom 0 (symbols.drop skip) := by
  induction skip generalizing symbols with
  | zero => rfl
  | succ skip ih =>
    cases symbols with
    | nil => rfl
    | cons s rest => exact ih rest

theorem closing_of_mem (x : Symbol) (after : List Symbol) (h : Symbol.raw ']' ∉ mid) :
    closing (x :: (mid ++ .raw ']' :: after)) = some (mid.length + 1) := by
  have hfind : (mid ++ Symbol.raw ']' :: after).findIdx? (· = .raw ']') = some mid.length := by
    rw [List.findIdx?_append, List.findIdx?_eq_none_iff.mpr (by grind)]
    simp [List.findIdx?_cons]
  rw [closing, hfind]
  rfl

theorem closing_of_notMem (h : Symbol.raw ']' ∉ mid) : closing (x :: mid) = none := by
  rw [closing, List.findIdx?_eq_none_iff.mpr (by grind)]
  rfl

/-- A class is closed behind its content, or never. -/
theorem closing_cases (body : List Symbol) : body = [] ∨
    (∃ x mid, body = x :: mid ∧ .raw ']' ∉ mid) ∨
      ∃ x mid after, body = x :: (mid ++ .raw ']' :: after) ∧ .raw ']' ∉ mid := by
  match body with
  | [] => exact .inl rfl
  | x :: rest =>
    by_cases h : .raw ']' ∈ rest
    · obtain ⟨mid, after, rfl, hmid⟩ := List.eq_append_cons_of_mem h
      exact .inr (.inr ⟨x, mid, after, rfl, hmid⟩)
    · exact .inr (.inl ⟨x, rest, rfl, h⟩)

/-- What symbols are read back as, once they are written. -/
def recoded (symbols : List Symbol) : List Symbol := (splice symbols).map .raw

theorem recoded_append (symbols symbols' : List Symbol) :
    recoded (symbols ++ symbols') = recoded symbols ++ recoded symbols' := by
  simp [recoded, splice_append]

theorem recoded_cons (s : Symbol) (symbols : List Symbol) :
    recoded (s :: symbols) = s.written.map .raw ++ recoded symbols := by
  simp [recoded, splice_cons]

def Unescaped (symbols : List Symbol) : Prop := ∀ s ∈ symbols, s.written = [s.char]

theorem recoded_of_unescaped (h : Unescaped symbols) : recoded symbols = symbols.map (.raw ·.char) := by
  induction symbols with
  | nil => rfl
  | cons s symbols ih =>
    rw [recoded_cons, h s List.mem_cons_self, ih fun s hs => h s (List.mem_cons_of_mem _ hs)]
    rfl

theorem bracket_notMem (h : Unescaped mid) (hmid : .raw ']' ∉ mid) :
    Symbol.raw ']' ∉ mid.map (.raw ·.char) := by
  intro hmem
  obtain ⟨s, hs, hchar⟩ := List.mem_map.mp hmem
  cases s with
  | raw c => exact hmid (hchar ▸ hs)
  | literal c =>
    have hwritten := h _ hs
    obtain rfl : c = ']' := by simpa [Symbol.char] using hchar
    exact absurd hwritten (by decide)

theorem specifiers_recoded (h : joinsRange content = false) :
    specifiers (content.map (.raw ·.char)) = specifiers content := by
  induction content using specifiers.induct with
  | case1 x y rest ih => simpa [joinsRange, specifiers, Symbol.char] using ih (by simpa [joinsRange] using h)
  | case2 x dash y rest hne ih =>
    simp only [joinsRange, if_neg hne, Bool.or_eq_false_iff, decide_eq_false_iff_not] at h
    have hdash : dash.char ≠ '-' := by
      intro hchar
      cases dash with
      | raw c => exact hne (congrArg _ hchar)
      | literal c => exact h.1 (congrArg _ hchar)
    have hraw : Symbol.raw dash.char ≠ .raw '-' := fun h => hdash (Symbol.raw.inj h)
    rw [specifiers, if_neg hne, ← ih h.2]
    exact if_neg hraw
  | case3 x rest hrest ih =>
    match rest with
    | [] | [_] => simp [specifiers, Symbol.char]
    | y :: z :: rest => exact absurd rfl (hrest y z rest)
  | case4 => rfl

theorem isMeta_of_misread (h : misread negated content = false) (hc : .literal c ∈ content) :
    isMeta c = false := by
  simp only [misread, Bool.or_eq_false_iff, List.any_eq_false] at h
  simpa [Symbol.char] using h.1.1 _ hc

theorem unescaped_of_misread (h : misread negated content = false) : Unescaped content := by
  intro s hs
  cases s with
  | raw c => rfl
  | literal c => simp [Symbol.written, escapeChar, isMeta_of_misread h hs, Symbol.char]

theorem joinsRange_of_misread (h : misread negated content = false) : joinsRange content = false := by
  simp only [misread, Bool.or_eq_false_iff] at h
  exact h.2

-- ---------------------------------------------------------------------------
-- Reading what was written
-- ---------------------------------------------------------------------------

@[simp] theorem recoded_nil : recoded [] = [] := rfl

@[simp] theorem recoded_raw (c : Char) (rest : List Symbol) : recoded (.raw c :: rest) = .raw c :: recoded rest := rfl

theorem recoded_literal (hc : isMeta c = false) (rest : List Symbol) :
    recoded (.literal c :: rest) = .raw c :: recoded rest := by
  simp [recoded_cons, Symbol.written, escapeChar, hc]

theorem recoded_meta (hc : isMeta c = true) (rest : List Symbol) :
    recoded (.literal c :: rest) = .raw '[' :: .raw c :: .raw ']' :: recoded rest := by
  simp [recoded_cons, Symbol.written, escapeChar, hc]

theorem head?_recoded (symbols : List Symbol) :
    (recoded symbols).head? = some (.raw '*') ↔ symbols.head? = some (.raw '*') := by
  match symbols with
  | [] => rfl
  | .raw c :: rest => rfl
  | .literal c :: rest =>
    cases hc : isMeta c with
    | true => simp [recoded_meta hc]
    | false =>
      have hne : c ≠ '*' := fun h => absurd hc (by simp [h, isMeta])
      simp [recoded_literal hc, hne]

def SameNext (border : Bool) (s : Symbol) (rest : List Symbol) : Prop :=
  (nextToken border s rest = none ∧ nextToken border s (recoded rest) = none) ∨
    ∃ t before after, rest = before ++ after ∧ nextToken border s rest = some (t, before.length) ∧
      nextToken border s (recoded rest) = some (t, (recoded before).length) ∧
      borderAfter (s.char = '/') (recoded before) = borderAfter (s.char = '/') before ∧
      faithfulFrom 0 after = true

theorem sameNext_anyChar (h : faithfulFrom 0 rest = true) : SameNext border (.raw '?') rest :=
  .inr ⟨.anyChar, [], rest, rfl, rfl, rfl, rfl, h⟩

theorem sameNext_recursive (h : faithfulFrom 0 rest = true) : SameNext true (.raw '*') (.raw '*' :: rest) := by
  match rest with
  | [] => exact .inr ⟨.anyRecursive, [.raw '*'], [], rfl, rfl, rfl, rfl, rfl⟩
  | .raw c :: after =>
    by_cases hsep : c = '/'
    · subst hsep
      exact .inr ⟨.anyRecursive, [.raw '*', .raw '/'], after, rfl, rfl, rfl, rfl, h⟩
    · exact .inl (by simp [nextToken, Symbol.char, hsep])
  | .literal c :: after =>
    cases hc : isMeta c with
    | true =>
      have hsep : c ≠ '/' := fun h => absurd hc (by simp [h, isMeta])
      exact .inl (by simp [nextToken, recoded_meta hc, Symbol.char, hsep])
    | false =>
      by_cases hsep : c = '/'
      · subst hsep
        exact .inr ⟨.anyRecursive, [.raw '*', .literal '/'], after, rfl, rfl, rfl, rfl, h⟩
      · exact .inl (by simp [nextToken, recoded_literal hc, Symbol.char, hsep])

theorem sameNext_star (h : faithfulFrom 0 rest = true) : SameNext border (.raw '*') rest := by
  by_cases hstar : rest.head? = some (.raw '*')
  · cases border with
    | false => exact .inl (by simp [nextToken, hstar, (head?_recoded rest).mpr hstar])
    | true =>
      cases rest with
      | nil => cases hstar
      | cons s more =>
        obtain rfl : s = .raw '*' := by simpa using hstar
        exact sameNext_recursive h
  · have hstar' : (recoded rest).head? ≠ some (.raw '*') := fun h => hstar ((head?_recoded rest).mp h)
    exact .inr ⟨.anySequence, [], rest, rfl, by simp [nextToken, hstar], by simp [nextToken, hstar'], rfl, h⟩

theorem classBody_recoded (hbody : classBody rest = (negated, body))
    (h : misread negated (classContent body) = false) : classBody (recoded rest) = (negated, recoded body) := by
  obtain ⟨rfl, rfl⟩ : (classBody rest).1 = negated ∧ (classBody rest).2 = body := by simp [hbody]
  clear hbody
  match rest with
  | [] => rfl
  | .raw c :: more =>
    by_cases hneg : c = '!'
    · subst hneg
      rfl
    · simp [classBody, hneg]
  | .literal c :: more =>
    have hbody : classBody (.literal c :: more) = (false, .literal c :: more) := rfl
    obtain ⟨mid, hcontent⟩ : ∃ mid, classContent (.literal c :: more) = .literal c :: mid := by
      simp only [classContent, closing]
      cases more.findIdx? (· = .raw ']') with
      | none => exact ⟨more, rfl⟩
      | some n => exact ⟨more.take n, rfl⟩
    rw [hbody, hcontent] at h
    have hc := isMeta_of_misread h List.mem_cons_self
    have hneg : c ≠ '!' := by
      rintro rfl
      simp [misread] at h
    simp [recoded_literal hc, classBody, hneg]

theorem classBody_lead (h : classBody rest = (negated, body)) :
    ∃ lead, rest = lead ++ body ∧ recoded lead = lead ∧
      ∀ n, (if negated = true then n + 2 else n + 1) = lead.length + (n + 1) := by
  match rest with
  | [] =>
    obtain ⟨rfl, rfl⟩ := Prod.mk.inj h
    exact ⟨[], rfl, rfl, fun n => (Nat.zero_add _).symm⟩
  | first :: more =>
    by_cases hneg : first = .raw '!'
    · obtain ⟨rfl, rfl⟩ := Prod.mk.inj ((if_pos hneg).symm.trans h)
      exact ⟨[first], rfl, by rw [hneg]; rfl, fun n => by simp; omega⟩
    · obtain ⟨rfl, rfl⟩ := Prod.mk.inj ((if_neg hneg).symm.trans h)
      exact ⟨[], rfl, rfl, fun n => (Nat.zero_add _).symm⟩

theorem nextToken_bracket (h : classBody rest = (negated, body)) : nextToken border (.raw '[') rest =
    (closing body).map fun n => (classToken negated (body.take n), if negated then n + 2 else n + 1) := by
  simp [nextToken, h]

theorem classToken_recoded (h : misread negated content = false) :
    classToken negated (content.map (.raw ·.char)) = classToken negated content := by
  rw [classToken, classToken, specifiers_recoded (joinsRange_of_misread h)]

theorem sameNext_class (h : faithfulFrom 0 (.raw '[' :: rest) = true) : SameNext border (.raw '[') rest := by
  obtain ⟨negated, body, hbody⟩ : ∃ negated body, classBody rest = (negated, body) := ⟨_, _, rfl⟩
  simp only [faithfulFrom, hbody, ↓reduceIte, Bool.and_eq_true, Bool.not_eq_true'] at h
  obtain ⟨hmisread, hclosing⟩ := h
  have hrecoded := classBody_recoded hbody hmisread
  rcases closing_cases body with rfl | ⟨x, mid, rfl, hmid⟩ | ⟨x, mid, after, rfl, hmid⟩
  · exact .inl ⟨by simp [nextToken_bracket hbody, closing], by simp [nextToken_bracket hrecoded, closing]⟩
  · have hnone := closing_of_notMem (x := x) hmid
    rw [classContent, hnone] at hmisread
    have hunescaped := unescaped_of_misread hmisread
    have hnone' : closing (recoded (x :: mid)) = none := by
      rw [recoded_of_unescaped hunescaped]
      exact closing_of_notMem (bracket_notMem (fun s hs => hunescaped s (List.mem_cons_of_mem _ hs)) hmid)
    exact .inl ⟨by simp [nextToken_bracket hbody, hnone], by simp [nextToken_bracket hrecoded, hnone']⟩
  · obtain ⟨lead, rfl, hlead, hlength⟩ := classBody_lead hbody
    have hsome := closing_of_mem x after hmid
    have htake : (x :: (mid ++ .raw ']' :: after)).take (mid.length + 1) = x :: mid := by simp
    rw [classContent, hsome] at hmisread
    simp only [htake] at hmisread
    have hunescaped := unescaped_of_misread hmisread
    have hwritten : recoded (x :: (mid ++ .raw ']' :: after)) =
        (x :: mid).map (.raw ·.char) ++ .raw ']' :: recoded after := by
      rw [← List.cons_append, recoded_append, recoded_of_unescaped hunescaped, recoded_raw]
    have hsome' : closing (recoded (x :: (mid ++ .raw ']' :: after))) = some (mid.length + 1) := by
      rw [hwritten]
      simpa using closing_of_mem (.raw x.char) (recoded after)
        (bracket_notMem (fun s hs => hunescaped s (List.mem_cons_of_mem _ hs)) hmid)
    refine .inr ⟨classToken negated (x :: mid), lead ++ (x :: mid ++ [.raw ']']), after, by simp, ?_, ?_, ?_, ?_⟩
    · rw [nextToken_bracket hbody, hsome, Option.map_some, htake, hlength]
      simp
    · have htake' : (recoded (x :: (mid ++ .raw ']' :: after))).take (mid.length + 1) =
          (x :: mid).map (.raw ·.char) := by
        rw [hwritten, List.take_left' (by simp)]
      rw [nextToken_bracket hrecoded, hsome', Option.map_some, htake', hlength, classToken_recoded hmisread,
        recoded_append, hlead, recoded_append, recoded_of_unescaped hunescaped]
      simp
    · rw [← List.append_assoc, recoded_append]
      exact (borderAfter_append ..).trans (borderAfter_append ..).symm
    · rw [hsome] at hclosing
      change faithfulFrom (if negated = true then _ else _) _ = true at hclosing
      have hdrop : (lead ++ x :: (mid ++ .raw ']' :: after)).drop (lead.length + (mid.length + 1 + 1)) = after := by
        rw [List.drop_append]
        simp
      rwa [hlength, faithfulFrom_eq_drop, hdrop] at hclosing

theorem sameNext (hs : s.plain = false) (h : faithfulFrom 0 (s :: rest) = true) :
    SameNext border s rest ∧ s = .raw s.char := by
  simp only [Symbol.plain, Bool.and_eq_false_iff, decide_eq_false_iff_not, Decidable.not_not] at hs
  rcases hs with (rfl | rfl) | rfl
  · exact ⟨sameNext_anyChar h, rfl⟩
  · exact ⟨sameNext_star h, rfl⟩
  · exact ⟨sameNext_class h, rfl⟩

theorem rel_map_cons {x y : Option (List Token)} (ht : t.Like t') (h : Option.Rel (List.Forall₂ Token.Like) x y) :
    Option.Rel (List.Forall₂ Token.Like) (x.map (t :: ·)) (y.map (t' :: ·)) := by
  cases h with
  | some h => exact .some (.cons ht h)
  | none => exact .none

/-- Where no class is misread, the symbols and what they are read back as have
tokens that match the same. -/
theorem tokensFrom_recoded (symbols : List Symbol) (h : faithfulFrom 0 symbols = true) (border : Bool) :
    Option.Rel (List.Forall₂ Token.Like) (tokensFrom 0 border symbols) (tokensFrom 0 border (recoded symbols)) := by
  match symbols with
  | [] => exact .some .nil
  | s :: rest =>
    cases hs : s.plain with
    | true =>
      have hrest : faithfulFrom 0 rest = true := by
        have hne : s ≠ .raw '[' := by
          rintro rfl
          cases hs
        simpa [faithfulFrom, hne] using h
      rw [tokensFrom_plain hs, recoded, splice_cons, tokensFrom_written hs]
      exact rel_map_cons s.like_compiled (tokensFrom_recoded rest hrest _)
    | false =>
      obtain ⟨hnext, hraw⟩ := sameNext hs h
      have hrecoded : recoded (s :: rest) = s :: recoded rest := by rw [hraw, recoded_raw]
      rw [hrecoded]
      rcases hnext with ⟨hnone, hnone'⟩ | ⟨t, before, after, rfl, hsome, hsome', hborder, hafter⟩
      · rw [tokensFrom_cons_none hnone, tokensFrom_cons_none hnone']
        exact .none
      · rw [tokensFrom_cons hsome, tokensFrom_cons hsome', recoded_append, List.take_left, List.drop_left,
          List.take_left, List.drop_left, hborder]
        exact rel_map_cons (fun _ _ => rfl) (tokensFrom_recoded after hafter _)
termination_by symbols.length

end SilkChiffon.Glob
