import Mathlib.Data.List.Basic
import Mathlib.Data.List.Induction

/-!
# Cutting a list into pieces of one size

An accumulator that cuts off a piece whenever `n` elements have gathered is
described by `Filling`: the pieces cut so far and the remainder it still holds.
Flushing the remainder at the end gives a `Chunked` list. Both are determined
by the elements alone, so two accumulators that were fed the same elements in
different portions agree.
-/

namespace SilkChiffon.Chunking

/-- Every piece but the last has `n` elements, and the last has between `1`
and `n`. -/
structure Chunked (n : Nat) (l : List α) (pieces : List (List α)) : Prop where
  flatten : pieces.flatten = l
  full : ∀ c ∈ pieces.dropLast, c.length = n
  last : ∀ c ∈ pieces.getLast?, 0 < c.length ∧ c.length ≤ n

/-- The full pieces cut off so far, and a remainder too short for another. -/
structure Filling (n : Nat) (l : List α) (pieces : List (List α)) (rest : List α) : Prop where
  flatten : pieces.flatten ++ rest = l
  full : ∀ c ∈ pieces, c.length = n
  rest_lt : rest.length < n

def flush (rest : List α) : List (List α) := if rest = [] then [] else [rest]

@[simp] theorem flush_nil : flush ([] : List α) = [] := rfl

theorem flush_of_ne (h : rest ≠ []) : flush rest = [rest] := if_neg h

-- ---------------------------------------------------------------------------
-- Building a filling
-- ---------------------------------------------------------------------------

theorem Filling.nil (h : 0 < n) : Filling n ([] : List α) [] [] :=
  ⟨rfl, by simp, by simpa using h⟩

theorem Filling.push (h : Filling n l pieces rest) (hm : rest.length + m.length < n) :
    Filling n (l ++ m) pieces (rest ++ m) :=
  ⟨by rw [← h.flatten, List.append_assoc], h.full, by simpa using hm⟩

theorem Filling.fill (h : Filling n l pieces rest) (hm : rest.length + m.length = n) :
    Filling n (l ++ m) (pieces ++ [rest ++ m]) [] := by
  have hlt := h.rest_lt
  refine ⟨by simp [← h.flatten], ?_, by simp; omega⟩
  intro c hc
  rcases List.mem_append.mp hc with hc | hc
  · exact h.full c hc
  · obtain rfl := List.mem_singleton.mp hc
    simpa using hm

theorem Filling.extend {m : List α} (h : Filling n l pieces rest)
    (hnew : new.flatten ++ rest' = rest ++ m) (hfull : ∀ c ∈ new, c.length = n) (hlt : rest'.length < n) :
    Filling n (l ++ m) (pieces ++ new) rest' := by
  refine ⟨?_, ?_, hlt⟩
  · rw [List.flatten_append, List.append_assoc, hnew, ← List.append_assoc, h.flatten]
  · intro c hc
    rcases List.mem_append.mp hc with hc | hc
    · exact h.full c hc
    · exact hfull c hc

theorem Filling.pos (h : Filling n l pieces rest) : 0 < n := by
  have := h.rest_lt
  omega

theorem Filling.flush (h : Filling n l pieces rest) : Chunked n l (pieces ++ flush rest) := by
  by_cases hr : rest = []
  · subst hr
    simp only [flush_nil, List.append_nil]
    refine ⟨by simpa using h.flatten, fun c hc => h.full c (List.dropLast_subset _ hc), ?_⟩
    intro c hc
    have := h.full c (List.mem_of_mem_getLast? hc)
    have := h.pos
    omega
  · rw [flush_of_ne hr]
    refine ⟨by simpa using h.flatten, by simpa using h.full, ?_⟩
    intro c hc
    obtain rfl : rest = c := by simpa using hc
    exact ⟨List.length_pos_iff.mpr hr, Nat.le_of_lt h.rest_lt⟩

-- ---------------------------------------------------------------------------
-- Uniqueness
-- ---------------------------------------------------------------------------

theorem Chunked.nil (n : Nat) : Chunked n ([] : List α) [] := ⟨rfl, by simp, by simp⟩

theorem Chunked.tail (h : Chunked n l (c :: pieces)) : Chunked n pieces.flatten pieces := by
  refine ⟨rfl, ?_, ?_⟩
  · intro d hd
    cases pieces with
    | nil => simp at hd
    | cons e rest => exact h.full d (by simp at hd ⊢; exact .inr hd)
  · intro d hd
    cases pieces with
    | nil => simp at hd
    | cons e rest => exact h.last d (by simpa using hd)

theorem Chunked.head_pos (h : Chunked n l (c :: pieces)) (hn : 0 < n) : 0 < c.length := by
  cases pieces with
  | nil => exact (h.last c (by simp)).1
  | cons d rest =>
    have := h.full c (by simp)
    omega

theorem Chunked.head_eq (h : Chunked n l (c :: pieces)) : c = l.take n := by
  rw [← h.flatten, List.flatten_cons]
  cases pieces with
  | nil =>
    have := (h.last c (by simp)).2
    simp [List.take_of_length_le this]
  | cons d rest =>
    have := h.full c (by simp)
    rw [List.take_append_of_le_length (by omega), List.take_of_length_le (by omega)]

theorem Chunked.eq_nil_iff (h : Chunked n l pieces) (hn : 0 < n) : pieces = [] ↔ l = [] := by
  constructor
  · rintro rfl
    exact h.flatten.symm
  · rintro rfl
    cases pieces with
    | nil => rfl
    | cons c rest =>
      have hpos := h.head_pos hn
      have hflat := h.flatten
      simp only [List.flatten_cons, List.append_eq_nil_iff] at hflat
      simp [hflat.1] at hpos

theorem Chunked.unique (hn : 0 < n) (h : Chunked n l pieces) (h' : Chunked n l pieces') :
    pieces = pieces' := by
  induction pieces generalizing l pieces' with
  | nil =>
    obtain rfl := (h.eq_nil_iff hn).mp rfl
    exact ((h'.eq_nil_iff hn).mpr rfl).symm
  | cons c rest ih =>
    cases pieces' with
    | nil =>
      obtain rfl := (h'.eq_nil_iff hn).mp rfl
      exact (h.eq_nil_iff hn).mpr rfl
    | cons d rest' =>
      obtain rfl : c = d := h.head_eq.trans h'.head_eq.symm
      have hflat : rest.flatten = rest'.flatten := by
        have := h.flatten.trans h'.flatten.symm
        simpa using this
      rw [ih h.tail (hflat ▸ h'.tail)]

-- ---------------------------------------------------------------------------
-- Prefixes of a cutting
-- ---------------------------------------------------------------------------

theorem Filling.append_chunked {m : List α} (h : Filling n l pieces rest)
    (hq : Chunked n (rest ++ m) more) : Chunked n (l ++ m) (pieces ++ more) := by
  refine ⟨?_, ?_, ?_⟩
  · rw [List.flatten_append, hq.flatten, ← List.append_assoc, h.flatten]
  · intro c hc
    cases more with
    | nil => exact h.full c (List.dropLast_subset _ (by simpa using hc))
    | cons d tail =>
      rw [List.dropLast_append_of_ne_nil (by simp)] at hc
      rcases List.mem_append.mp hc with hc | hc
      · exact h.full c hc
      · exact hq.full c hc
  · intro c hc
    cases more with
    | nil =>
      have := h.full c (List.mem_of_mem_getLast? (by simpa using hc))
      have := h.pos
      omega
    | cons d tail =>
      rw [List.getLast?_append_of_ne_nil _ (by simp)] at hc
      exact hq.last c hc

theorem Filling.exists (hn : 0 < n) (l : List α) : ∃ pieces rest, Filling n l pieces rest := by
  induction l using List.reverseRecOn with
  | nil => exact ⟨[], [], .nil hn⟩
  | append_singleton l x ih =>
    obtain ⟨pieces, rest, h⟩ := ih
    have hlt := h.rest_lt
    by_cases hx : rest.length + 1 = n
    · exact ⟨_, _, h.fill (m := [x]) hx⟩
    · exact ⟨_, _, h.push (m := [x]) (by simp; omega)⟩

theorem Chunked.exists (hn : 0 < n) (l : List α) : ∃ pieces, Chunked n l pieces := by
  obtain ⟨pieces, rest, h⟩ := Filling.exists hn l
  exact ⟨_, h.flush⟩

/-- Full pieces cut from a prefix are the first pieces of the whole. -/
theorem Chunked.prefix_of_full {cut : List (List α)} (h : Chunked n l pieces) (hn : 0 < n)
    (hfull : ∀ c ∈ cut, c.length = n) (hpre : cut.flatten <+: l) : cut <+: pieces := by
  obtain ⟨m, rfl⟩ := hpre
  obtain ⟨more, hmore⟩ := Chunked.exists hn m
  have hcut : Filling n cut.flatten cut [] := ⟨by simp, hfull, by simpa using hn⟩
  exact ⟨more, (hcut.append_chunked hmore).unique hn h⟩

theorem length_flatten_of_full {pieces : List (List α)} (h : ∀ c ∈ pieces, c.length = n) :
    pieces.flatten.length = pieces.length * n := by
  induction pieces with
  | nil => simp
  | cons c rest ih =>
    rw [List.flatten_cons, List.length_append, h c (by simp),
      ih fun d hd => h d (List.mem_cons_of_mem _ hd), List.length_cons, Nat.add_mul]
    omega

theorem Filling.unique (h : Filling n l pieces rest) (h' : Filling n l pieces' rest') :
    pieces = pieces' ∧ rest = rest' := by
  have hn := h.pos
  have hlen : pieces.length * n + rest.length = pieces'.length * n + rest'.length := by
    rw [← length_flatten_of_full h.full, ← length_flatten_of_full h'.full,
      ← List.length_append, ← List.length_append, h.flatten, h'.flatten]
  have hcount : pieces.length = pieces'.length := by
    have hdiv (a b : Nat) (hb : b < n) : (a * n + b) / n = a := by
      rw [Nat.mul_comm, Nat.mul_add_div hn, Nat.div_eq_of_lt hb, Nat.add_zero]
    rw [← hdiv pieces.length rest.length h.rest_lt, hlen, hdiv _ _ h'.rest_lt]
  have hpre : pieces <+: pieces' ++ Chunking.flush rest' :=
    h'.flush.prefix_of_full hn h.full ⟨rest, h.flatten⟩
  have heq : pieces = pieces' := by
    have := List.prefix_of_prefix_length_le hpre (List.prefix_append _ _) (by omega)
    exact this.eq_of_length hcount
  refine ⟨heq, ?_⟩
  have hflat := h.flatten.trans h'.flatten.symm
  rw [heq] at hflat
  exact List.append_cancel_left hflat

end SilkChiffon.Chunking
