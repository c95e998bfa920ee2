import Mathlib.Data.List.Basic

/-!
# Scanners

A scanner reads a list symbol by symbol through a finite control and emits
tokens as it goes; what is pending at the end is flushed. A piece of input is
read on its own when the scanner stops behind it in a state that any
delimiter interrupts.
-/

namespace SilkChiffon

structure Scanner (σ α τ : Type) where
  start : σ
  step : σ → α → Option (List τ × σ)
  /-- The tokens still pending in a state in which the input may end. -/
  flush : σ → Option (List τ)

namespace Scanner

variable (m : Scanner σ α τ)

def run : σ → List α → Option (List τ × σ)
  | s, [] => some ([], s)
  | s, a :: rest => do
    let (ts, s) ← m.step s a
    let (ts', s) ← run s rest
    return (ts ++ ts', s)

def scan (input : List α) : Option (List τ) := do
  let (ts, s) ← m.run m.start input
  return ts ++ (← m.flush s)

variable {m}

@[simp] theorem run_nil : m.run s [] = some ([], s) := rfl

theorem run_cons : m.run s (a :: rest) =
    (m.step s a).bind fun r => (m.run r.2 rest).map fun q => (r.1 ++ q.1, q.2) := by
  simp only [run, Option.pure_def, Option.bind_eq_bind, Option.map_eq_bind]
  rfl

theorem run_append : m.run s (l ++ l') =
    (m.run s l).bind fun r => (m.run r.2 l').map fun q => (r.1 ++ q.1, q.2) := by
  induction l generalizing s with
  | nil => simp
  | cons a rest ih =>
    rw [List.cons_append, run_cons, run_cons]
    cases m.step s a with
    | none => rfl
    | some r =>
      simp only [Option.bind_some, ih]
      cases m.run r.2 rest with
      | none => rfl
      | some q =>
        simp only [Option.bind_some, Option.map_some, Option.map_map]
        congr 1
        funext p
        simp

theorem run_append_of (h : m.run s l = some (ts, s')) (h' : m.run s' l' = some (ts', s'')) :
    m.run s (l ++ l') = some (ts ++ ts', s'') := by
  simp [run_append, h, h']

theorem run_pieces (state : List β → σ) {l : List β} {p : List (List α)}
    (h : List.Forall₂ (fun x piece => ∀ content,
      m.run (state content) piece = some ([], state (content ++ [x]))) l p) (content : List β) :
    m.run (state content) p.flatten = some ([], state (content ++ l)) := by
  induction h generalizing content with
  | nil => simp
  | @cons x piece l p hx _ ih =>
    have := run_append_of (hx content) (ih (content ++ [x]))
    simpa using this

/-- The scanner reads `input` as `ts` and may be interrupted behind it by any
delimiter. -/
structure Reads (m : Scanner σ α τ) (delimiter : α → Prop) (input : List α) (ts : List τ) :
    Prop where
  run : ∃ emitted s pending, m.run m.start input = some (emitted, s) ∧ m.flush s = some pending ∧
    ts = emitted ++ pending ∧
    ∀ c, delimiter c → m.step s c = (m.step m.start c).map fun q => (pending ++ q.1, q.2)

variable {delimiter : α → Prop}

theorem Reads.scan (h : m.Reads delimiter input ts) : m.scan input = some ts := by
  obtain ⟨emitted, s, pending, hrun, hflush, rfl, -⟩ := h.run
  simp [Scanner.scan, hrun, hflush]

theorem Reads.nil (h : m.flush m.start = some []) : m.Reads delimiter [] [] :=
  ⟨[], m.start, [], rfl, h, rfl, fun c _ => by cases m.step m.start c <;> simp⟩

theorem Reads.append_of_run (h : m.run m.start l = some (ts, m.start))
    (h' : m.Reads delimiter l' ts') : m.Reads delimiter (l ++ l') (ts ++ ts') := by
  obtain ⟨emitted, s, pending, hrun, hflush, rfl, hc⟩ := h'.run
  exact ⟨ts ++ emitted, s, pending, run_append_of h hrun, hflush, by simp, hc⟩

theorem Reads.append (h : m.Reads delimiter l ts) (hc : delimiter c)
    (h' : m.Reads delimiter (c :: l') ts') : m.Reads delimiter (l ++ c :: l') (ts ++ ts') := by
  obtain ⟨emitted, s, pending, hrun, hflush, rfl, hdelim⟩ := h.run
  obtain ⟨emitted', s', pending', hrun', hflush', rfl, hdelim'⟩ := h'.run
  refine ⟨emitted ++ (pending ++ emitted'), s', pending', ?_, hflush', by simp, hdelim'⟩
  refine run_append_of hrun ?_
  rw [run_cons] at hrun' ⊢
  rw [hdelim c hc]
  cases hstep : m.step m.start c with
  | none => simp [hstep] at hrun'
  | some r =>
    simp only [hstep, Option.bind_some, Option.map_some, Option.map_eq_some_iff] at hrun' ⊢
    obtain ⟨q, hq, heq⟩ := hrun'
    refine ⟨q, hq, ?_⟩
    simp only [Prod.mk.injEq] at heq ⊢
    exact ⟨by simp [← heq.1], heq.2⟩

end Scanner

end SilkChiffon
