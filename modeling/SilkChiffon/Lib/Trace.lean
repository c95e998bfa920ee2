import SilkChiffon.Lib.Emit

/-!
# Traces

A trace is what happened so far, oldest first. `Throughout P trace` says that
`P` held of every event when it happened, given the events before it. A
component `Upholds` a guarantee under an assumption about its environment,
both of this kind: whatever it emits after a trace, if the assumption holds
throughout so does the guarantee.
-/

namespace SilkChiffon

universe u

variable {ω ε β γ : Type u}

def Throughout (P : List ω → ω → Prop) (trace : List ω) : Prop :=
  ∀ before e, before ++ [e] <+: trace → P before e

namespace Throughout

variable {P : List ω → ω → Prop}

theorem nil : Throughout P [] := by
  intro before e h
  simp at h

theorem of_prefix (h : Throughout P trace) (hp : earlier <+: trace) : Throughout P earlier :=
  fun before e he => h before e (he.trans hp)

theorem snoc (h : Throughout P trace) (he : P trace e) : Throughout P (trace ++ [e]) := by
  intro before e' hp
  rcases List.prefix_concat_iff.mp hp with heq | hp
  · obtain ⟨rfl, rfl⟩ := List.append_singleton_inj.mp heq
    exact he
  · exact h before e' hp

def From (P : List ω → ω → Prop) (before : List ω) : List ω → Prop
  | [] => True
  | e :: rest => P before e ∧ From P (before ++ [e]) rest

theorem of_from (h : Throughout P before) (hrest : From P before rest) :
    Throughout P (before ++ rest) := by
  induction rest generalizing before with
  | nil => simpa using h
  | cons e rest ih => simpa using ih (h.snoc hrest.1) hrest.2

theorem last (h : Throughout P (trace ++ [e])) : P trace e := h trace e (List.prefix_refl _)

def Since (origin : List ω) (P : List ω → ω → Prop) (before : List ω) (e : ω) : Prop :=
  origin <+: before → P before e

theorem since_origin : Throughout (Since trace P) trace := by
  intro before e he hp
  have hlen := he.length_le
  have hle := hp.length_le
  simp at hlen
  omega

theorem from_since (h : Throughout (Since origin P) (before ++ rest)) (ho : origin <+: before) :
    From P before rest := by
  induction rest generalizing before with
  | nil => trivial
  | cons e rest ih =>
    have hstep : before ++ e :: rest = (before ++ [e]) ++ rest := by simp
    rw [hstep] at h
    exact ⟨(h.of_prefix (List.prefix_append ..)).last ho,
      ih h (ho.trans (List.prefix_append ..))⟩

end Throughout

namespace Emit

variable {A G : List ω → ω → Prop}

/-- After `before`, if `A` holds throughout then `G` does, and `Q` or `E` hold
of everything that happened by then. -/
def Upholds (A G : List ω → ω → Prop) (before : List ω) (x : Emit ω ε β)
    (Q : List ω → β → Prop) (E : List ω → ε → Prop) : Prop :=
  x.Ensures
    (fun w a => Throughout A (before ++ w) → Throughout G (before ++ w) ∧ Q (before ++ w) a)
    (fun w e => Throughout A (before ++ w) → Throughout G (before ++ w) ∧ E (before ++ w) e)

theorem upholds_pure {Q : List ω → β → Prop} {E : List ω → ε → Prop}
    (hG : Throughout G before) (h : Q before a) :
    (pure a : Emit ω ε β).Upholds A G before Q E := by
  refine ensures_pure fun _ => ?_
  rw [List.append_nil]
  exact ⟨hG, h⟩

theorem upholds_throw {Q : List ω → β → Prop} {E : List ω → ε → Prop}
    (hG : Throughout G before) (h : E before e) :
    (throw e : Emit ω ε β).Upholds A G before Q E := by
  refine ensures_throw fun _ => ?_
  rw [List.append_nil]
  exact ⟨hG, h⟩

theorem upholds_emit {Q : List ω → PUnit → Prop} {E : List ω → ε → Prop}
    (hG : Throughout G before)
    (h : A before w → G before w ∧ Q (before ++ [w]) ⟨⟩) :
    (emit w : Emit ω ε PUnit).Upholds A G before Q E := by
  refine ensures_emit fun hA => ?_
  obtain ⟨hw, hQ⟩ := h hA.last
  exact ⟨hG.snoc hw, hQ⟩

theorem Upholds.bind {x : Emit ω ε β} {f : β → Emit ω ε γ} {Q : List ω → β → Prop}
    {R : List ω → γ → Prop} {E : List ω → ε → Prop} (hx : x.Upholds A G before Q E)
    (hf : ∀ after a, Throughout G after → Q after a → (f a).Upholds A G after R E) :
    (x >>= f).Upholds A G before R E := by
  refine Ensures.bind hx fun w a hw => ?_
  simp only [← List.append_assoc]
  by_cases hA : Throughout A (before ++ w)
  · obtain ⟨hG, hQ⟩ := hw hA
    exact hf _ a hG hQ
  · have habsurd : ∀ w', ¬ Throughout A (before ++ w ++ w') := fun w' h =>
      hA (h.of_prefix (List.prefix_append _ w'))
    exact ensures_of_forall (fun w' _ h => absurd h (habsurd w'))
      fun w' _ h => absurd h (habsurd w')

theorem upholds_emit_bind {f : PUnit → Emit ω ε γ} {R : List ω → γ → Prop} {E : List ω → ε → Prop}
    (hG : Throughout G before) (hw : A before w → G before w)
    (hf : A before w → Throughout G (before ++ [w]) →
      (f ⟨⟩).Upholds A G (before ++ [w]) R E) :
    (emit w >>= f).Upholds A G before R E := by
  have hemit : (emit w : Emit ω ε PUnit).Upholds A G before
      (fun after _ => after = before ++ [w] ∧ A before w) E :=
    upholds_emit hG fun hA => ⟨hw hA, rfl, hA⟩
  refine hemit.bind ?_
  rintro _ _ hG' ⟨rfl, hA⟩
  exact hf hA hG'

theorem Upholds.ok {Q : List ω → β → Prop} {E : List ω → ε → Prop}
    (h : (⟨w, .ok a⟩ : Emit ω ε β).Upholds A G before Q E) (hA : Throughout A (before ++ w)) :
    Throughout G (before ++ w) ∧ Q (before ++ w) a := h hA

theorem Upholds.error {Q : List ω → β → Prop} {E : List ω → ε → Prop}
    (h : (⟨w, .error e⟩ : Emit ω ε β).Upholds A G before Q E) (hA : Throughout A (before ++ w)) :
    Throughout G (before ++ w) ∧ E (before ++ w) e := h hA

end Emit

end SilkChiffon
