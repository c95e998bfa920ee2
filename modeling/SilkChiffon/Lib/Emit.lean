import Mathlib.Tactic.Common

/-!
# Computations that emit

`Emit ω ε β` emits values of type `ω` one after another and then returns a
`β` or stops with an `ε`. What was emitted before a stop stays emitted.
`Ensures` is its program logic: one postcondition for returning, one for
stopping, each about everything emitted.
-/

namespace SilkChiffon

universe u

structure Emit (ω ε β : Type u) where
  emitted : List ω
  result : Except ε β

namespace Emit

variable {ω ε β γ : Type u}

def bind (x : Emit ω ε β) (f : β → Emit ω ε γ) : Emit ω ε γ :=
  match x.result with
  | .ok a => ⟨x.emitted ++ (f a).emitted, (f a).result⟩
  | .error e => ⟨x.emitted, .error e⟩

instance : Monad (Emit ω ε) where
  pure a := ⟨[], .ok a⟩
  bind := bind

instance : LawfulMonad (Emit ω ε) := LawfulMonad.mk' _
  (by
    rintro β ⟨w, _ | a⟩
    · rfl
    · exact congrArg (Emit.mk · _) (List.append_nil w))
  (fun _ _ => rfl)
  (by
    rintro β γ δ ⟨w, _ | a⟩ f g
    · rfl
    · show Emit.bind ⟨w ++ (f a).emitted, (f a).result⟩ g
        = Emit.bind ⟨w, .ok a⟩ fun a => Emit.bind (f a) g
      cases hf : (f a).result with
      | error e => simp [Emit.bind, hf]
      | ok b => simp [Emit.bind, hf])

def emit (w : ω) : Emit ω ε PUnit := ⟨[w], .ok ⟨⟩⟩

def throw (e : ε) : Emit ω ε β := ⟨[], .error e⟩

def lift (x : Except ε β) : Emit ω ε β := ⟨[], x⟩

theorem lift_bind {x : Except ε β} {f : β → Emit ω ε γ} (h : x = .ok a) : lift x >>= f = f a := by
  rw [h]
  exact pure_bind a f

theorem bind_result {x : Emit ω ε β} {f : β → Emit ω ε γ} (h : x.result = .ok a) :
    (x >>= f).result = (f a).result := by
  show (Emit.bind x f).result = _
  rw [Emit.bind, h]

/-- What a consumer takes that goes away after `limit` values. -/
def taken (limit : Option Nat) (x : Emit ω ε β) : List ω :=
  match limit with
  | none => x.emitted
  | some k => x.emitted.take k

/-- Returning `Q` of what was emitted, or stopping with `E` of it. -/
def Ensures (x : Emit ω ε β) (Q : List ω → β → Prop) (E : List ω → ε → Prop) : Prop :=
  match x.result with
  | .ok a => Q x.emitted a
  | .error e => E x.emitted e

theorem ensures_pure {Q : List ω → β → Prop} {E : List ω → ε → Prop} (h : Q [] a) :
    (pure a : Emit ω ε β).Ensures Q E := h

theorem ensures_throw {Q : List ω → β → Prop} {E : List ω → ε → Prop} (h : E [] e) :
    (throw e : Emit ω ε β).Ensures Q E := h

theorem ensures_emit {Q : List ω → PUnit → Prop} {E : List ω → ε → Prop} (h : Q [w] ⟨⟩) :
    (emit w : Emit ω ε PUnit).Ensures Q E := h

theorem ensures_lift {x : Except ε β} {Q : List ω → β → Prop} {E : List ω → ε → Prop}
    (hq : ∀ a, x = .ok a → Q [] a) (he : ∀ e, x = .error e → E [] e) :
    (lift x : Emit ω ε β).Ensures Q E := by
  cases x with
  | ok a => exact hq a rfl
  | error e => exact he e rfl

theorem Ensures.bind {x : Emit ω ε β} {f : β → Emit ω ε γ} {Q : List ω → β → Prop}
    {R : List ω → γ → Prop} {E : List ω → ε → Prop} (hx : x.Ensures Q E)
    (hf : ∀ w a, Q w a → (f a).Ensures (fun w' b => R (w ++ w') b) fun w' e => E (w ++ w') e) :
    (x >>= f).Ensures R E := by
  show (Emit.bind x f).Ensures R E
  unfold Ensures at hx hf
  unfold Ensures Emit.bind
  split at hx
  · rename_i a ha
    exact hf _ a hx
  · rename_i e he
    exact hx

theorem ensures_emit_bind {f : PUnit → Emit ω ε γ} {R : List ω → γ → Prop} {E : List ω → ε → Prop}
    (hf : (f ⟨⟩).Ensures (fun events b => R (w :: events) b) fun events e => E (w :: events) e) :
    (emit w >>= f).Ensures R E :=
  Ensures.bind (Q := fun events _ => events = [w]) (ensures_emit rfl) (by rintro _ _ rfl; exact hf)

theorem ensures_lift_bind {x : Except ε β} {f : β → Emit ω ε γ} {R : List ω → γ → Prop}
    {E : List ω → ε → Prop} (hf : ∀ a, x = .ok a → (f a).Ensures R E)
    (he : ∀ e, x = .error e → E [] e) : (lift x >>= f).Ensures R E := by
  cases x with
  | ok a => exact hf a rfl
  | error e => exact he e rfl

theorem Ensures.mono {x : Emit ω ε β} {Q Q' : List ω → β → Prop} {E E' : List ω → ε → Prop}
    (hx : x.Ensures Q E) (hq : ∀ w a, Q w a → Q' w a) (he : ∀ w e, E w e → E' w e) :
    x.Ensures Q' E' := by
  unfold Ensures at *
  split at hx
  · exact hq _ _ hx
  · exact he _ _ hx

theorem ensures_of_forall {x : Emit ω ε β} {Q : List ω → β → Prop} {E : List ω → ε → Prop}
    (hq : ∀ w a, Q w a) (he : ∀ w e, E w e) : x.Ensures Q E := by
  unfold Ensures
  split
  · exact hq _ _
  · exact he _ _

theorem Ensures.ok {x : Emit ω ε β} {Q : List ω → β → Prop} {E : List ω → ε → Prop}
    (hx : x.Ensures Q E) (h : x.result = .ok a) : Q x.emitted a := by
  simpa [Ensures, h] using hx

theorem Ensures.emitted {x : Emit ω ε β} {P : List ω → Prop}
    (hx : x.Ensures (fun w _ => P w) fun w _ => P w) : P x.emitted := by
  unfold Ensures at hx
  split at hx <;> exact hx

theorem Ensures.error {x : Emit ω ε β} {Q : List ω → β → Prop} {E : List ω → ε → Prop}
    (hx : x.Ensures Q E) (h : x.result = .error e) : E x.emitted e := by
  simpa [Ensures, h] using hx

end Emit

end SilkChiffon
