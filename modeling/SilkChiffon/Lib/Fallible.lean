import SilkChiffon.Lib.Trace

/-!
# Fallible computations

`Ensures x Q E` for `Except`: returning with `Q` or failing with `E`.
-/

namespace SilkChiffon.Fallible

universe u

variable {ε ε' β γ ω : Type u}

def Ensures (x : Except ε β) (Q : β → Prop) (E : ε → Prop) : Prop :=
  match x with
  | .ok a => Q a
  | .error e => E e

theorem ensures_pure {Q : β → Prop} {E : ε → Prop} (h : Q a) :
    Ensures (pure a : Except ε β) Q E := h

theorem ensures_throw {Q : β → Prop} {E : ε → Prop} (h : E e) :
    Ensures (throw e : Except ε β) Q E := h

theorem ensures_ite_throw {c : Prop} [Decidable c] {next : PUnit → Except ε β} {x : Except ε β}
    {Q : β → Prop} {E : ε → Prop} (he : E e) (hx : Ensures x Q E) :
    Ensures (if c then (throw e : Except ε PUnit) >>= next else x) Q E := by
  split
  · exact he
  · exact hx

theorem Ensures.bind {x : Except ε β} {f : β → Except ε γ} {Q : β → Prop} {R : γ → Prop}
    {E : ε → Prop} (hx : Ensures x Q E) (hf : ∀ a, Q a → Ensures (f a) R E) :
    Ensures (x >>= f) R E := by
  cases x with
  | ok a => exact hf a hx
  | error e => exact hx

theorem Ensures.error {x : Except ε β} {Q : β → Prop} {E : ε → Prop} (hx : Ensures x Q E)
    (h : x = .error e) : E e := by
  rw [h] at hx
  exact hx

theorem ensures_self {x : Except ε β} : Ensures x (fun a => x = .ok a) fun _ => True := by
  cases x with
  | ok a => exact rfl
  | error e => trivial

theorem ensures_trivial {x : Except ε β} : Ensures x (fun _ => True) fun _ => True := by
  cases x <;> trivial

theorem Ensures.mono {x : Except ε β} {Q Q' : β → Prop} {E E' : ε → Prop} (hx : Ensures x Q E)
    (hq : ∀ a, Q a → Q' a) (he : ∀ e, E e → E' e) : Ensures x Q' E' := by
  cases x with
  | ok a => exact hq a hx
  | error e => exact he e hx

theorem ensures_mapError {x : Except ε' β} {Q : β → Prop} {E : ε → Prop}
    (hq : ∀ a, x = .ok a → Q a) (he : E e) : Ensures (x.mapError fun _ => e) Q E := by
  cases x with
  | ok a => exact hq a rfl
  | error _ => exact he

theorem upholds_lift_bind {A G : List ω → ω → Prop} {x : Except ε β} {f : β → Emit ω ε γ}
    {Q : β → Prop} {R : List ω → γ → Prop} {E : List ω → ε → Prop} (hG : Throughout G before)
    (hx : Ensures x Q (E before)) (hf : ∀ a, Q a → (f a).Upholds A G before R E) :
    (Emit.lift x >>= f).Upholds A G before R E := by
  have hlift : (Emit.lift x : Emit ω ε β).Upholds A G before
      (fun after a => after = before ∧ Q a) E := by
    cases x with
    | ok a => exact Emit.upholds_pure hG ⟨rfl, hx⟩
    | error e => exact Emit.upholds_throw hG hx
  refine hlift.bind ?_
  rintro _ a _ ⟨rfl, ha⟩
  exact hf a ha

theorem ensures_lift_bind {x : Except ε β} {f : β → Emit ω ε γ} {Q : β → Prop}
    {R : List ω → γ → Prop} {E : List ω → ε → Prop} (hx : Ensures x Q (E []))
    (hf : ∀ a, Q a → (f a).Ensures R E) : (Emit.lift x >>= f).Ensures R E := by
  cases x with
  | ok a => exact hf a hx
  | error e => exact hx

end SilkChiffon.Fallible
