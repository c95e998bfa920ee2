import Mathlib.Tactic.Common

/-!
# Stateful computations that fail

Rules for `EStateM`: `Ensures x s Q E` says that `x`, run in `s`, returns in a
state where `Q` holds or fails in a state where `E` does.
-/

namespace SilkChiffon.Effects

variable {ε σ β γ : Type}

def Ensures (x : EStateM ε σ β) (s : σ) (Q : β → σ → Prop) (E : ε → σ → Prop) : Prop :=
  match x s with
  | .ok a s' => Q a s'
  | .error e s' => E e s'

theorem ensures_pure {Q : β → σ → Prop} {E : ε → σ → Prop} (h : Q a s) :
    Ensures (pure a : EStateM ε σ β) s Q E := h

theorem ensures_throw {Q : β → σ → Prop} {E : ε → σ → Prop} (h : E e s) :
    Ensures (throw e : EStateM ε σ β) s Q E := h

theorem ensures_get {Q : σ → σ → Prop} {E : ε → σ → Prop} (h : Q s s) :
    Ensures (get : EStateM ε σ σ) s Q E := h

theorem ensures_modify {f : σ → σ} {Q : PUnit → σ → Prop} {E : ε → σ → Prop} (h : Q ⟨⟩ (f s)) :
    Ensures (modify f : EStateM ε σ PUnit) s Q E := h

theorem Ensures.bind {x : EStateM ε σ β} {f : β → EStateM ε σ γ} {Q : β → σ → Prop}
    {R : γ → σ → Prop} {E : ε → σ → Prop} (hx : Ensures x s Q E)
    (hf : ∀ a s', Q a s' → Ensures (f a) s' R E) : Ensures (x >>= f) s R E := by
  show Ensures (EStateM.bind x f) s R E
  unfold Ensures EStateM.bind
  unfold Ensures at hx
  cases hrun : x s with
  | ok a s' =>
    rw [hrun] at hx
    exact hf a s' hx
  | error e s' =>
    rw [hrun] at hx
    exact hx

theorem ensures_get_bind {f : σ → EStateM ε σ γ} {R : γ → σ → Prop} {E : ε → σ → Prop}
    (h : Ensures (f s) s R E) : Ensures (get >>= f) s R E :=
  (ensures_get (Q := fun a s' => a = s ∧ s' = s) ⟨rfl, rfl⟩).bind fun _ _ ⟨ha, hs⟩ => ha ▸ hs ▸ h

theorem ensures_modify_bind {g : σ → σ} {f : PUnit → EStateM ε σ γ} {R : γ → σ → Prop}
    {E : ε → σ → Prop} (h : Ensures (f ⟨⟩) (g s) R E) : Ensures (modify g >>= f) s R E :=
  (ensures_modify (Q := fun _ s' => s' = g s) rfl).bind fun _ _ hs => hs ▸ h

theorem Ensures.mono {x : EStateM ε σ β} {Q Q' : β → σ → Prop} {E E' : ε → σ → Prop}
    (hx : Ensures x s Q E) (hq : ∀ a s', Q a s' → Q' a s') (he : ∀ e s', E e s' → E' e s') :
    Ensures x s Q' E' := by
  unfold Ensures at *
  cases hrun : x s with
  | ok a s' =>
    rw [hrun] at hx
    exact hq a s' hx
  | error e s' =>
    rw [hrun] at hx
    exact he e s' hx

theorem Ensures.and {x : EStateM ε σ β} {Q Q' : β → σ → Prop} {E E' : ε → σ → Prop}
    (hx : Ensures x s Q E) (hx' : Ensures x s Q' E') :
    Ensures x s (fun a s' => Q a s' ∧ Q' a s') (fun e s' => E e s' ∧ E' e s') := by
  unfold Ensures at *
  cases hrun : x s with
  | ok a s' =>
    rw [hrun] at hx hx'
    exact ⟨hx, hx'⟩
  | error e s' =>
    rw [hrun] at hx hx'
    exact ⟨hx, hx'⟩

theorem Ensures.ok {x : EStateM ε σ β} {Q : β → σ → Prop} {E : ε → σ → Prop}
    (hx : Ensures x s Q E) (h : x s = .ok a s') : Q a s' := by
  simpa [Ensures, h] using hx

end SilkChiffon.Effects
