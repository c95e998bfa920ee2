import Mathlib.Logic.Relation
import Mathlib.Order.WellFounded

/-!
# What is bound to happen

Two ways in which a goal is met whatever happens next. Where every step counts
down, `Inevitable` says so of all continuations. Where parties may also wait,
it is said of the runs that are fair to them.
-/

namespace SilkChiffon.Liveness

variable {σ β : Type}

-- ---------------------------------------------------------------------------
-- All continuations
-- ---------------------------------------------------------------------------

/-- Every way of going on by `step` meets the goal, and until then a step is
`due`, so that nothing gets stuck. -/
inductive Inevitable (due step : σ → σ → Prop) (goal : σ → Prop) : σ → Prop
  | met (h : goal x) : Inevitable due step goal x
  | later (hdue : ∃ y, due x y ∧ step x y) (h : ∀ y, step x y → Inevitable due step goal y) :
      Inevitable due step goal x

/-- A goal is inevitable when every step lowers what is left to do. -/
theorem inevitable_of_descent [Preorder β] [WellFoundedLT β] {due step : σ → σ → Prop}
    {goal : σ → Prop} (Inv : σ → Prop) (work : σ → β) (hkept : ∀ x y, Inv x → step x y → Inv y)
    (hless : ∀ x y, Inv x → step x y → work y < work x)
    (hdue : ∀ x, Inv x → goal x ∨ ∃ y, due x y ∧ step x y) (h : Inv x) :
    Inevitable due step goal x := by
  induction hw : work x using WellFoundedLT.induction generalizing x with
  | ind w ih =>
    subst hw
    rcases hdue x h with hgoal | hdue
    · exact .met hgoal
    · exact .later hdue fun y step => ih _ (hless x y h step) (hkept x y h step) rfl

-- ---------------------------------------------------------------------------
-- Fair runs
-- ---------------------------------------------------------------------------

/-- A turn that can be taken from some time on is taken. -/
def WeaklyFair (turn : σ → σ → Prop) (run : Nat → σ) : Prop :=
  ∀ n, (∀ m, n ≤ m → ∃ y, turn (run m) y) → ∃ m, n ≤ m ∧ turn (run m) (run (m + 1))

theorem weaklyFair_of_quiet {turn : σ → σ → Prop} {run : Nat → σ} (hlast : ∀ n, N ≤ n → run n = last)
    (hquiet : ∀ y, ¬ turn last y) : WeaklyFair turn run := by
  intro n henabled
  obtain ⟨y, hy⟩ := henabled (max n N) (Nat.le_max_left n N)
  rw [hlast _ (Nat.le_max_right n N)] at hy
  exact absurd hy (hquiet y)

theorem exists_run {step : σ → σ → Prop} (h : Relation.ReflTransGen step x last) :
    ∃ run : Nat → σ, run 0 = x ∧ (∀ n, run (n + 1) = run n ∨ step (run n) (run (n + 1))) ∧
      ∃ N, ∀ n, N ≤ n → run n = last := by
  induction h using Relation.ReflTransGen.head_induction_on with
  | refl => exact ⟨fun _ => last, rfl, fun _ => .inl rfl, 0, fun _ _ => rfl⟩
  | @head x y hstep _ ih =>
    obtain ⟨run, hstart, hsteps, N, hlast⟩ := ih
    refine ⟨fun n => Nat.casesOn n x run, rfl, fun n => ?_, N + 1, fun n hn => ?_⟩
    · cases n with
      | zero => exact .inr (by rw [← hstart] at hstep; exact hstep)
      | succ n => exact hsteps n
    · cases n with
      | zero => cases hn
      | succ n => exact hlast n (Nat.le_of_succ_le_succ hn)

/-- A goal is reached when what is left to do is lowered again and again. -/
theorem reaches_of_descent [Preorder β] [WellFoundedLT β] {goal : Nat → Prop} (work : Nat → β)
    (h : ∀ n, start ≤ n → goal n ∨ ∃ m, n ≤ m ∧ (goal m ∨ work m < work n)) :
    ∃ n, start ≤ n ∧ goal n := by
  suffices hfrom : ∀ w n, start ≤ n → work n = w → ∃ m, start ≤ m ∧ goal m from
    hfrom _ start (Nat.le_refl _) rfl
  intro w
  induction w using WellFoundedLT.induction with
  | ind w ih =>
    rintro n hn rfl
    rcases h n hn with hgoal | ⟨m, hm, hgoal | hless⟩
    · exact ⟨n, hn, hgoal⟩
    · exact ⟨m, Nat.le_trans hn hm, hgoal⟩
    · exact ih _ hless m (Nat.le_trans hn hm) rfl

end SilkChiffon.Liveness
