import Mathlib.Data.List.Basic
import Mathlib.Data.List.Forall2
import Mathlib.Algebra.BigOperators.Group.List.Basic

/-!
# Lists as tables, and fallible maps

Tables are lists and an operation names a row by its position or its key.
Splitting the list around a position reduces every update to
`before ++ row :: after`.
-/

namespace SilkChiffon.Lists

theorem split_at {l : List α} (h : l[i]? = some x) :
    ∃ before after, l = before ++ x :: after ∧ before.length = i ∧
      (∀ y, l.set i y = before ++ y :: after) ∧ l.eraseIdx i = before ++ after := by
  obtain ⟨hi, rfl⟩ := List.getElem?_eq_some_iff.mp h
  refine ⟨l.take i, l.drop (i + 1), by simp, by simp; omega, ?_, ?_⟩
  · intro y
    exact List.set_eq_take_append_cons_drop .. |>.trans (by simp [hi])
  · exact List.eraseIdx_eq_take_drop_succ ..

theorem bind_eq_ok {x : Except ε α} {f : α → Except ε β} :
    (x >>= f) = .ok b ↔ ∃ a, x = .ok a ∧ f a = .ok b := by
  cases x <;> simp [bind, Except.bind]

theorem mapError_eq_ok {x : Except ε α} {f : ε → ε'} : x.mapError f = .ok a ↔ x = .ok a := by
  cases x <;> simp [Except.mapError]

theorem map_eq_ok {x : Except ε α} {f : α → β} : x.map f = .ok b ↔ ∃ a, x = .ok a ∧ f a = b := by
  cases x <;> simp [Except.map]

theorem ite_throw_ok [Decidable c] {f : PUnit → Except ε β} :
    (if c then throw e >>= f else f ⟨⟩) = .ok b ↔ ¬ c ∧ f ⟨⟩ = .ok b := by
  split
  · rename_i hc
    exact ⟨fun h => (nomatch h), fun h => absurd hc h.1⟩
  · rename_i hc
    exact ⟨fun h => ⟨hc, h⟩, And.right⟩

/-- Mapping with a fallible function gives the images `g` promises exactly
when it gives each of them. -/
theorem mapM_eq_ok_map {l : List α} {f : α → Except ε β} {g : α → β} :
    l.mapM f = .ok (l.map g) ↔ ∀ a ∈ l, f a = .ok (g a) := by
  induction l with
  | nil => simp [pure, Except.pure]
  | cons a rest ih =>
    rw [List.mapM_cons, List.forall_mem_cons, ← ih]
    cases ha : f a with
    | error e => simp [bind, Except.bind]
    | ok b =>
      cases hrest : rest.mapM f with
      | error e => simp [bind, Except.bind]
      | ok bs => simp [bind, Except.bind, pure, Except.pure]

theorem mapM_eq_ok_iff_forall₂ {l : List α} {f : α → Except ε β} {bs : List β} :
    l.mapM f = .ok bs ↔ List.Forall₂ (fun a b => f a = .ok b) l bs := by
  induction l generalizing bs with
  | nil => cases bs <;> simp [pure, Except.pure]
  | cons a rest ih =>
    simp only [List.mapM_cons, bind_eq_ok, ih, List.forall₂_cons_left_iff]
    constructor
    · rintro ⟨b, hb, bs', hbs, h⟩
      cases h
      exact ⟨b, bs', hb, hbs, rfl⟩
    · rintro ⟨b, bs', hb, hbs, rfl⟩
      exact ⟨b, hb, bs', hbs, rfl⟩

theorem mapM_append_eq_ok {l l' : List α} {f : α → Except ε β} {bs : List β} :
    (l ++ l').mapM f = .ok bs ↔ ∃ cs cs', l.mapM f = .ok cs ∧ l'.mapM f = .ok cs' ∧ bs = cs ++ cs' := by
  rw [List.mapM_append]
  cases l.mapM f <;> cases l'.mapM f <;> simp [bind, Except.bind, pure, Except.pure, eq_comm]

theorem mapM_cons_eq_ok {x : α} {l : List α} {f : α → Except ε β} {bs : List β} :
    (x :: l).mapM f = .ok bs ↔ ∃ c cs, f x = .ok c ∧ l.mapM f = .ok cs ∧ bs = c :: cs := by
  rw [List.mapM_cons]
  cases f x <;> cases l.mapM f <;> simp [bind, Except.bind, pure, Except.pure, eq_comm]

theorem mapM_replace {before after : List α} {f : α → Except ε β} {x y : α} {bs : List β}
    (h : ∀ b, f x = .ok b ↔ f y = .ok b) :
    (before ++ x :: after).mapM f = .ok bs ↔ (before ++ y :: after).mapM f = .ok bs := by
  simp only [mapM_append_eq_ok, mapM_cons_eq_ok, h]

theorem mapM_eq_ok_self {l : List α} {f : α → Except ε α} :
    l.mapM f = .ok l ↔ ∀ a ∈ l, f a = .ok a := by
  simpa using mapM_eq_ok_map (l := l) (f := f) (g := id)

theorem mapM_eq_some_iff_forall₂ {l : List α} {f : α → Option β} {bs : List β} :
    l.mapM f = some bs ↔ List.Forall₂ (fun a b => f a = some b) l bs := by
  induction l generalizing bs with
  | nil => cases bs <;> simp
  | cons a rest ih =>
    simp only [List.mapM_cons, Option.bind_eq_bind, Option.bind_eq_some_iff, Option.pure_def,
      Option.some.injEq, ih, List.forall₂_cons_left_iff]
    constructor
    · rintro ⟨b, hb, bs', hbs, rfl⟩
      exact ⟨b, bs', hb, hbs, rfl⟩
    · rintro ⟨b, bs', hb, hbs, rfl⟩
      exact ⟨b, hb, bs', hbs, rfl⟩

theorem mem_of_mapM_some {l : List α} {f : α → Option β} (h : l.mapM f = some bs) (hb : b ∈ bs) :
    ∃ a ∈ l, f a = some b := by
  induction mapM_eq_some_iff_forall₂.mp h with
  | nil => cases hb
  | @cons a b' l bs hfa hrest ih =>
    rcases List.mem_cons.mp hb with rfl | hb
    · exact ⟨a, by simp, hfa⟩
    · obtain ⟨a', ha', hfa'⟩ := ih (mapM_eq_some_iff_forall₂.mpr hrest) hb
      exact ⟨a', List.mem_cons_of_mem _ ha', hfa'⟩

theorem lookup_eq_some [BEq κ] [LawfulBEq κ] {l : List (κ × β)} (h : (k, v) ∈ l)
    (honly : ∀ v', (k, v') ∈ l → v' = v) : l.lookup k = some v := by
  induction l with
  | nil => cases h
  | cons p rest ih =>
    obtain ⟨k', v'⟩ := p
    by_cases hk : k = k'
    · subst hk
      simp [honly v' (by simp)]
    · rw [List.lookup_cons, beq_false_of_ne hk]
      refine ih ?_ fun v'' h'' => honly v'' (List.mem_cons_of_mem _ h'')
      simpa [hk] using h

theorem filterMap_range_filter (q : α → Bool) (l : List α) :
    ((List.range l.length).filter fun i => (l[i]?).any q).filterMap (l[·]?) = l.filter q := by
  induction l with
  | nil => rfl
  | cons a l ih =>
    rw [List.length_cons, List.range_succ_eq_map, List.filter_cons, List.filter_map]
    cases hq : q a with
    | true => simpa [hq, List.filterMap_map, Function.comp_def] using ih
    | false => simpa [hq, List.filterMap_map, Function.comp_def] using ih

/-- Without the repetitions of an element that follow it directly. -/
def dedupConsecutive [DecidableEq α] : List α → List α
  | [] => []
  | [a] => [a]
  | a :: b :: rest =>
    if a = b then dedupConsecutive (b :: rest) else a :: dedupConsecutive (b :: rest)

theorem mem_dedupConsecutive [DecidableEq α] {l : List α} : a ∈ dedupConsecutive l ↔ a ∈ l := by
  fun_induction dedupConsecutive l with
  | case1 => rfl
  | case2 => rfl
  | case3 b rest ih => simp [ih]
  | case4 a' b rest hne ih => simp [ih]

theorem notMem_of_mem_splitOn [BEq α] [LawfulBEq α] {a : α} {l part : List α}
    (h : part ∈ l.splitOn a) : a ∉ part := by
  induction l generalizing part with
  | nil =>
    obtain rfl : part = [] := by simpa [List.splitOn_eq_splitOnP] using h
    exact List.not_mem_nil
  | cons x xs ih =>
    rw [List.splitOn_cons_eq_if_modifyHead] at h
    by_cases hx : x = a
    · rw [if_pos (by simp [hx])] at h
      rcases List.mem_cons.mp h with rfl | h
      · exact List.not_mem_nil
      · exact ih h
    · rw [if_neg (by simp [hx])] at h
      obtain ⟨first, rest, hsplit⟩ := List.exists_cons_of_ne_nil (List.splitOn_ne_nil a xs)
      rw [hsplit, List.modifyHead_cons] at h
      rw [hsplit] at ih
      rcases List.mem_cons.mp h with rfl | h
      · rw [List.mem_cons, not_or]
        exact ⟨Ne.symm hx, ih List.mem_cons_self⟩
      · exact ih (List.mem_cons_of_mem _ h)

theorem mem_of_mem_splitOn [BEq α] [LawfulBEq α] {a x : α} {l part : List α} (h : part ∈ l.splitOn a)
    (hx : x ∈ part) : x ∈ l := by
  induction l generalizing part with
  | nil =>
    obtain rfl : part = [] := by simpa [List.splitOn_eq_splitOnP] using h
    cases hx
  | cons y ys ih =>
    rw [List.splitOn_cons_eq_if_modifyHead] at h
    split at h
    · rcases List.mem_cons.mp h with rfl | h
      · cases hx
      · exact List.mem_cons_of_mem _ (ih h hx)
    · obtain ⟨first, rest, hsplit⟩ := List.exists_cons_of_ne_nil (List.splitOn_ne_nil a ys)
      rw [hsplit, List.modifyHead_cons] at h
      rw [hsplit] at ih
      rcases List.mem_cons.mp h with rfl | h
      · rcases List.mem_cons.mp hx with rfl | hx
        · exact List.mem_cons_self
        · exact List.mem_cons_of_mem _ (ih List.mem_cons_self hx)
      · exact List.mem_cons_of_mem _ (ih (List.mem_cons_of_mem _ h) hx)

theorem exists_mapM_ok {l : List α} {f : α → Except ε β} :
    (∃ bs, l.mapM f = .ok bs) ↔ ∀ a ∈ l, ∃ b, f a = .ok b := by
  induction l with
  | nil => simp [pure, Except.pure]
  | cons a rest ih =>
    simp only [List.mapM_cons, bind_eq_ok, List.forall_mem_cons, ← ih]
    constructor
    · rintro ⟨_, b, hb, bs, hbs, _⟩
      exact ⟨⟨b, hb⟩, bs, hbs⟩
    · rintro ⟨⟨b, hb⟩, bs, hbs⟩
      exact ⟨b :: bs, b, hb, bs, hbs, rfl⟩

end SilkChiffon.Lists
