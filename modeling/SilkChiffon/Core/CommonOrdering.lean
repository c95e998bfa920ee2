import SilkChiffon.Lib.Lexicographic

/-!
# The ordering of a file group

Files read as one table are ordered as far as every one of them is: by the
longest ordering that all declared orderings begin with. An engine that is told
more would leave out a sort that is needed.
-/

namespace SilkChiffon.FileInput

open Lexicographic (SortedBy)

variable {S L R : Type}

/-- Orderings as the engine has them: lists of sort expressions that are not
empty, made again from the first of their expressions. -/
structure OrderingCrate (S L : Type) where
  exprs : L → List S
  new : List S → Option L
  exprs_ne_nil : exprs ordering ≠ []
  new_front : List.IsPrefix front (exprs ordering) → front ≠ [] → ∃ made, new front = some made ∧ exprs made = front
  new_nil : new [] = none

/-- An ordering by expressions with options, none of them repeated. -/
structure LexOrdering (E O : Type) where
  exprs : List (E × O)
  nonempty : exprs ≠ []
  distinct : (exprs.map Prod.fst).Nodup

/-- An expression that was there before is left out, whatever its options. -/
def pushExpr {E O : Type} [DecidableEq E] (exprs : List (E × O)) (expr : E × O) : List (E × O) :=
  if expr.1 ∈ exprs.map Prod.fst then exprs else exprs ++ [expr]

theorem distinct_foldl_pushExpr {E O : Type} [DecidableEq E] {before exprs : List (E × O)}
    (h : (before.map Prod.fst).Nodup) : ((exprs.foldl pushExpr before).map Prod.fst).Nodup := by
  induction exprs generalizing before with
  | nil => exact h
  | cons expr exprs ih =>
    refine ih ?_
    unfold pushExpr
    split
    · exact h
    · rename_i hnew
      rw [List.map_append]
      exact List.nodup_append.mpr ⟨h, by simp, by simpa using fun a ha he => hnew (List.mem_map.mpr ⟨a, ha, he⟩)⟩

theorem foldl_pushExpr {E O : Type} [DecidableEq E] {before exprs : List (E × O)}
    (h : ((before ++ exprs).map Prod.fst).Nodup) : exprs.foldl pushExpr before = before ++ exprs := by
  induction exprs generalizing before with
  | nil => simp
  | cons expr exprs ih =>
    have hnew : expr.1 ∉ before.map Prod.fst := by
      rw [List.map_append] at h
      intro hmem
      exact (List.nodup_append.mp h).2.2 _ hmem _ (by simp) rfl
    rw [List.foldl_cons, pushExpr, if_neg hnew, ih (by simpa using h)]
    simp

def LexOrdering.new {E O : Type} [DecidableEq E] (exprs : List (E × O)) : Option (LexOrdering E O) :=
  if h : exprs.foldl pushExpr [] ≠ [] then some ⟨_, h, distinct_foldl_pushExpr (by simp)⟩ else none

def lexOrderings (E O : Type) [DecidableEq E] : OrderingCrate (E × O) (LexOrdering E O) where
  exprs := LexOrdering.exprs
  new := LexOrdering.new
  exprs_ne_nil := LexOrdering.nonempty _
  new_front {front ordering} hfront hne := by
    have hdistinct : (front.map Prod.fst).Nodup := List.Nodup.sublist (hfront.sublist.map _) ordering.distinct
    have hsame : front.foldl pushExpr [] = front := foldl_pushExpr hdistinct
    refine ⟨⟨front, hne, hdistinct⟩, ?_, rfl⟩
    have hkept : front.foldl pushExpr [] ≠ [] := by
      rw [hsame]
      exact hne
    unfold LexOrdering.new
    rw [dif_pos hkept]
    simp [hsame]
  new_nil := rfl

structure PartitionedFile (L : Type) where
  ordering : Option L
  deriving DecidableEq

def prefixLen [DecidableEq S] (left right : List S) : Nat :=
  ((left.zip right).takeWhile fun pair => pair.1 = pair.2).length

def shorten [DecidableEq S] (crate : OrderingCrate S L) (common : L) : List (PartitionedFile L) → List L
  | [] => [common]
  | file :: rest =>
    match file.ordering with
    | none => []
    | some ordering =>
      match crate.new ((crate.exprs common).take (prefixLen (crate.exprs common) (crate.exprs ordering))) with
      | none => []
      | some front => shorten crate front rest

def commonOutputOrdering [DecidableEq S] (crate : OrderingCrate S L) (files : List (PartitionedFile L)) : List L :=
  match files.head?.bind PartitionedFile.ordering with
  | none => []
  | some first => shorten crate first files.tail

-- ---------------------------------------------------------------------------
-- The longest common front
-- ---------------------------------------------------------------------------

theorem isPrefix_take_prefixLen [DecidableEq S] {q left right : List S} :
    q <+: left.take (prefixLen left right) ↔ q <+: left ∧ q <+: right := by
  induction left generalizing q right with
  | nil => simp +contextual [prefixLen]
  | cons a left ih =>
    cases right with
    | nil => simp +contextual [prefixLen]
    | cons b right =>
      cases q with
      | nil => simp
      | cons c q =>
        by_cases hab : a = b
        · subst hab
          have hlen : prefixLen (a :: left) (a :: right) = prefixLen left right + 1 := by simp [prefixLen]
          rw [hlen, List.take_succ_cons, List.cons_prefix_cons, List.cons_prefix_cons, List.cons_prefix_cons, ih]
          exact ⟨fun h => ⟨⟨h.1, h.2.1⟩, h.1, h.2.2⟩, fun h => ⟨h.1.1, h.1.2, h.2.2⟩⟩
        · have hlen : prefixLen (a :: left) (b :: right) = 0 := by simp [prefixLen, hab]
          rw [hlen, List.take_zero, List.cons_prefix_cons, List.cons_prefix_cons]
          constructor
          · intro h
            cases List.prefix_nil.mp h
          · rintro ⟨⟨rfl, -⟩, rfl, -⟩
            exact absurd rfl hab

def PartitionedFile.Begins (crate : OrderingCrate S L) (q : List S) (file : PartitionedFile L) : Prop :=
  ∃ ordering, file.ordering = some ordering ∧ q <+: crate.exprs ordering

theorem PartitionedFile.begins_iff {crate : OrderingCrate S L} {file : PartitionedFile L} {ordering : L}
    (h : file.ordering = some ordering) : file.Begins crate q ↔ q <+: crate.exprs ordering := by
  constructor
  · rintro ⟨other, hother, hq⟩
    obtain rfl := Option.some.inj (h.symm.trans hother)
    exact hq
  · exact fun hq => ⟨ordering, h, hq⟩

/-- What is left is what the ordering so far and all other files begin with,
or one of them has no ordering, or they begin with nothing in common. -/
theorem shorten_cases [DecidableEq S] (crate : OrderingCrate S L) (common : L) (rest : List (PartitionedFile L)) :
    (∃ ordering, shorten crate common rest = [ordering] ∧
      ∀ q, q <+: crate.exprs ordering ↔ q <+: crate.exprs common ∧ ∀ file ∈ rest, file.Begins crate q) ∨
    shorten crate common rest = [] ∧ ((∃ file ∈ rest, file.ordering = none) ∨
      ∀ q, q <+: crate.exprs common → (∀ file ∈ rest, file.Begins crate q) → q = []) := by
  induction rest generalizing common with
  | nil => exact .inl ⟨common, rfl, by simp⟩
  | cons file rest ih =>
    cases hordering : file.ordering with
    | none => exact .inr ⟨by rw [shorten, hordering], .inl ⟨file, List.mem_cons_self, hordering⟩⟩
    | some ordering =>
      have hbegins : ∀ q, file.Begins crate q ↔ q <+: crate.exprs ordering :=
        fun q => PartitionedFile.begins_iff hordering
      have hboth : ∀ q, q <+: (crate.exprs common).take (prefixLen (crate.exprs common) (crate.exprs ordering)) ↔
          q <+: crate.exprs common ∧ q <+: crate.exprs ordering := fun q => isPrefix_take_prefixLen
      rw [shorten, hordering]
      dsimp only
      generalize htake : (crate.exprs common).take (prefixLen (crate.exprs common) (crate.exprs ordering)) = front at hboth ⊢
      by_cases hnil : front = []
      · rw [hnil, crate.new_nil]
        refine .inr ⟨rfl, .inr fun q hq hall => ?_⟩
        rw [List.forall_mem_cons, hbegins] at hall
        exact List.prefix_nil.mp (hnil ▸ (hboth q).mpr ⟨hq, hall.1⟩)
      · obtain ⟨made, hmade, hexprs⟩ := crate.new_front (htake ▸ List.take_prefix ..) hnil
        rw [hmade]
        dsimp only
        rcases ih made with ⟨result, hresult, hlongest⟩ | ⟨hresult, hnone⟩
        · refine .inl ⟨result, hresult, fun q => ?_⟩
          rw [hlongest, hexprs, hboth, List.forall_mem_cons, hbegins, and_assoc]
        · refine .inr ⟨hresult, ?_⟩
          rcases hnone with ⟨other, hmem, hother⟩ | hempty
          · exact .inl ⟨other, List.mem_cons_of_mem _ hmem, hother⟩
          · refine .inr fun q hq hall => ?_
            rw [List.forall_mem_cons, hbegins] at hall
            exact hempty q (hexprs ▸ (hboth q).mpr ⟨hq, hall.1⟩) hall.2

theorem commonOutputOrdering_cases [DecidableEq S] (crate : OrderingCrate S L) (first : PartitionedFile L)
    (rest : List (PartitionedFile L)) :
    (∃ ordering, commonOutputOrdering crate (first :: rest) = [ordering] ∧
      ∀ q, q <+: crate.exprs ordering ↔ ∀ file ∈ first :: rest, file.Begins crate q) ∨
    commonOutputOrdering crate (first :: rest) = [] ∧ ((∃ file ∈ first :: rest, file.ordering = none) ∨
      ∀ q, (∀ file ∈ first :: rest, file.Begins crate q) → q = []) := by
  cases hfirst : first.ordering with
  | none =>
    refine .inr ⟨?_, .inl ⟨first, List.mem_cons_self, hfirst⟩⟩
    simp [commonOutputOrdering, hfirst]
  | some ordering =>
    have heq : commonOutputOrdering crate (first :: rest) = shorten crate ordering rest := by
      simp [commonOutputOrdering, hfirst]
    simp only [heq, List.forall_mem_cons, PartitionedFile.begins_iff hfirst]
    rcases shorten_cases crate ordering rest with h | ⟨hresult, hnone⟩
    · exact .inl h
    · refine .inr ⟨hresult, ?_⟩
      rcases hnone with ⟨file, hmem, hfile⟩ | hempty
      · exact .inl ⟨file, List.mem_cons_of_mem _ hmem, hfile⟩
      · exact .inr fun q hall => hempty q hall.1 hall.2

/-- The group claims the longest ordering that all its files begin with, if
there is one; rows sorted as their file declares are sorted so. -/
theorem commonOutputOrdering_exact [DecidableEq S] (crate : OrderingCrate S L) (first : PartitionedFile L)
    (rest : List (PartitionedFile L)) :
    (commonOutputOrdering crate (first :: rest) = [] ↔
      (∃ file ∈ first :: rest, file.ordering = none) ∨
        ∀ q, (∀ file ∈ first :: rest, file.Begins crate q) → q = []) ∧
    (commonOutputOrdering crate (first :: rest) ≠ [] →
      ∃ ordering, commonOutputOrdering crate (first :: rest) = [ordering] ∧
        (∀ file ∈ first :: rest, file.Begins crate (crate.exprs ordering)) ∧
        (∀ q, (∀ file ∈ first :: rest, file.Begins crate q) → q <+: crate.exprs ordering) ∧
        ∀ (cmp : S → R → R → Ordering) (rows : List R), ∀ file ∈ first :: rest, ∀ declared,
          file.ordering = some declared → SortedBy cmp (crate.exprs declared) rows →
          SortedBy cmp (crate.exprs ordering) rows) := by
  rcases commonOutputOrdering_cases crate first rest with ⟨ordering, hresult, hlongest⟩ | ⟨hresult, hnone⟩
  · have hall := (hlongest (crate.exprs ordering)).mp (List.prefix_refl _)
    rw [hresult]
    refine ⟨⟨nofun, ?_⟩, fun _ => ⟨ordering, rfl, hall, fun q => (hlongest q).mpr, ?_⟩⟩
    · rintro (⟨file, hmem, hfile⟩ | hempty)
      · obtain ⟨declared, hdeclared, -⟩ := hall file hmem
        cases hfile.symm.trans hdeclared
      · exact absurd (hempty _ hall) crate.exprs_ne_nil
    · intro cmp rows file hmem declared hdeclared hsorted
      exact hsorted.of_prefix ((PartitionedFile.begins_iff hdeclared).mp (hall file hmem))
  · exact ⟨⟨fun _ => hnone, fun _ => hresult⟩, fun hne => absurd hresult hne⟩

end SilkChiffon.FileInput
