import SilkChiffon.BigQuery.PushdownText

/-!
# What a row restriction denotes

The text of a translated filter denotes the filter's own tree of `AND`, `OR`
and `NOT`, with the predicate of each leaf in its place, and the row
restriction the conjunction of the translated filters and the explicit
restriction.
-/

namespace SilkChiffon.GoogleSql

open Pushdown ThreeValued

/-- The tree of an expression over the expressions that are none of `AND`,
`OR` and `NOT`. -/
def condition : Expr → Condition Expr
  | .binaryExpr left .and right => .and (condition left) (condition right)
  | .binaryExpr left .or right => .or (condition left) (condition right)
  | .not child => .not (condition child)
  | leaf => .leaf leaf

def conditionText : Condition Text → Text
  | .leaf text => text
  | .and left right =>
    "(".toList ++ conditionText left ++ " AND ".toList ++ conditionText right ++ ")".toList
  | .or left right =>
    "(".toList ++ conditionText left ++ " OR ".toList ++ conditionText right ++ ")".toList
  | .not child => "(NOT ".toList ++ conditionText child ++ ")".toList

-- ---------------------------------------------------------------------------
-- The loop
-- ---------------------------------------------------------------------------

def expressionText (fmt : Formatting) (schema : SessionSchema) (e : Expr) : Option Text :=
  ((condition e).traverse (translateLeaf fmt schema)).map conditionText

/-- An expression on top of the pending items adds its text and leaves the
others pending, or ends the loop. -/
theorem translateLoop_expression (e : Expr) (sql : Text) (pending : List Translation) :
    translateLoop fmt schema sql (.expression e :: pending) =
      (expressionText fmt schema e).bind fun text => translateLoop fmt schema (sql ++ text) pending := by
  unfold expressionText
  fun_induction condition e generalizing sql pending with
  | case1 left right ihl ihr =>
    rw [translateLoop, ihl]
    simp only [translateLoop, ihr, Condition.traverse]
    cases (condition left).traverse (translateLeaf fmt schema) with
    | none => rfl
    | some l =>
      cases (condition right).traverse (translateLeaf fmt schema) with
      | none => rfl
      | some r => simp [conditionText]
  | case2 left right ihl ihr =>
    rw [translateLoop, ihl]
    simp only [translateLoop, ihr, Condition.traverse]
    cases (condition left).traverse (translateLeaf fmt schema) with
    | none => rfl
    | some l =>
      cases (condition right).traverse (translateLeaf fmt schema) with
      | none => rfl
      | some r => simp [conditionText]
  | case3 child ih =>
    rw [translateLoop, ih]
    simp only [translateLoop, Condition.traverse]
    cases (condition child).traverse (translateLeaf fmt schema) with
    | none => rfl
    | some c => simp [conditionText]
  | case4 leaf hand hor hnot =>
    simp only [translateLoop, Condition.traverse]
    cases translateLeaf fmt schema leaf with
    | none => rfl
    | some text => rfl

theorem translate_eq (e : Expr) : translate fmt schema e = expressionText fmt schema e := by
  rw [Pushdown.translate, translateLoop_expression]
  cases expressionText fmt schema e <;> simp [translateLoop]

theorem translate_eq_none :
    translate fmt schema e = none ↔
      ∃ leaf ∈ (condition e).leaves, translateLeaf fmt schema leaf = none := by
  rw [translate_eq, expressionText, Option.map_eq_none_iff, Condition.traverse_eq_none]

-- ---------------------------------------------------------------------------
-- Reading the text back
-- ---------------------------------------------------------------------------

def IsExpression (foreign : Foreign φ) (text : Text) (c : Condition (Predicate φ)) : Prop :=
  ∃ ts, Reads text ts ∧ ∀ rest,
    Parses foreign .or (ts ++ .symbol ')' :: rest) c (.symbol ')' :: rest)

section
variable {foreign : Foreign φ}

theorem IsUnary.expression (h : IsUnary foreign text c) : IsExpression foreign text c := by
  obtain ⟨ts, hreads, hparses⟩ := h
  exact ⟨ts, hreads, fun rest => (hparses _).of_unary ends_paren ends_paren⟩

theorem IsUnary.denotes (h : IsUnary foreign text c) : Denotes foreign text c := by
  obtain ⟨ts, hreads, hparses⟩ := h
  have := (hparses []).of_unary trivial trivial
  rw [List.append_nil] at this
  exact ⟨ts, hreads.scan, this⟩

theorem IsExpression.parenthesized (h : IsExpression foreign text c) :
    IsUnary foreign (parenthesized text) c := by
  obtain ⟨ts, hreads, hparses⟩ := h
  have hopen : Closes "(".toList [.symbol '('] := rfl
  have hclose : Reads ")".toList [.symbol ')'] := Closes.reads rfl
  have hread := hopen.reads_append (hreads.append (.inr (.inr rfl)) hclose)
  refine ⟨_, hread, fun rest => ?_⟩
  simpa using Parses.paren (hparses rest)

theorem IsUnary.and_expression (hl : IsUnary foreign l cl) (hr : IsUnary foreign r cr) :
    IsExpression foreign (l ++ " AND ".toList ++ r) (.and cl cr) := by
  obtain ⟨tl, hlreads, hl⟩ := hl
  obtain ⟨tr, hrreads, hr⟩ := hr
  have hand : Closes [' ', 'A', 'N', 'D', ' '] [.keyword .and] := rfl
  rw [List.append_assoc, show " AND ".toList = [' ', 'A', 'N', 'D', ' '] from rfl]
  refine ⟨tl ++ ([.keyword .and] ++ tr), reads_join hlreads hand (.inl rfl) hrreads,
    fun rest => ?_⟩
  have hmore : ParsesMore foreign .and cl (.keyword .and :: (tr ++ .symbol ')' :: rest)) (.and cl cr)
      (.symbol ')' :: rest) := .and (hr _) (.stop ends_paren)
  simpa using Parses.or (.and (hl _) hmore) (.stop ends_paren)

theorem IsUnary.or_expression (hl : IsUnary foreign l cl) (hr : IsUnary foreign r cr) :
    IsExpression foreign (l ++ " OR ".toList ++ r) (.or cl cr) := by
  obtain ⟨tl, hlreads, hl⟩ := hl
  obtain ⟨tr, hrreads, hr⟩ := hr
  have hor : Closes [' ', 'O', 'R', ' '] [.keyword .or] := rfl
  rw [List.append_assoc, show " OR ".toList = [' ', 'O', 'R', ' '] from rfl]
  refine ⟨tl ++ ([.keyword .or] ++ tr), reads_join hlreads hor (.inl rfl) hrreads,
    fun rest => ?_⟩
  have hright : Parses foreign .and (tr ++ .symbol ')' :: rest) cr (.symbol ')' :: rest) :=
    .and (hr _) (.stop ends_paren)
  have hmore : ParsesMore foreign .or cl (.keyword .or :: (tr ++ .symbol ')' :: rest)) (.or cl cr)
      (.symbol ')' :: rest) := .or hright (.stop ends_paren)
  simpa using Parses.or (.and (hl _) (.stop ends_or)) hmore

theorem IsUnary.not_expression (h : IsUnary foreign text c) :
    IsExpression foreign ("NOT ".toList ++ text) (.not c) := by
  obtain ⟨ts, hreads, hparses⟩ := h
  have hnot : Closes "NOT ".toList [.keyword .not] := rfl
  exact ⟨_, hnot.reads_append hreads, fun rest => (hparses _).not.of_unary ends_paren ends_paren⟩

theorem conditionText_unary {c : Condition α} {f : α → Option Text}
    {g : α → Option (Predicate φ)} (h : c.traverse f = some texts)
    (hleaf : ∀ a text, f a = some text → ∃ p, g a = some p ∧ IsUnary foreign text (.leaf p)) :
    ∃ c', c.traverse g = some c' ∧ IsUnary foreign (conditionText texts) c' := by
  induction c generalizing texts with
  | leaf a =>
    obtain ⟨text, htext, rfl⟩ := Option.map_eq_some_iff.mp h
    obtain ⟨p, hp, hunary⟩ := hleaf a text htext
    exact ⟨.leaf p, by simp [Condition.traverse, hp], hunary⟩
  | and left right ihl ihr =>
    simp only [Condition.traverse, Option.bind_eq_bind, Option.bind_eq_some_iff] at h
    obtain ⟨l, hl, r, hr, h⟩ := h
    cases h
    obtain ⟨cl, hcl, hlunary⟩ := ihl hl
    obtain ⟨cr, hcr, hrunary⟩ := ihr hr
    refine ⟨.and cl cr, by simp [Condition.traverse, hcl, hcr], ?_⟩
    simpa [conditionText, Pushdown.parenthesized] using
      (hlunary.and_expression hrunary).parenthesized
  | or left right ihl ihr =>
    simp only [Condition.traverse, Option.bind_eq_bind, Option.bind_eq_some_iff] at h
    obtain ⟨l, hl, r, hr, h⟩ := h
    cases h
    obtain ⟨cl, hcl, hlunary⟩ := ihl hl
    obtain ⟨cr, hcr, hrunary⟩ := ihr hr
    refine ⟨.or cl cr, by simp [Condition.traverse, hcl, hcr], ?_⟩
    simpa [conditionText, Pushdown.parenthesized] using
      (hlunary.or_expression hrunary).parenthesized
  | not child ih =>
    simp only [Condition.traverse, Option.bind_eq_bind, Option.bind_eq_some_iff] at h
    obtain ⟨t, ht, h⟩ := h
    cases h
    obtain ⟨c, hc, hunary⟩ := ih ht
    refine ⟨.not c, by simp [Condition.traverse, hc], ?_⟩
    simpa [conditionText, Pushdown.parenthesized] using hunary.not_expression.parenthesized

/-- A translated expression denotes its own tree, a predicate at each leaf. -/
theorem translate_unary (foreign : Foreign φ) (hfmt : Lawful fmt) (h : translate fmt schema e = some text) :
    ∃ c, (condition e).traverse (leafPredicate fmt schema) = some c ∧ IsUnary foreign text c := by
  rw [translate_eq, expressionText, Option.map_eq_some_iff] at h
  obtain ⟨texts, htexts, rfl⟩ := h
  exact conditionText_unary htexts fun _ _ => translateLeaf_unary hfmt

-- ---------------------------------------------------------------------------
-- Row restrictions
-- ---------------------------------------------------------------------------

/-- What pushing a filter down asks for, if it is pushed down. -/
def filterCondition (fmt : Formatting) (schema : SessionSchema) (e : Expr) :
    Option (Condition (Predicate φ)) := do
  let _ ← translate fmt schema e
  (condition e).traverse (leafPredicate fmt schema)

/-- What an explicit restriction asks for; an empty one asks for nothing. -/
def ExplicitDenotes (foreign : Foreign φ) :
    Option Text → Option (Condition (Predicate φ)) → Prop
  | none, c | some [], c => c = none
  | some text, c => ∃ c', c = some c' ∧ IsExpression foreign text c'

theorem filters_unary (hfmt : Lawful fmt) (filters : List Expr) :
    List.Forall₂ (IsUnary foreign) ((filters.filterMap (translate fmt schema)).map parenthesized)
      (filters.filterMap (filterCondition fmt schema)) := by
  induction filters with
  | nil => exact .nil
  | cons e rest ih =>
    cases h : translate fmt schema e with
    | none => simpa [h, filterCondition] using ih
    | some text =>
      obtain ⟨c, hc, hunary⟩ := translate_unary foreign hfmt h
      have hfilter : filterCondition fmt schema e = some c := by simp [filterCondition, h, hc]
      rw [List.filterMap_cons_some h, List.filterMap_cons_some hfilter]
      exact .cons hunary.expression.parenthesized ih

theorem explicit_unary (h : ExplicitDenotes foreign explicit c) :
    List.Forall₂ (IsUnary foreign) ((explicit.filter (!·.isEmpty)).map parenthesized).toList
      c.toList := by
  cases explicit with
  | none =>
    obtain rfl : c = none := h
    exact .nil
  | some text =>
    cases text with
    | nil =>
      obtain rfl : c = none := h
      exact .nil
    | cons first rest =>
      obtain ⟨c', rfl, hexpression⟩ := h
      exact .cons hexpression.parenthesized .nil

theorem joined_parses (h : Reads text ts) (hall : List.Forall₂ (IsUnary foreign) texts cs) :
    ∃ more, Reads (" AND ".toList.intercalate (text :: texts)) (ts ++ more) ∧
      ∀ left, ParsesMore foreign .and left more (Condition.conjunction left cs) [] := by
  induction hall generalizing text ts with
  | nil => exact ⟨[], by simpa using h, fun left => .stop trivial⟩
  | @cons next c texts cs hnext _ ih =>
    obtain ⟨tn, hreads, hparses⟩ := hnext
    obtain ⟨more, hmore, hconj⟩ := ih hreads
    have hand : Closes [' ', 'A', 'N', 'D', ' '] [.keyword .and] := rfl
    refine ⟨[.keyword .and] ++ (tn ++ more), ?_, fun left => ?_⟩
    · have hread := reads_join h hand (.inl rfl) hmore
      rw [List.intercalate_cons_cons, List.append_assoc]
      exact hread
    · exact .and (hparses more) (hconj (.and left c))

theorem joined_denotes (h : List.Forall₂ (IsUnary foreign) (text :: texts) (c :: cs)) :
    Denotes foreign (" AND ".toList.intercalate (text :: texts)) (Condition.conjunction c cs) := by
  obtain ⟨hfirst, hall⟩ := List.forall₂_cons.mp h
  obtain ⟨ts, hreads, hparses⟩ := hfirst
  obtain ⟨more, hmore, hconj⟩ := joined_parses hreads hall
  exact ⟨_, hmore.scan, .or (.and (hparses more) (hconj c)) (.stop trivial)⟩

def restrictionConditions (fmt : Formatting) (schema : SessionSchema) (filters : List Expr)
    (explicit : Option (Condition (Predicate φ))) : List (Condition (Predicate φ)) :=
  filters.filterMap (filterCondition fmt schema) ++ explicit.toList

theorem rowRestriction_denotes (schema : SessionSchema) (hfmt : Lawful fmt) (filters : List Expr)
    (h : ExplicitDenotes foreign explicit x) :
    match restrictionConditions fmt schema filters x with
    | [] => rowRestriction fmt schema filters explicit = none
    | c :: cs => ∃ text, rowRestriction fmt schema filters explicit = some text ∧
        Denotes foreign text (Condition.conjunction c cs) := by
  unfold rowRestriction restrictionConditions
  have hall : List.Forall₂ (IsUnary foreign)
      ((filters.filterMap (translate fmt schema)).map parenthesized ++
        ((explicit.filter (!·.isEmpty)).map parenthesized).toList)
      (filters.filterMap (filterCondition fmt schema) ++ x.toList) :=
    List.rel_append (filters_unary hfmt filters) (explicit_unary h)
  generalize filters.filterMap (filterCondition fmt schema) ++ x.toList = conditions at hall ⊢
  generalize (filters.filterMap (translate fmt schema)).map parenthesized ++
    ((explicit.filter (!·.isEmpty)).map parenthesized).toList = texts at hall ⊢
  cases hall with
  | nil => rfl
  | cons hfirst hrest => exact ⟨_, rfl, joined_denotes (.cons hfirst hrest)⟩

end

-- ---------------------------------------------------------------------------
-- The pushdown as a whole
-- ---------------------------------------------------------------------------

/-- A filter is refused exactly when one of its leaves is. Otherwise its text
denotes its own tree over the predicates of its leaves and nothing else, so
that it is true where the filter is whenever this holds of the leaves. The row
restriction denotes the conjunction of the filters that are not refused and of
the explicit restriction. -/
theorem pushdown_structure (foreign : Foreign φ) (schema : SessionSchema) (hfmt : Lawful fmt) :
    (∀ e, translate fmt schema e = none ↔
      ∃ leaf ∈ (condition e).leaves, translateLeaf fmt schema leaf = none) ∧
    (∀ e text, translate fmt schema e = some text →
      ∃ c, (condition e).traverse (leafPredicate fmt schema) = some c ∧
        (∀ c', Denotes foreign text c' ↔ c' = c) ∧
        ∀ (d : Expr → Truth) (g : Predicate φ → Truth),
          (∀ leaf ∈ (condition e).leaves, ∀ p, leafPredicate fmt schema leaf = some p →
            g p = d leaf) → c.eval g = (condition e).eval d) ∧
    ∀ filters explicit x, ExplicitDenotes foreign explicit x →
      match restrictionConditions fmt schema filters x with
      | [] => rowRestriction fmt schema filters explicit = none
      | c :: cs => ∃ text, rowRestriction fmt schema filters explicit = some text ∧
          ∀ c', Denotes foreign text c' ↔ c' = Condition.conjunction c cs := by
  refine ⟨fun e => translate_eq_none, fun e text h => ?_, fun filters explicit x h => ?_⟩
  · obtain ⟨c, hc, hunary⟩ := translate_unary foreign hfmt h
    have hdenotes := hunary.denotes
    refine ⟨c, hc, fun c' => ⟨fun h' => h'.unique hdenotes, ?_⟩, fun d g hleaves => ?_⟩
    · rintro rfl
      exact hdenotes
    · exact Condition.traverse_eval hc hleaves
  · have hrow := rowRestriction_denotes schema hfmt filters h
    split at hrow
    · exact hrow
    · obtain ⟨text, htext, hdenotes⟩ := hrow
      refine ⟨text, htext, fun c' => ⟨fun h' => h'.unique hdenotes, ?_⟩⟩
      rintro rfl
      exact hdenotes

def epochFormatting : Formatting where
  float64 _ := "0".toList
  date days := if days = 0 then some "1970-01-01".toList else none
  time _ _ := none
  moment _ _ := none

theorem epochFormatting_lawful : Lawful epochFormatting where
  float64 _ _ := ⟨_, isNumeral_digit rfl, .inl (rfl : _ = ['0'])⟩
  date h := by
    dsimp only [epochFormatting] at h
    split at h <;> cases h
    decide
  time h := nomatch h
  moment h := nomatch h

/-- `5 < id`, pushed down beside `tenant_id = 7`. -/
theorem pushdown_structure_tenant :
    ∃ text, rowRestriction epochFormatting ⟨[.mk "id" .int64 true], fun _ => []⟩
        [.binaryExpr (.literal (.int64 (some 5))) .lt (.column none "id")]
        (some "tenant_id = 7".toList) = some text ∧
      ∀ c', Denotes (fun _ => none : Foreign Empty) text c' ↔
        c' = .and (.leaf (.compare ["id".toList] .gt (.number false "5".toList)))
          (.leaf (.compare ["tenant_id".toList] .eq (.number false "7".toList))) := by
  have hexplicit : IsExpression (fun _ => none : Foreign Empty) "tenant_id = 7".toList
      (.leaf (.compare ["tenant_id".toList] .eq (.number false "7".toList))) := by
    have hrun : lexer.run .start "tenant_id = 7".toList =
        some ([.word "tenant_id".toList, .comparison .eq], .number "7".toList) := rfl
    exact ⟨_, reads_number hrun, fun rest => (Parses.predicate rfl).of_unary ends_paren ends_paren⟩
  have h := (pushdown_structure (fun _ => none : Foreign Empty) ⟨[.mk "id" .int64 true], fun _ => []⟩
    epochFormatting_lawful).2.2
    [.binaryExpr (.literal (.int64 (some 5))) .lt (.column none "id")]
    (some "tenant_id = 7".toList) (some _) ⟨_, rfl, hexplicit⟩
  have hconditions : restrictionConditions (φ := Empty) epochFormatting
      ⟨[.mk "id" .int64 true], fun _ => []⟩
      [.binaryExpr (.literal (.int64 (some 5))) .lt (.column none "id")]
      (some (.leaf (.compare ["tenant_id".toList] .eq (.number false "7".toList)))) =
      [.leaf (.compare ["id".toList] .gt (.number false "5".toList)),
        .leaf (.compare ["tenant_id".toList] .eq (.number false "7".toList))] := by
    simp only [restrictionConditions, List.filterMap_cons, List.filterMap_nil, filterCondition,
      translate_eq, expressionText]
    rfl
  rw [hconditions] at h
  exact h

end SilkChiffon.GoogleSql
