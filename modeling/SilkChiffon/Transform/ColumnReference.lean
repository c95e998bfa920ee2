import SilkChiffon.Arrow.Schema
import SilkChiffon.Lib.Lists
import Mathlib.Algebra.GroupWithZero.Nat
import Mathlib.Algebra.Order.BigOperators.Group.List
import Mathlib.Algebra.Order.Group.Nat
import Mathlib.Tactic.Common

/-!
# Column references

Sorting and cardinality analysis name their columns by `col(name)`, which
reads the name as an SQL identifier: it is split at the dots outside double
quotes, and unquoted parts are lower-cased. The result is then looked up in
the schema as it stands. DataFusion's parser is a parameter, because it
refuses some names, and `col` keeps a refused name whole.
-/

namespace SilkChiffon.ColumnReference

open Arrow

-- ---------------------------------------------------------------------------
-- SQL identifiers
-- ---------------------------------------------------------------------------

/-- The parts between the dots outside double quotes. -/
def splitIdentifier : Bool → List Char → List (List Char)
  | _, [] => [[]]
  | quoted, c :: cs =>
    if c = '.' ∧ quoted = false then [] :: splitIdentifier false cs
    else
      match splitIdentifier (if c = '"' then !quoted else quoted) cs with
      | [] => [[c]]
      | part :: parts => (c :: part) :: parts

def quotedContent : List Char → Option (List Char)
  | '"' :: rest => if rest.getLast? = some '"' then some rest.dropLast else none
  | _ => none

/-- `""` inside quotes is one quote. -/
def unescapeQuotes : List Char → List Char
  | '"' :: '"' :: rest => '"' :: unescapeQuotes rest
  | c :: rest => c :: unescapeQuotes rest
  | [] => []

def normalizeIdentifier (part : List Char) : List Char :=
  match quotedContent part with
  | some content => unescapeQuotes content
  | none => part.map Char.toLower

/-- `parse_identifiers_normalized`, which gives no parts for a name that is
not an identifier. -/
abbrev IdentifierParser := String → List String

/-- Splitting at dots outside double quotes and lower-casing unquoted parts.
DataFusion does so for names without backticks and without blanks at their ends;
of other names nothing is said here. -/
def IdentifierParser.Lawful (parse : IdentifierParser) (names : List String) : Prop :=
  ∀ name ∈ names, parse name = [] ∨
    parse name = (splitIdentifier false name.toList).map (String.ofList ∘ normalizeIdentifier)

/-- A column and the table it is qualified with, outermost name first. -/
structure Column where
  relation : Option (List String)
  name : String
  deriving DecidableEq, Repr

def Column.fromIdents : List String → Option Column
  | [name] => some ⟨none, name⟩
  | [table, name] => some ⟨some [table], name⟩
  | [schema, table, name] => some ⟨some [schema, table], name⟩
  | [catalog, schema, table, name] => some ⟨some [catalog, schema, table], name⟩
  | _ => none

def col (parse : IdentifierParser) (name : String) : Column :=
  (Column.fromIdents (parse name)).getD ⟨none, name⟩

-- ---------------------------------------------------------------------------
-- Plans
-- ---------------------------------------------------------------------------

structure DFSchema where
  qualifier : Option (List String)
  schema : Schema

inductive PlanError
  | fieldNotFound (column : Column)
  | noAnalyzableColumns
  deriving DecidableEq, Repr

/-- The schema column an expression denotes. -/
def DFSchema.resolve (input : DFSchema) (column : Column) : Except PlanError String :=
  if column.relation = none ∨ column.relation = input.qualifier then
    match input.schema.fieldWithName column.name with
    | some field => .ok field.name
    | none => .error (.fieldNotFound column)
  else .error (.fieldNotFound column)

inductive SortDirection
  | ascending | descending
  deriving DecidableEq, Repr

inductive NullPlacement
  | first | last
  deriving DecidableEq, Repr

structure SortColumn where
  name : String
  direction : SortDirection
  nullPlacement : NullPlacement
  deriving DecidableEq, Repr

/-- One key of a sort, over expressions or over the columns they denote. -/
structure SortExpr (κ : Type) where
  expr : κ
  asc : Bool
  nullsFirst : Bool
  deriving DecidableEq, Repr

def SortColumn.toExpr (e : String → κ) (column : SortColumn) : SortExpr κ :=
  ⟨e column.name, column.direction == .ascending, column.nullPlacement == .first⟩

def DFSchema.sort (input : DFSchema) (exprs : List (SortExpr Column)) :
    Except PlanError (List (SortExpr String)) :=
  exprs.mapM fun e => (input.resolve e.expr).map fun name => { e with expr := name }

def applySort (parse : IdentifierParser) (input : DFSchema) (columns : List SortColumn) :
    Except PlanError (List (SortExpr String)) :=
  input.sort (columns.map (·.toExpr (col parse)))

-- ---------------------------------------------------------------------------
-- The sort specification
-- ---------------------------------------------------------------------------

def uniqueBy [DecidableEq κ] (key : α → κ) : List α → List κ → List α
  | [], _ => []
  | item :: items, seen =>
    if key item ∈ seen then uniqueBy key items seen
    else item :: uniqueBy key items (key item :: seen)

abbrev SortSpec := List SortColumn

def sortColumn (name : String) (direction : SortDirection) : SortColumn :=
  ⟨name, direction,
    match direction with
    | .ascending => .last
    | .descending => .first⟩

namespace SortSpec

def fromNames (names : List String) : SortSpec :=
  (uniqueBy id names []).map (sortColumn · .ascending)

def withoutColumnsNamed (spec : SortSpec) (names : List String) : SortSpec :=
  spec.filter fun column => !names.any (· == column.name)

def extend (spec other : SortSpec) : SortSpec := uniqueBy SortColumn.name (spec ++ other) []

end SortSpec

inductive PartitionStrategy
  | sortSingle | nosortMulti | nosortEvict
  deriving DecidableEq, Repr

/-- Partition columns first, then what the user asked for besides them. -/
def fullSortSpec (strategy : PartitionStrategy) (partitionColumns : List String)
    (sortBy : Option SortSpec) : SortSpec :=
  let partitionSortSpec : SortSpec :=
    match strategy with
    | .sortSingle => .fromNames partitionColumns
    | .nosortMulti | .nosortEvict => []
  partitionSortSpec.extend ((sortBy.getD []).withoutColumnsNamed partitionColumns)

-- ---------------------------------------------------------------------------
-- Cardinality analysis
-- ---------------------------------------------------------------------------

def isAnalyzable : DataType → Bool
  | .float16 | .float32 | .float64 | .list _ | .listView _ | .fixedSizeList _ _ | .largeList _
  | .largeListView _ | .struct _ | .union _ | .map _ _ | .null | .runEndEncoded _ _ => false
  | _ => true

def supportsApproxDistinct : DataType → Bool
  | .int8 | .int16 | .int32 | .int64 | .uint8 | .uint16 | .uint32 | .uint64
  | .utf8 | .largeUtf8 | .utf8View | .binary | .largeBinary | .binaryView
  | .date32 | .date64 | .time32 _ | .time64 _ | .timestamp _ _ | .boolean => true
  | _ => false

def isVariableLengthType : DataType → Bool
  | .utf8 | .largeUtf8 | .utf8View | .binary | .largeBinary | .binaryView => true
  | _ => false

inductive AggregateFunction
  | approxDistinct | countDistinct | avgOctetLength
  deriving DecidableEq, Repr

structure AggregateExpr (κ : Type) where
  function : AggregateFunction
  argument : κ
  aliasName : String
  deriving DecidableEq, Repr

def analyzableColumns (schema : Schema) (columns : List String) : List String :=
  columns.filter fun name =>
    ((schema.fieldWithName name).map fun field => isAnalyzable field.dataType).getD false

def ndvAlias (name : String) : String := name ++ "_ndv"

def avgLenAlias (name : String) : String := name ++ "_avg_len"

def ndvFunction (schema : Schema) (name : String) : AggregateFunction :=
  if ((schema.fieldWithName name).map fun field => supportsApproxDistinct field.dataType).getD false
  then .approxDistinct else .countDistinct

def hasAvgLen (schema : Schema) (name : String) : Bool :=
  ((schema.fieldWithName name).map fun field => isVariableLengthType field.dataType).getD false

/-- The aggregates of one column, over whatever `e` makes of its name. -/
def columnAggregates (e : String → κ) (schema : Schema) (name : String) :
    List (AggregateExpr κ) :=
  ⟨ndvFunction schema name, e name, ndvAlias name⟩ ::
    if hasAvgLen schema name then [⟨.avgOctetLength, e name, avgLenAlias name⟩] else []

def DFSchema.aggregate (input : DFSchema) (exprs : List (AggregateExpr Column)) :
    Except PlanError (List (AggregateExpr String)) :=
  exprs.mapM fun e => (input.resolve e.argument).map fun name => { e with argument := name }

def planAnalysis (parse : IdentifierParser) (schema : Schema) (columns : List String) :
    Except PlanError (List (AggregateExpr String)) :=
  if analyzableColumns schema columns = [] then .error .noAnalyzableColumns
  else
    DFSchema.aggregate ⟨some ["data"], schema⟩
      ((analyzableColumns schema columns).flatMap (columnAggregates (col parse) schema))

inductive Cell (F : Type)
  | uint64 (value : Option Nat)
  | int64 (value : Option Int)
  | float64 (value : Option F)
  deriving DecidableEq, Repr

structure ColumnAnalysis (F : Type) where
  approxDistinct : Nat
  avgValueSize : Option F
  deriving DecidableEq, Repr

def Cell.distinct : Cell F → Nat
  | .uint64 (some value) => value
  | .int64 (some value) => (max value 0).toNat
  | _ => 0

def Cell.float : Cell F → Option F
  | .float64 value => value
  | _ => none

def extractAnalysisFromResults (row : List (String × Cell F)) (columns : List String) :
    List (String × ColumnAnalysis F) :=
  columns.map fun name =>
    (name, ⟨((row.lookup (ndvAlias name)).map Cell.distinct).getD 0,
      (row.lookup (avgLenAlias name)).bind Cell.float⟩)

/-- `eval` is the value of an aggregate over a column of the table. -/
def runStreamingAnalysis (parse : IdentifierParser) (eval : AggregateFunction → String → Cell F)
    (schema : Schema) (columns : List String) :
    Except PlanError (List (String × ColumnAnalysis F)) :=
  (planAnalysis parse schema columns).map fun plan =>
    extractAnalysisFromResults (plan.map fun e => (e.aliasName, eval e.function e.argument))
      (analyzableColumns schema columns)

-- ---------------------------------------------------------------------------
-- Which names denote themselves
-- ---------------------------------------------------------------------------

/-- The parser finds no identifier of one to four parts. -/
def KeptWhole (parse : IdentifierParser) (name : String) : Prop :=
  (parse name).length = 0 ∨ 4 < (parse name).length

/-- No dot outside double quotes, no enclosing double quotes and no ASCII
upper-case letter. -/
def Plain (name : String) : Prop :=
  (splitIdentifier false name.toList).length = 1 ∧ quotedContent name.toList = none ∧
    ∀ c ∈ name.toList, c.isUpper = false

theorem toLower_eq_self_iff {c : Char} : c.toLower = c ↔ c.isUpper = false := by
  unfold Char.toLower Char.isUpper
  by_cases h : c.val ≥ 'A'.val ∧ c.val ≤ 'Z'.val
  · rw [dif_pos h, decide_eq_true h]
    simp only [Bool.true_eq_false, iff_false]
    intro heq
    have hval := congrArg (fun d : Char => d.val.toNat) heq
    have hle := UInt32.le_iff_toNat_le.mp h.2
    rw [UInt32.toNat_add] at hval
    simp at hval hle
    omega
  · rw [dif_neg h, decide_eq_false h]
    simp

theorem map_toLower_eq_self_iff {cs : List Char} :
    cs.map Char.toLower = cs ↔ ∀ c ∈ cs, c.isUpper = false := by
  conv_lhs => rw [← List.map_id cs, List.map_map, List.map_inj_left]
  simp [toLower_eq_self_iff]

theorem length_unescapeQuotes (cs : List Char) : (unescapeQuotes cs).length ≤ cs.length := by
  fun_induction unescapeQuotes cs <;> simp <;> omega

theorem length_quotedContent (h : quotedContent part = some content) :
    content.length < part.length := by
  unfold quotedContent at h
  split at h
  · split at h
    · obtain rfl := Option.some.inj h
      simp only [List.length_dropLast, List.length_cons]
      omega
    · cases h
  · cases h

theorem length_normalizeIdentifier (part : List Char) :
    (normalizeIdentifier part).length ≤ part.length := by
  unfold normalizeIdentifier
  split
  · rename_i content hcontent
    have := length_quotedContent hcontent
    have := length_unescapeQuotes content
    omega
  · simp

theorem normalizeIdentifier_eq_self_iff {part : List Char} :
    normalizeIdentifier part = part ↔
      quotedContent part = none ∧ ∀ c ∈ part, c.isUpper = false := by
  unfold normalizeIdentifier
  split
  · rename_i content hcontent
    simp only [hcontent, reduceCtorEq, false_and, iff_false]
    intro heq
    have := length_quotedContent hcontent
    have := length_unescapeQuotes content
    have := congrArg List.length heq
    omega
  · rename_i hnone
    simp [hnone, map_toLower_eq_self_iff]

theorem length_splitIdentifier (quoted : Bool) (cs : List Char) :
    ((splitIdentifier quoted cs).map List.length).sum + (splitIdentifier quoted cs).length =
      cs.length + 1 := by
  induction cs generalizing quoted with
  | nil => rfl
  | cons c cs ih =>
    unfold splitIdentifier
    split
    · have := ih false
      simp only [List.map_cons, List.sum_cons, List.length_nil, List.length_cons]
      omega
    · have := ih (if c = '"' then !quoted else quoted)
      split
      · rename_i hnil
        simp only [hnil, List.map_nil, List.sum_nil, List.length_nil] at this
        omega
      · rename_i part parts hparts
        simp only [hparts, List.map_cons, List.sum_cons, List.length_cons] at this ⊢
        omega

theorem splitIdentifier_ne_nil (quoted : Bool) (cs : List Char) : splitIdentifier quoted cs ≠ [] := by
  intro h
  have := length_splitIdentifier quoted cs
  simp [h] at this

theorem splitIdentifier_singleton (h : splitIdentifier quoted cs = [part]) : part = cs := by
  induction cs generalizing quoted part with
  | nil =>
    simp only [splitIdentifier, List.cons.injEq, and_true] at h
    exact h.symm
  | cons c cs ih =>
    unfold splitIdentifier at h
    split at h
    · simp only [List.cons.injEq] at h
      exact absurd h.2 (splitIdentifier_ne_nil _ _)
    · split at h
      · rename_i hnil
        exact absurd hnil (splitIdentifier_ne_nil _ _)
      · rename_i p parts hparts
        simp only [List.cons.injEq] at h
        obtain ⟨rfl, rfl⟩ := h
        rw [ih hparts]

theorem length_lt_of_mem_split (hpart : part ∈ splitIdentifier quoted cs)
    (hmany : 1 < (splitIdentifier quoted cs).length) : part.length < cs.length := by
  have hsum := length_splitIdentifier quoted cs
  have hle : part.length ≤ ((splitIdentifier quoted cs).map List.length).sum :=
    List.single_le_sum (by simp) _ (List.mem_map_of_mem hpart)
  omega

def Faithful (parse : IdentifierParser) (name : String) : Prop := KeptWhole parse name ∨ Plain name

theorem name_ne_of_mem_split {name : String} (hpart : part ∈ splitIdentifier false name.toList)
    (hmany : 1 < (splitIdentifier false name.toList).length) :
    String.ofList (normalizeIdentifier part) ≠ name := by
  intro heq
  have hlt := length_lt_of_mem_split hpart hmany
  have hle := length_normalizeIdentifier part
  have := congrArg (fun s : String => s.toList.length) heq
  simp only [String.toList_ofList] at this
  omega

theorem fromIdents_eq_none :
    Column.fromIdents idents = none ↔ idents.length = 0 ∨ 4 < idents.length := by
  match idents with
  | [] | [_] | [_, _] | [_, _, _] | [_, _, _, _] | _ :: _ :: _ :: _ :: _ :: _ =>
    simp [Column.fromIdents]

theorem fromIdents_eq_some (h : Column.fromIdents idents = some column) :
    idents.getLast? = some column.name ∧ (idents.length = 1 → column.relation = none) := by
  unfold Column.fromIdents at h
  split at h <;> cases h <;> simp

theorem faithful_of_col_name (hP : IdentifierParser.Lawful parse names) (hname : name ∈ names) (h : (col parse name).name = name) :
    Faithful parse name := by
  cases hcolumn : Column.fromIdents (parse name) with
  | none => exact .inl (fromIdents_eq_none.mp hcolumn)
  | some column =>
    obtain rfl : column.name = name := by simpa [col, hcolumn] using h
    have hlast := (fromIdents_eq_some hcolumn).1
    rcases hP column.name hname with hnil | hparts
    · simp [hnil] at hlast
    rw [hparts, List.getLast?_map, Option.map_eq_some_iff] at hlast
    obtain ⟨part, hpart, hname⟩ := hlast
    have hmem := List.mem_of_getLast? hpart
    by_cases hmany : 1 < (splitIdentifier false column.name.toList).length
    · exact absurd hname (name_ne_of_mem_split hmem hmany)
    · have hone : (splitIdentifier false column.name.toList).length = 1 := by
        have := List.length_pos_of_mem hmem
        omega
      obtain ⟨only, hsplit⟩ := List.length_eq_one_iff.mp hone
      obtain rfl : part = only := by simpa [hsplit] using hmem
      obtain rfl := splitIdentifier_singleton hsplit
      exact .inr ⟨hone, normalizeIdentifier_eq_self_iff.mp (by simpa using congrArg String.toList hname)⟩

theorem col_of_faithful (hP : IdentifierParser.Lawful parse names) (hname : name ∈ names) (h : Faithful parse name) :
    col parse name = ⟨none, name⟩ := by
  rcases h with hwhole | ⟨hone, hself⟩
  · simp [col, fromIdents_eq_none.mpr hwhole]
  · obtain ⟨part, hsplit⟩ := List.length_eq_one_iff.mp hone
    rcases hP name hname with hnil | hparts
    · simp [col, hnil, Column.fromIdents]
    · obtain rfl := splitIdentifier_singleton hsplit
      simp [col, hparts, hsplit, Column.fromIdents, normalizeIdentifier_eq_self_iff.mpr hself]

theorem resolve_name {input : DFSchema} (h : input.resolve column = .ok name) :
    column.name = name ∧ name ∈ input.schema.names := by
  unfold DFSchema.resolve at h
  split at h
  · split at h
    · rename_i field hfield
      obtain rfl := Except.ok.inj h
      have hname := Schema.fieldWithName_name hfield
      exact ⟨hname.symm, hname ▸ Schema.fieldWithName_isSome.mp ⟨field, hfield⟩⟩
    · cases h
  · cases h

/-- The expression made from a present name denotes that column exactly when
the name is left as it is. -/
theorem resolve_col_iff {input : DFSchema} (hP : parse.Lawful input.schema.names)
    (hname : name ∈ input.schema.names) :
    input.resolve (col parse name) = .ok name ↔ Faithful parse name := by
  constructor
  · intro h
    exact faithful_of_col_name hP hname (resolve_name h).1
  · intro h
    obtain ⟨field, hfield⟩ := Schema.fieldWithName_isSome.mpr hname
    simp [DFSchema.resolve, col_of_faithful hP hname h, hfield, Schema.fieldWithName_name hfield]

theorem applySort_iff {input : DFSchema} (hP : parse.Lawful input.schema.names)
    (hnames : ∀ column ∈ columns, column.name ∈ input.schema.names) :
    applySort parse input columns = .ok (columns.map (·.toExpr id)) ↔
      ∀ column ∈ columns, Faithful parse column.name := by
  unfold applySort DFSchema.sort
  rw [List.mapM_map, Lists.mapM_eq_ok_map]
  refine forall₂_congr fun column hcolumn => ?_
  rw [← resolve_col_iff hP (hnames column hcolumn)]
  cases hresolve : input.resolve (col parse column.name) with
  | error e => simp [SortColumn.toExpr, hresolve, Except.map]
  | ok name => simp [SortColumn.toExpr, hresolve, Except.map]

theorem mem_names_of_analyzable (h : name ∈ analyzableColumns schema columns) :
    name ∈ schema.names := by
  obtain ⟨_, hfield⟩ := List.mem_filter.mp h
  cases hlookup : schema.fieldWithName name with
  | none => simp [hlookup] at hfield
  | some field => exact Schema.fieldWithName_isSome.mp ⟨field, hlookup⟩

theorem columnAggregates_eq_map (e : String → κ) (schema : Schema) (name : String) :
    columnAggregates e schema name =
      (columnAggregates id schema name).map fun a => ⟨a.function, e a.argument, a.aliasName⟩ := by
  simp only [columnAggregates, List.map_cons, id]
  congr 1
  split <;> rfl

theorem columnAggregates_argument (h : a ∈ columnAggregates id schema name) : a.argument = name := by
  unfold columnAggregates at h
  simp only [List.mem_cons] at h
  rcases h with rfl | h
  · rfl
  · split at h
    · obtain rfl := List.mem_singleton.mp h
      rfl
    · cases h

theorem planAnalysis_iff {schema : Schema} (hP : parse.Lawful schema.names)
    (hne : analyzableColumns schema columns ≠ []) :
    planAnalysis parse schema columns =
        .ok ((analyzableColumns schema columns).flatMap (columnAggregates id schema)) ↔
      ∀ name ∈ analyzableColumns schema columns, Faithful parse name := by
  have hexprs : (analyzableColumns schema columns).flatMap (columnAggregates (col parse) schema) =
      ((analyzableColumns schema columns).flatMap (columnAggregates id schema)).map
        fun a => ⟨a.function, col parse a.argument, a.aliasName⟩ := by
    rw [List.map_flatMap]
    congr 1
    funext name
    exact columnAggregates_eq_map (col parse) schema name
  rw [planAnalysis, if_neg hne, hexprs, DFSchema.aggregate, List.mapM_map]
  rw [Lists.mapM_eq_ok_self]
  have hresolve (a : AggregateExpr String) :
      ((DFSchema.resolve ⟨some ["data"], schema⟩ (col parse a.argument)).map
        fun name => (⟨a.function, name, a.aliasName⟩ : AggregateExpr String)) = .ok a ↔
      DFSchema.resolve ⟨some ["data"], schema⟩ (col parse a.argument) = .ok a.argument := by
    cases DFSchema.resolve ⟨some ["data"], schema⟩ (col parse a.argument) with
    | error e => simp [Except.map]
    | ok name => cases a; simp [Except.map]
  constructor
  · intro h name hname
    have hself := (hresolve _).mp (h ⟨_, name, ndvAlias name⟩
      (List.mem_flatMap.mpr ⟨name, hname, List.mem_cons_self⟩))
    exact (resolve_col_iff hP (mem_names_of_analyzable hname)).mp hself
  · intro h a ha
    obtain ⟨name, hname, ha⟩ := List.mem_flatMap.mp ha
    obtain rfl := columnAggregates_argument ha
    exact (hresolve a).mpr ((resolve_col_iff hP (mem_names_of_analyzable hname)).mpr (h _ hname))

-- ---------------------------------------------------------------------------
-- The analysis of a column
-- ---------------------------------------------------------------------------

theorem ndvAlias_inj : ndvAlias a = ndvAlias b ↔ a = b := by
  simp [ndvAlias, String.append_left_inj]

theorem avgLenAlias_inj : avgLenAlias a = avgLenAlias b ↔ a = b := by
  simp [avgLenAlias, String.append_left_inj]

theorem ndvAlias_ne_avgLenAlias : ndvAlias a ≠ avgLenAlias b := by
  intro h
  have := congrArg (fun s : String => s.toList.getLast?) h
  simp [ndvAlias, avgLenAlias] at this

def ownAnalysis (eval : AggregateFunction → String → Cell F) (schema : Schema) (name : String) :
    ColumnAnalysis F :=
  ⟨(eval (ndvFunction schema name) name).distinct,
    if hasAvgLen schema name then (eval .avgOctetLength name).float else none⟩

theorem mem_ownRow {eval : AggregateFunction → String → Cell F} {columns : List String} :
    (label, cell) ∈ ((columns.flatMap (columnAggregates id schema)).map
      fun a => (a.aliasName, eval a.function a.argument)) ↔
    ∃ name ∈ columns, label = ndvAlias name ∧ cell = eval (ndvFunction schema name) name ∨
      hasAvgLen schema name ∧ label = avgLenAlias name ∧ cell = eval .avgOctetLength name := by
  simp only [List.mem_map, List.mem_flatMap, Prod.mk.injEq]
  constructor
  · rintro ⟨a, ⟨name, hname, ha⟩, rfl, rfl⟩
    refine ⟨name, hname, ?_⟩
    simp only [columnAggregates, List.mem_cons] at ha
    rcases ha with rfl | ha
    · exact .inl ⟨rfl, rfl⟩
    · split at ha
      · rename_i hlen
        obtain rfl := List.mem_singleton.mp ha
        exact .inr ⟨hlen, rfl, rfl⟩
      · cases ha
  · rintro ⟨name, hname, ⟨rfl, rfl⟩ | ⟨hlen, rfl, rfl⟩⟩
    · exact ⟨_, ⟨name, hname, List.mem_cons_self⟩, rfl, rfl⟩
    · exact ⟨⟨.avgOctetLength, name, avgLenAlias name⟩, ⟨name, hname, by simp [columnAggregates, hlen]⟩,
        rfl, rfl⟩

theorem runStreamingAnalysis_of_faithful {eval : AggregateFunction → String → Cell F}
    (hP : parse.Lawful schema.names) (hne : analyzableColumns schema columns ≠ [])
    (h : ∀ name ∈ analyzableColumns schema columns, Faithful parse name) :
    runStreamingAnalysis parse eval schema columns =
      .ok ((analyzableColumns schema columns).map fun name => (name, ownAnalysis eval schema name)) := by
  rw [runStreamingAnalysis, (planAnalysis_iff hP hne).mpr h]
  simp only [Except.map, Except.ok.injEq, extractAnalysisFromResults]
  refine List.map_congr_left fun name hname => ?_
  have hndv : List.lookup (ndvAlias name) _ = some (eval (ndvFunction schema name) name) :=
    Lists.lookup_eq_some (mem_ownRow.mpr ⟨name, hname, .inl ⟨rfl, rfl⟩⟩) (by
      rintro cell hcell
      obtain ⟨other, _, ⟨hlabel, hcell⟩ | ⟨_, hlabel, _⟩⟩ := mem_ownRow.mp hcell
      · rw [hcell, ndvAlias_inj.mp hlabel]
      · exact absurd hlabel ndvAlias_ne_avgLenAlias)
  rw [hndv]
  by_cases hlen : hasAvgLen schema name
  · have havg : List.lookup (avgLenAlias name) _ = some (eval .avgOctetLength name) :=
      Lists.lookup_eq_some (mem_ownRow.mpr ⟨name, hname, .inr ⟨hlen, rfl, rfl⟩⟩) (by
        rintro cell hcell
        obtain ⟨other, _, ⟨hlabel, _⟩ | ⟨_, hlabel, hcell⟩⟩ := mem_ownRow.mp hcell
        · exact absurd hlabel.symm ndvAlias_ne_avgLenAlias
        · rw [hcell, avgLenAlias_inj.mp hlabel])
    rw [havg]
    simp [ownAnalysis, hlen]
  · have havg : List.lookup (avgLenAlias name) ((List.flatMap (columnAggregates id schema)
        (analyzableColumns schema columns)).map fun a => (a.aliasName, eval a.function a.argument)) =
        none := by
      rw [List.lookup_eq_none_iff]
      rintro ⟨label, cell⟩ hcell
      obtain ⟨other, _, ⟨hlabel, _⟩ | ⟨hother, hlabel, _⟩⟩ := mem_ownRow.mp hcell
      · simpa [hlabel] using fun h : avgLenAlias name = ndvAlias other => ndvAlias_ne_avgLenAlias h.symm
      · have hne : name ≠ other := by
          rintro rfl
          exact hlen hother
        simpa [hlabel, avgLenAlias_inj] using hne
    rw [havg]
    simp [ownAnalysis, hlen]

-- ---------------------------------------------------------------------------
-- The names of a sort specification
-- ---------------------------------------------------------------------------

theorem mem_uniqueBy_names [DecidableEq κ] {key : α → κ} {items : List α} {seen : List κ} {k : κ} :
    k ∈ (uniqueBy key items seen).map key ↔ k ∈ items.map key ∧ k ∉ seen := by
  induction items generalizing seen with
  | nil => simp [uniqueBy]
  | cons item items ih =>
    unfold uniqueBy
    split
    · rename_i hseen
      rw [ih, List.map_cons, List.mem_cons]
      constructor
      · exact fun ⟨hk, hnot⟩ => ⟨.inr hk, hnot⟩
      · rintro ⟨rfl | hk, hnot⟩
        · exact absurd hseen hnot
        · exact ⟨hk, hnot⟩
    · rename_i hseen
      simp only [List.map_cons, List.mem_cons, ih, not_or]
      constructor
      · rintro (rfl | ⟨hk, _, hnot⟩)
        · exact ⟨.inl rfl, hseen⟩
        · exact ⟨.inr hk, hnot⟩
      · rintro ⟨rfl | hk, hnot⟩
        · exact .inl rfl
        · by_cases heq : k = key item
          · exact .inl heq
          · exact .inr ⟨hk, heq, hnot⟩

theorem nodup_uniqueBy_names [DecidableEq κ] {key : α → κ} {items : List α} {seen : List κ} :
    ((uniqueBy key items seen).map key).Nodup := by
  induction items generalizing seen with
  | nil => exact List.nodup_nil
  | cons item items ih =>
    unfold uniqueBy
    split
    · exact ih
    · rw [List.map_cons, List.nodup_cons, mem_uniqueBy_names]
      exact ⟨fun h => h.2 List.mem_cons_self, ih⟩

theorem uniqueBy_sublist [DecidableEq κ] {key : α → κ} {items : List α} {seen : List κ} :
    List.Sublist (uniqueBy key items seen) items := by
  induction items generalizing seen with
  | nil => exact List.Sublist.slnil
  | cons item items ih =>
    unfold uniqueBy
    split
    · exact ih.cons item
    · exact ih.cons_cons item

theorem uniqueBy_of_nodup [DecidableEq κ] {key : α → κ} {items : List α} {seen : List κ}
    (hnodup : (items.map key).Nodup) (hseen : ∀ item ∈ items, key item ∉ seen) :
    uniqueBy key items seen = items := by
  induction items generalizing seen with
  | nil => rfl
  | cons item items ih =>
    rw [List.map_cons, List.nodup_cons] at hnodup
    rw [uniqueBy, if_neg (hseen item List.mem_cons_self)]
    refine congrArg _ (ih hnodup.2 fun other hother hmem => ?_)
    rcases List.mem_cons.mp hmem with heq | hmem
    · exact hnodup.1 (heq ▸ List.mem_map_of_mem hother)
    · exact hseen other (List.mem_cons_of_mem _ hother) hmem

theorem uniqueBy_insert [DecidableEq κ] {key : α → κ} {items after : List α} {item : α} {seen : List κ}
    (h : key item ∈ items.map key ∨ key item ∈ seen) :
    uniqueBy key (items ++ item :: after) seen = uniqueBy key (items ++ after) seen := by
  induction items generalizing seen with
  | nil => rw [List.nil_append, uniqueBy, if_pos (h.resolve_left List.not_mem_nil), List.nil_append]
  | cons first items ih =>
    rw [List.map_cons, List.mem_cons] at h
    rw [List.cons_append, List.cons_append, uniqueBy, uniqueBy]
    split
    · rename_i hfirst
      refine ih ?_
      rcases h with (heq | h) | h
      · exact .inr (heq ▸ hfirst)
      · exact .inl h
      · exact .inr h
    · refine congrArg _ (ih ?_)
      rcases h with (heq | h) | h
      · exact .inr (heq ▸ List.mem_cons_self)
      · exact .inl h
      · exact .inr (List.mem_cons_of_mem _ h)

/-- A write sorts by its partition columns, when the strategy asks for it, and
by the user's columns that are no partition columns. -/
theorem mem_fullSortSpec_names :
    name ∈ (fullSortSpec strategy partitionColumns sortBy).map SortColumn.name ↔
      strategy = .sortSingle ∧ name ∈ partitionColumns ∨
        name ∈ (sortBy.getD []).map SortColumn.name ∧ name ∉ partitionColumns := by
  have huser : name ∈ (SortSpec.withoutColumnsNamed (sortBy.getD []) partitionColumns).map
      SortColumn.name ↔ name ∈ (sortBy.getD []).map SortColumn.name ∧ name ∉ partitionColumns := by
    simp only [SortSpec.withoutColumnsNamed, List.mem_map, List.mem_filter, Bool.not_eq_true',
      List.any_eq_false, beq_iff_eq]
    constructor
    · rintro ⟨column, ⟨hcolumn, hnot⟩, rfl⟩
      exact ⟨⟨column, hcolumn, rfl⟩, fun hmem => hnot _ hmem rfl⟩
    · rintro ⟨⟨column, hcolumn, rfl⟩, hnot⟩
      exact ⟨column, ⟨hcolumn, fun other hother heq => hnot (heq ▸ hother)⟩, rfl⟩
  have hpartition : name ∈ (SortSpec.fromNames partitionColumns).map SortColumn.name ↔
      name ∈ partitionColumns := by
    rw [SortSpec.fromNames, List.map_map]
    have := @mem_uniqueBy_names _ _ _ id partitionColumns [] name
    simpa [Function.comp_def, sortColumn] using this
  simp only [fullSortSpec, SortSpec.extend, mem_uniqueBy_names, List.map_append, List.mem_append, huser]
  cases strategy <;> simp [hpartition]

-- ---------------------------------------------------------------------------
-- Faithfulness
-- ---------------------------------------------------------------------------

theorem applySort_fullSortSpec_iff {schema : Schema} (hP : parse.Lawful schema.names) (qualifier : Option (List String))
    (hpartition : ∀ name ∈ partitionColumns, name ∈ schema.names)
    (hsort : ∀ column ∈ sortBy.getD [], column.name ∈ schema.names) :
    applySort parse ⟨qualifier, schema⟩ (fullSortSpec strategy partitionColumns sortBy) =
        .ok ((fullSortSpec strategy partitionColumns sortBy).map (·.toExpr id)) ↔
      (strategy = .sortSingle → ∀ name ∈ partitionColumns, Faithful parse name) ∧
        ∀ column ∈ sortBy.getD [], column.name ∉ partitionColumns → Faithful parse column.name := by
  have hnames : ∀ column ∈ fullSortSpec strategy partitionColumns sortBy, column.name ∈ schema.names := by
    intro column hcolumn
    rcases mem_fullSortSpec_names.mp (List.mem_map_of_mem hcolumn) with ⟨-, hmem⟩ | ⟨hmem, -⟩
    · exact hpartition _ hmem
    · obtain ⟨other, hother, heq⟩ := List.mem_map.mp hmem
      exact heq ▸ hsort other hother
  have hmem (p : String → Prop) : (∀ column ∈ fullSortSpec strategy partitionColumns sortBy, p column.name) ↔
      ∀ name ∈ (fullSortSpec strategy partitionColumns sortBy).map SortColumn.name, p name := by
    simp
  rw [applySort_iff hP hnames, hmem]
  simp only [mem_fullSortSpec_names]
  constructor
  · refine fun h => ⟨fun hstrategy name hname => h name (.inl ⟨hstrategy, hname⟩), fun column hcolumn hnot => ?_⟩
    exact h _ (.inr ⟨List.mem_map_of_mem hcolumn, hnot⟩)
  · rintro ⟨hfirst, huser⟩ name (⟨hstrategy, hname⟩ | ⟨hname, hnot⟩)
    · exact hfirst hstrategy name hname
    · obtain ⟨column, hcolumn, rfl⟩ := List.mem_map.mp hname
      exact huser column hcolumn hnot

/-- A sort and an analysis are over the named columns exactly when every name
they use is left as it is; the analysis of such names is that of their columns. -/
theorem column_reference_iff (schema : Schema) (hP : parse.Lawful schema.names) :
    (∀ qualifier, ∀ name ∈ schema.names,
      (DFSchema.resolve ⟨qualifier, schema⟩ (col parse name) = .ok name ↔ Faithful parse name)) ∧
    (∀ qualifier (columns : List SortColumn), (∀ column ∈ columns, column.name ∈ schema.names) →
      (applySort parse ⟨qualifier, schema⟩ columns = .ok (columns.map (·.toExpr id)) ↔
        ∀ column ∈ columns, Faithful parse column.name)) ∧
    (∀ qualifier strategy partitionColumns (sortBy : Option SortSpec),
      (∀ name ∈ partitionColumns, name ∈ schema.names) →
      (∀ column ∈ sortBy.getD [], column.name ∈ schema.names) →
      (applySort parse ⟨qualifier, schema⟩ (fullSortSpec strategy partitionColumns sortBy) =
          .ok ((fullSortSpec strategy partitionColumns sortBy).map (·.toExpr id)) ↔
        (strategy = .sortSingle → ∀ name ∈ partitionColumns, Faithful parse name) ∧
          ∀ column ∈ sortBy.getD [], column.name ∉ partitionColumns → Faithful parse column.name)) ∧
    ∀ columns, analyzableColumns schema columns ≠ [] →
      (planAnalysis parse schema columns =
          .ok ((analyzableColumns schema columns).flatMap (columnAggregates id schema)) ↔
        ∀ name ∈ analyzableColumns schema columns, Faithful parse name) ∧
      ((∀ name ∈ analyzableColumns schema columns, Faithful parse name) →
        ∀ {F : Type} (eval : AggregateFunction → String → Cell F),
          runStreamingAnalysis parse eval schema columns =
            .ok ((analyzableColumns schema columns).map fun name => (name, ownAnalysis eval schema name))) :=
  ⟨fun _ _ hname => resolve_col_iff hP hname, fun _ _ hnames => applySort_iff hP hnames,
    fun qualifier _ _ _ hpartition hsort => applySort_fullSortSpec_iff hP qualifier hpartition hsort,
    fun _ hne => ⟨planAnalysis_iff hP hne, fun h _ _ => runStreamingAnalysis_of_faithful hP hne h⟩⟩

def splittingParser : IdentifierParser := fun name =>
  (splitIdentifier false name.toList).map (String.ofList ∘ normalizeIdentifier)

theorem splittingParser_lawful (names : List String) : splittingParser.Lawful names := fun _ _ => .inr rfl

def upperSchema : Schema := [.mk "Id" .int64 true]

def bothSchema : Schema := [.mk "Id" .int64 true, .mk "id" .int64 true]

theorem column_reference_iff_upper :
    (DFSchema.resolve ⟨none, upperSchema⟩ (col splittingParser "Id") = .ok "Id" ↔
      Faithful splittingParser "Id") ∧
    (applySort splittingParser ⟨none, bothSchema⟩ (fullSortSpec .sortSingle ["Id"] (some [sortColumn "id" .descending])) =
        .ok ((fullSortSpec .sortSingle ["Id"] (some [sortColumn "id" .descending])).map (·.toExpr id)) ↔
      (PartitionStrategy.sortSingle = .sortSingle → ∀ name ∈ ["Id"], Faithful splittingParser name) ∧
        ∀ column ∈ [sortColumn "id" .descending], column.name ∉ ["Id"] → Faithful splittingParser column.name) ∧
    (planAnalysis splittingParser bothSchema ["id"] =
        .ok ((analyzableColumns bothSchema ["id"]).flatMap (columnAggregates id bothSchema)) ↔
      ∀ name ∈ analyzableColumns bothSchema ["id"], Faithful splittingParser name) ∧
    runStreamingAnalysis splittingParser (fun _ _ => (.uint64 (some 3) : Cell Unit)) bothSchema ["id"] =
      .ok [("id", ⟨3, none⟩)] := by
  have hupper := column_reference_iff upperSchema (splittingParser_lawful _)
  have hboth := column_reference_iff bothSchema (splittingParser_lawful _)
  obtain ⟨hplan, hrun⟩ := hboth.2.2.2 ["id"] (by decide)
  refine ⟨hupper.1 none "Id" (by decide), hboth.2.2.1 none .sortSingle ["Id"] _ (by decide) (by decide), hplan, ?_⟩
  refine hrun (fun name hname => .inr ?_) _
  obtain rfl : name = "id" := by simpa using List.mem_of_mem_filter hname
  exact ⟨by decide, by decide, by simp⟩

/-- Sorting by `Id` fails, or sorts by the column `id`, and the analysis of
`Id` fails, or is the analysis of `id`. -/
theorem column_reference_broken :
    (∀ names, splittingParser.Lawful names) ∧
    applySort splittingParser ⟨none, upperSchema⟩ [sortColumn "Id" .ascending] =
      .error (.fieldNotFound ⟨none, "id"⟩) ∧
    applySort splittingParser ⟨none, bothSchema⟩ [sortColumn "Id" .ascending] =
      .ok [⟨"id", true, false⟩] ∧
    planAnalysis splittingParser upperSchema ["Id"] = .error (.fieldNotFound ⟨none, "id"⟩) ∧
    planAnalysis splittingParser bothSchema ["Id"] = .ok [⟨.approxDistinct, "id", "Id_ndv"⟩] :=
  ⟨splittingParser_lawful, by decide, by decide, by decide, by decide⟩

end SilkChiffon.ColumnReference
