import SilkChiffon.Lib.Segments
import SilkChiffon.Storage.Location
import SilkChiffon.Transform.ColumnReference
import Mathlib.Data.List.ReduceOption

/-!
# The text of a sort specification

Columns between commas, each with a direction behind a colon or none. A text is
read column by column, and the first column of a name is the one that counts.
-/

namespace SilkChiffon.Cli

open ColumnReference (SortColumn SortDirection NullPlacement sortColumn uniqueBy uniqueBy_insert uniqueBy_of_nodup
  uniqueBy_sublist nodup_uniqueBy_names mem_uniqueBy_names)
open SilkChiffon.Lists (trim)
open Storage (splitOnce splitOnce_eq_none splitOnce_of_notMem)

/-- The white space of Unicode. -/
def isWhitespace (c : Char) : Bool :=
  (9 ≤ c.toNat && c.toNat ≤ 13) || (0x2000 ≤ c.toNat && c.toNat ≤ 0x200A) ||
    [0x20, 0x85, 0xA0, 0x1680, 0x2028, 0x2029, 0x202F, 0x205F, 0x3000].contains c.toNat

/-- `to_lowercase`: an ASCII character is lowered by itself, wherever it stands. -/
structure Lowercase where
  map : List Char → List Char
  ascii : ∀ s, (∀ c ∈ s, c.toNat < 128) → map s = s.map Char.toLower
  keeps : ∀ s, ∀ c ∈ s, c.toNat < 128 → c.toLower ∈ map s

def desc : List Char := ['d', 'e', 's', 'c']
def descending : List Char := ['d', 'e', 's', 'c', 'e', 'n', 'd', 'i', 'n', 'g']
def asc : List Char := ['a', 's', 'c']
def ascending : List Char := ['a', 's', 'c', 'e', 'n', 'd', 'i', 'n', 'g']

def invalidDirection (direction : List Char) : Except String SortDirection :=
  .error s!"Invalid sort direction '{String.ofList direction}'. Use 'asc' or 'desc'"

def parseDirection (lowercase : Lowercase) (direction : List Char) : Except String SortDirection :=
  let direction := lowercase.map (trim isWhitespace direction)
  if direction = desc ∨ direction = descending then .ok .descending
  else if direction = asc ∨ direction = ascending then .ok .ascending
  else invalidDirection direction

/-- The column of a part, unless it is blank. -/
def parsePart (lowercase : Lowercase) (part : List Char) : Except String (Option SortColumn) :=
  let part := trim isWhitespace part
  if part = [] then .ok none
  else
    match splitOnce ':' part with
    | some (col, direction) =>
      (parseDirection lowercase direction).map fun direction =>
        some (sortColumn (String.ofList (trim isWhitespace col)) direction)
    | none => .ok (some (sortColumn (String.ofList part) .ascending))

namespace SortSpec

def fromStr (lowercase : Lowercase) (s : List Char) : Except String ColumnReference.SortSpec := do
  let columns ← (s.splitOn ',').mapM (parsePart lowercase)
  return uniqueBy SortColumn.name columns.reduceOption []

def columnText (column : SortColumn) : List Char :=
  match column.direction with
  | .descending => column.name.toList ++ ':' :: desc
  | .ascending => column.name.toList

def display (spec : ColumnReference.SortSpec) : List Char := [','].intercalate (spec.map columnText)

end SortSpec

-- ---------------------------------------------------------------------------
-- What a text promises
-- ---------------------------------------------------------------------------

def Blank (text : List Char) : Prop := ∀ c ∈ text, isWhitespace c = true

def IsSeparator (c : Char) : Prop := c = ',' ∨ c = ':'

def AtEdge (before after : List Char) : Prop :=
  before = [] ∨ after = [] ∨ (∃ c, before.getLast? = some c ∧ IsSeparator c) ∨ ∃ c, after.head? = some c ∧ IsSeparator c

def Repeats (lowercase : Lowercase) (earlier : List (List Char)) (part : List Char) : Prop :=
  ∃ column, parsePart lowercase part = .ok (some column) ∧
    ∃ first ∈ earlier, ∃ column', parsePart lowercase first = .ok (some column') ∧ column'.name = column.name

/-- The columns of a text have names of their own, and neither printing them,
nor the white space around them, nor a repeated column makes a difference. -/
structure Stable (lowercase : Lowercase) (s : List Char) (spec : ColumnReference.SortSpec) : Prop where
  distinct : (spec.map SortColumn.name).Nodup
  named : ∀ column ∈ spec, column.name ≠ ""
  display : SortSpec.fromStr lowercase (SortSpec.display spec) = .ok spec
  spacing : ∀ before blanks blanks' after, s = before ++ blanks ++ after → AtEdge before after → Blank blanks →
    Blank blanks' → SortSpec.fromStr lowercase (before ++ blanks' ++ after) = .ok spec
  repeated : ∀ before part after, s.splitOn ',' = before ++ after → ',' ∉ part → Repeats lowercase before part →
    SortSpec.fromStr lowercase ([','].intercalate (before ++ part :: after)) = .ok spec

/-- Nothing but white space is in front of a part's colon. -/
def NoName (part : List Char) : Prop := (part.dropWhile isWhitespace).head? = some ':'

-- ---------------------------------------------------------------------------
-- One part
-- ---------------------------------------------------------------------------

variable {lowercase : Lowercase}

theorem parsePart_append_left (h : Blank blanks) :
    parsePart lowercase (blanks ++ part) = parsePart lowercase part := by
  rw [parsePart, Lists.trim_append_left h, parsePart]

theorem parsePart_append_right (h : Blank blanks) :
    parsePart lowercase (part ++ blanks) = parsePart lowercase part := by
  rw [parsePart, Lists.trim_append_right h, parsePart]

theorem parseDirection_append_left (h : Blank blanks) :
    parseDirection lowercase (blanks ++ direction) = parseDirection lowercase direction := by
  rw [parseDirection, Lists.trim_append_left h, parseDirection]

theorem parsePart_colon (h : ':' ∉ col) (direction : List Char) :
    parsePart lowercase (col ++ ':' :: direction) = (parseDirection lowercase direction).map fun d =>
      some (sortColumn (String.ofList (trim isWhitespace col)) d) := by
  have hcol : ':' ∉ col.dropWhile isWhitespace := fun hmem => h ((List.dropWhile_sublist _).mem hmem)
  have hdirection : parseDirection lowercase (direction.rdropWhile isWhitespace) =
      parseDirection lowercase direction := by
    rw [parseDirection, Lists.trim_rdropWhile, parseDirection]
  rw [parsePart, Lists.trim_append_cons (by decide)]
  rw [if_neg (by simp), splitOnce_of_notMem hcol]
  dsimp only
  rw [hdirection, Lists.trim_dropWhile]

theorem parsePart_plain (h : ':' ∉ part) :
    parsePart lowercase part = .ok (if trim isWhitespace part = [] then none
      else some (sortColumn (String.ofList (trim isWhitespace part)) .ascending)) := by
  rw [parsePart]
  split
  · rfl
  · rw [splitOnce_eq_none fun hmem => h (Lists.mem_of_mem_trim hmem)]

/-- A second colon is in the direction, and no direction has one. -/
theorem notMem_of_parseDirection_ok (h : parseDirection lowercase direction = .ok d) : ':' ∉ direction := by
  intro hmem
  obtain ⟨col, rest, rfl⟩ := List.append_of_mem hmem
  have hlower : ':' ∈ lowercase.map (trim isWhitespace (col ++ ':' :: rest)) := by
    refine lowercase.keeps _ ':' ?_ (by decide)
    rw [Lists.trim_append_cons (by decide)]
    exact List.mem_append_right _ List.mem_cons_self
  unfold parseDirection at h
  dsimp only at h
  generalize lowercase.map (trim isWhitespace (col ++ ':' :: rest)) = lowered at h hlower
  split at h
  · rename_i hdesc
    rcases hdesc with rfl | rfl <;> exact absurd hlower (by decide)
  · split at h
    · rename_i hasc
      rcases hasc with rfl | rfl <;> exact absurd hlower (by decide)
    · cases h

theorem colon_once (h : parsePart lowercase (col ++ ':' :: direction) = .ok column) :
    ':' ∉ col ∧ ':' ∉ direction := by
  have hcol : ':' ∉ col := by
    intro hmem
    obtain ⟨first, rest, rfl, hfirst⟩ := List.eq_append_cons_of_mem hmem
    rw [List.append_assoc, List.cons_append, parsePart_colon hfirst] at h
    obtain ⟨d, hd, -⟩ := Lists.map_eq_ok.mp h
    exact notMem_of_parseDirection_ok hd (List.mem_append_right _ List.mem_cons_self)
  rw [parsePart_colon hcol] at h
  obtain ⟨d, hd, -⟩ := Lists.map_eq_ok.mp h
  exact ⟨hcol, notMem_of_parseDirection_ok hd⟩

theorem Blank.colon_notMem (h : Blank blanks) : ':' ∉ blanks :=
  fun hmem => absurd (h ':' hmem) (by decide)

theorem Blank.comma_notMem (h : Blank blanks) : ',' ∉ blanks :=
  fun hmem => absurd (h ',' hmem) (by decide)

theorem parsePart_blanks (h : Blank blanks)
    (hedge : before = [] ∨ after = [] ∨ before.getLast? = some ':' ∨ after.head? = some ':') :
    parsePart lowercase (before ++ blanks ++ after) = .ok column ↔
      parsePart lowercase (before ++ after) = .ok column := by
  rcases hedge with rfl | rfl | hlast | hhead
  · rw [List.nil_append, List.nil_append, parsePart_append_left h]
  · rw [List.append_nil, List.append_nil, parsePart_append_right h]
  · obtain ⟨col, rfl⟩ := List.getLast?_eq_some_iff.mp hlast
    by_cases hcol : ':' ∈ col
    · simp only [List.append_assoc, List.cons_append, List.nil_append]
      exact ⟨fun hok => absurd hcol (colon_once hok).1, fun hok => absurd hcol (colon_once hok).1⟩
    · simp only [List.append_assoc, List.cons_append, List.nil_append]
      rw [parsePart_colon hcol, parsePart_colon hcol, parseDirection_append_left h]
  · obtain ⟨direction, rfl⟩ := List.head?_eq_some_iff.mp hhead
    by_cases hcol : ':' ∈ before
    · exact ⟨fun hok => absurd (List.mem_append_left _ hcol) (colon_once hok).1,
        fun hok => absurd hcol (colon_once hok).1⟩
    · have hmem : ':' ∉ before ++ blanks := by
        rw [List.mem_append, not_or]
        exact ⟨hcol, h.colon_notMem⟩
      rw [parsePart_colon hmem, parsePart_colon hcol, Lists.trim_append_right h]

theorem parsePart_some (h : parsePart lowercase part = .ok (some column)) :
    ∃ name direction, column = sortColumn (String.ofList name) direction ∧ trim isWhitespace name = name ∧
      ':' ∉ name ∧ (∀ c ∈ name, c ∈ part) ∧ (name = [] ↔ NoName part) := by
  by_cases hcolon : ':' ∈ part
  · obtain ⟨col, direction, rfl, hcol⟩ := List.eq_append_cons_of_mem hcolon
    rw [parsePart_colon hcol] at h
    obtain ⟨d, -, hcolumn⟩ := Lists.map_eq_ok.mp h
    refine ⟨trim isWhitespace col, d, (Option.some.inj hcolumn).symm, Lists.trim_trim col,
      fun hmem => hcol (Lists.mem_of_mem_trim hmem),
      fun c hc => List.mem_append_left _ (Lists.mem_of_mem_trim hc), ?_⟩
    rw [Lists.trim_eq_nil_iff, ← List.dropWhile_eq_nil_iff, NoName, List.dropWhile_append]
    split
    · rename_i hnil
      exact iff_of_true (List.isEmpty_iff.mp hnil) rfl
    · rename_i hnil
      obtain ⟨c, rest, hdrop⟩ := List.exists_cons_of_ne_nil fun hnil' => hnil (List.isEmpty_iff.mpr hnil')
      refine iff_of_false (fun hnil' => hnil (List.isEmpty_iff.mpr hnil')) fun hhead => ?_
      rw [hdrop] at hhead
      obtain rfl := Option.some.inj hhead
      exact hcol ((List.dropWhile_sublist _).mem (hdrop ▸ List.mem_cons_self))
  · rw [parsePart_plain hcolon] at h
    split at h
    · cases h
    · rename_i hne
      refine ⟨trim isWhitespace part, .ascending, (Option.some.inj (Except.ok.inj h)).symm, Lists.trim_trim part,
        fun hmem => hcolon (Lists.mem_of_mem_trim hmem), fun c hc => Lists.mem_of_mem_trim hc,
        iff_of_false hne fun hhead => ?_⟩
      exact hcolon ((List.dropWhile_sublist _).mem (List.mem_of_head? hhead))

theorem parsePart_noName (h : parsePart lowercase part = .ok result) (hname : NoName part) :
    ∃ column, result = some column ∧ column.name = "" := by
  obtain ⟨direction, hdrop⟩ := List.head?_eq_some_iff.mp hname
  have hpart : part.takeWhile isWhitespace ++ ':' :: direction = part := by
    rw [← hdrop]
    exact List.takeWhile_append_dropWhile
  have hblank : Blank (part.takeWhile isWhitespace) := fun c hc => List.mem_takeWhile_imp hc
  rw [← hpart, parsePart_colon hblank.colon_notMem, Lists.trim_eq_nil_iff.mpr hblank] at h
  obtain ⟨d, -, rfl⟩ := Lists.map_eq_ok.mp h
  exact ⟨_, rfl, rfl⟩

theorem parseDirection_desc : parseDirection lowercase desc = .ok .descending := by
  have hlower : lowercase.map (trim isWhitespace desc) = desc := by
    have htrim : trim isWhitespace desc = desc := by decide
    have hascii : desc.all (·.toNat < 128) = true := by decide
    rw [htrim, lowercase.ascii _ fun c hc => of_decide_eq_true (List.all_eq_true.mp hascii c hc)]
    rfl
  rw [parseDirection, hlower, if_pos (.inl rfl)]

theorem parsePart_columnText (hne : name ≠ []) (htrim : trim isWhitespace name = name) (hcolon : ':' ∉ name)
    (direction : SortDirection) :
    parsePart lowercase (SortSpec.columnText (sortColumn (String.ofList name) direction)) =
      .ok (some (sortColumn (String.ofList name) direction)) := by
  cases direction with
  | ascending =>
    have htext : SortSpec.columnText (sortColumn (String.ofList name) .ascending) = name :=
      String.toList_ofList
    rw [htext, parsePart_plain hcolon, htrim, if_neg hne]
  | descending =>
    have htext : SortSpec.columnText (sortColumn (String.ofList name) .descending) = name ++ ':' :: desc :=
      congrArg (· ++ _) String.toList_ofList
    rw [htext, parsePart_colon hcolon, parseDirection_desc, htrim]
    rfl

theorem comma_notMem_columnText (h : ',' ∉ name) :
    ',' ∉ SortSpec.columnText (sortColumn (String.ofList name) direction) := by
  have hname : ',' ∉ (String.ofList name).toList := by rwa [String.toList_ofList]
  cases direction with
  | ascending => exact hname
  | descending =>
    show ',' ∉ (String.ofList name).toList ++ ':' :: desc
    rw [List.mem_append, not_or]
    exact ⟨hname, by decide⟩

-- ---------------------------------------------------------------------------
-- The whole text
-- ---------------------------------------------------------------------------

theorem SortSpec.fromStr_ok : SortSpec.fromStr lowercase s = .ok spec ↔
    ∃ columns, (s.splitOn ',').mapM (parsePart lowercase) = .ok columns ∧
      uniqueBy SortColumn.name columns.reduceOption [] = spec := by
  simp only [SortSpec.fromStr, Lists.bind_eq_ok, pure, Except.pure, Except.ok.injEq]

theorem mem_columns {parts : List (List Char)} {columns : List (Option SortColumn)}
    (h : parts.mapM (parsePart lowercase) = .ok columns) :
    column ∈ columns.reduceOption ↔ ∃ part ∈ parts, parsePart lowercase part = .ok (some column) := by
  rw [Lists.mapM_eq_ok_iff_forall₂] at h
  induction h with
  | nil => simp
  | @cons part result parts columns hpart _ ih =>
    cases result with
    | none =>
      rw [List.reduceOption_cons_of_none, ih]
      simp [hpart]
    | some first =>
      rw [List.reduceOption_cons_of_some, List.mem_cons, ih]
      simp [hpart, eq_comm]

theorem fromStr_congr (h : ∀ columns, (s.splitOn ',').mapM (parsePart lowercase) = .ok columns ↔
    (s'.splitOn ',').mapM (parsePart lowercase) = .ok columns) :
    SortSpec.fromStr lowercase s = .ok spec ↔ SortSpec.fromStr lowercase s' = .ok spec := by
  simp only [SortSpec.fromStr_ok, h]

/-- White space at an edge is in one part, at an edge of the part. -/
theorem fromStr_blanks (h : Blank blanks) (hedge : AtEdge before after) :
    SortSpec.fromStr lowercase (before ++ blanks ++ after) = .ok spec ↔
      SortSpec.fromStr lowercase (before ++ after) = .ok spec := by
  obtain ⟨first, rest, hafter⟩ := List.exists_cons_of_ne_nil (List.splitOn_ne_nil ',' after)
  have hblanks : (blanks ++ after).splitOn ',' = (blanks ++ first) :: rest := by
    rw [Lists.splitOn_append, List.splitOn_eq_singleton h.comma_notMem, hafter]
    rfl
  refine fromStr_congr fun columns => ?_
  rw [List.append_assoc, Lists.splitOn_append, Lists.splitOn_append before after, hblanks, hafter,
    List.modifyHead_cons, List.modifyHead_cons, ← List.append_assoc]
  refine Lists.mapM_replace fun column => parsePart_blanks h ?_
  rcases hedge with rfl | rfl | ⟨c, hlast, hc⟩ | ⟨c, hhead, hc⟩
  · exact .inl rfl
  · exact .inr (.inl (List.cons.inj hafter).1.symm)
  · obtain ⟨text, rfl⟩ := List.getLast?_eq_some_iff.mp hlast
    rw [Lists.getLastD_splitOn_concat]
    rcases hc with rfl | rfl
    · exact .inl rfl
    · exact .inr (.inr (.inl List.getLast?_concat))
  · obtain ⟨text, rfl⟩ := List.head?_eq_some_iff.mp hhead
    rw [List.splitOn_cons_eq_if_modifyHead] at hafter
    rcases hc with rfl | rfl
    · exact .inr (.inl (List.cons.inj hafter).1.symm)
    · obtain ⟨next, others, htext⟩ := List.exists_cons_of_ne_nil (List.splitOn_ne_nil ',' text)
      rw [htext] at hafter
      rw [← (List.cons.inj hafter).1]
      exact .inr (.inr (.inr rfl))

theorem fromStr_repeated (h : SortSpec.fromStr lowercase s = .ok spec) (hsplit : s.splitOn ',' = before ++ after)
    (hcomma : ',' ∉ part) (hrepeats : Repeats lowercase before part) :
    SortSpec.fromStr lowercase ([','].intercalate (before ++ part :: after)) = .ok spec := by
  obtain ⟨column, hpart, first, hfirst, column', hparse, hname⟩ := hrepeats
  obtain ⟨columns, hcolumns, hspec⟩ := SortSpec.fromStr_ok.mp h
  rw [hsplit] at hcolumns
  obtain ⟨earlier, later, hearlier, hlater, rfl⟩ := Lists.mapM_append_eq_ok.mp hcolumns
  have hparts : ([','].intercalate (before ++ part :: after)).splitOn ',' = before ++ part :: after := by
    refine List.splitOn_intercalate ',' (fun text htext hmem => ?_) (by simp)
    rcases List.mem_append.mp htext with htext | htext
    · exact Lists.notMem_of_mem_splitOn (hsplit ▸ List.mem_append_left _ htext) hmem
    · rcases List.mem_cons.mp htext with rfl | htext
      · exact hcomma hmem
      · exact Lists.notMem_of_mem_splitOn (hsplit ▸ List.mem_append_right _ htext) hmem
  refine SortSpec.fromStr_ok.mpr ⟨earlier ++ some column :: later, ?_, ?_⟩
  · rw [hparts]
    exact Lists.mapM_append_eq_ok.mpr ⟨_, _, hearlier, Lists.mapM_cons_eq_ok.mpr ⟨_, _, hpart, hlater, rfl⟩, rfl⟩
  · have hmem : column.name ∈ earlier.reduceOption.map SortColumn.name :=
      List.mem_map.mpr ⟨column', (mem_columns hearlier).mpr ⟨first, hfirst, hparse⟩, hname⟩
    rw [List.reduceOption_append, List.reduceOption_cons_of_some, uniqueBy_insert (.inl hmem),
      ← List.reduceOption_append, hspec]

theorem fromStr_display (hdistinct : (spec.map SortColumn.name).Nodup)
    (hcomma : ∀ column ∈ spec, ',' ∉ SortSpec.columnText column)
    (hparts : ∀ column ∈ spec, parsePart lowercase (SortSpec.columnText column) = .ok (some column)) :
    SortSpec.fromStr lowercase (SortSpec.display spec) = .ok spec := by
  cases spec with
  | nil => rfl
  | cons first spec =>
    have hsplit : (SortSpec.display (first :: spec)).splitOn ',' = (first :: spec).map SortSpec.columnText := by
      refine List.splitOn_intercalate ',' (fun text htext => ?_) (by simp)
      obtain ⟨column, hcolumn, rfl⟩ := List.mem_map.mp htext
      exact hcomma column hcolumn
    refine SortSpec.fromStr_ok.mpr ⟨(first :: spec).map some, ?_, ?_⟩
    · rw [hsplit, List.mapM_map]
      exact Lists.mapM_eq_ok_map.mpr hparts
    · have hcolumns : ((first :: spec).map some).reduceOption = first :: spec := by
        rw [List.reduceOption, List.filterMap_map]
        exact List.filterMap_some
      rw [hcolumns]
      exact uniqueBy_of_nodup hdistinct fun _ _ => List.not_mem_nil

/-- An accepted text is stable if and only if each of its columns has a name. -/
theorem sort_text_stable_iff (h : SortSpec.fromStr lowercase s = .ok spec) :
    Stable lowercase s spec ↔ ∀ part ∈ s.splitOn ',', ¬ NoName part := by
  obtain ⟨columns, hcolumns, hspec⟩ := SortSpec.fromStr_ok.mp h
  constructor
  · intro hstable part hpart hnone
    obtain ⟨before, after, hsplit⟩ := List.append_of_mem hpart
    have hparts := hcolumns
    rw [hsplit] at hparts
    obtain ⟨_, _, -, hrest, -⟩ := Lists.mapM_append_eq_ok.mp hparts
    obtain ⟨result, _, hparse, -, -⟩ := Lists.mapM_cons_eq_ok.mp hrest
    obtain ⟨column, rfl, hempty⟩ := parsePart_noName hparse hnone
    have hmem : "" ∈ spec.map SortColumn.name := by
      rw [← hspec, mem_uniqueBy_names]
      exact ⟨hempty ▸ List.mem_map_of_mem ((mem_columns hcolumns).mpr ⟨part, hpart, hparse⟩), List.not_mem_nil⟩
    obtain ⟨other, hother, hname⟩ := List.mem_map.mp hmem
    exact hstable.named other hother hname
  · intro hnamed
    have hcolumn : ∀ column ∈ spec, ∃ part ∈ s.splitOn ',', parsePart lowercase part = .ok (some column) :=
      fun column hcolumn => (mem_columns hcolumns).mp (uniqueBy_sublist.mem (hspec ▸ hcolumn))
    have hdistinct : (spec.map SortColumn.name).Nodup := hspec ▸ nodup_uniqueBy_names
    refine ⟨hdistinct, fun column hmem => ?_, fromStr_display hdistinct (fun column hmem => ?_) fun column hmem => ?_,
      fun before blanks blanks' after hs hedge hblanks hblanks' => ?_,
      fun before part after hs hcomma hrepeats => fromStr_repeated h hs hcomma hrepeats⟩
    · obtain ⟨part, hpart, hparse⟩ := hcolumn column hmem
      obtain ⟨name, direction, rfl, -, -, -, hname⟩ := parsePart_some hparse
      exact fun hempty => hnamed part hpart (hname.mp (String.ofList_eq_empty_iff.mp hempty))
    · obtain ⟨part, hpart, hparse⟩ := hcolumn column hmem
      obtain ⟨name, direction, rfl, -, -, hin, -⟩ := parsePart_some hparse
      exact comma_notMem_columnText fun hcomma => Lists.notMem_of_mem_splitOn hpart (hin ',' hcomma)
    · obtain ⟨part, hpart, hparse⟩ := hcolumn column hmem
      obtain ⟨name, direction, rfl, htrim, hcolon, -, hname⟩ := parsePart_some hparse
      exact parsePart_columnText (fun hnil => hnamed part hpart (hname.mp hnil)) htrim hcolon direction
    · rw [fromStr_blanks hblanks' hedge, ← fromStr_blanks hblanks hedge, ← hs]
      exact h

def asciiLowercase : Lowercase where
  map s := s.map Char.toLower
  ascii _ _ := rfl
  keeps _ _ hc _ := List.mem_map_of_mem hc

theorem sort_text_stable_iff_minimum :
    Stable asciiLowercase [' ', 'a', ':', 'd', 'e', 's', 'c', ',', 'b'] [sortColumn "a" .descending, sortColumn "b" .ascending] :=
  (sort_text_stable_iff (by decide)).mpr (by unfold NoName; decide)

/-- A direction without a column is a column without a name, and printing loses it. -/
theorem bare_direction_accepted :
    SortSpec.fromStr asciiLowercase (':' :: asc) = .ok [sortColumn "" .ascending] ∧
    SortSpec.fromStr asciiLowercase (SortSpec.display [sortColumn "" .ascending]) = .ok [] ∧
    ¬ Stable asciiLowercase (':' :: asc) [sortColumn "" .ascending] :=
  ⟨by decide, by decide, fun h => h.named _ List.mem_cons_self rfl⟩

end SilkChiffon.Cli
