import SilkChiffon.Arrow.RecordBatch

/-!
# Partition runs

`PartitionRunStream` splits every batch at the boundaries Arrow's `partition`
kernel finds between rows of different partition values. The kernel is a
parameter with the law its documentation states. The runs of a stream, in the
order they are polled, hold its rows in input order.
-/

namespace SilkChiffon.FileOutput

open Arrow

/-- An error chain. `withCleanup` joins a failure and one of its cleanup. -/
inductive Error
  | message (text : String)
  | context (text : String) (source : Error)
  | withCleanup (primary cleanup : Error)
  deriving DecidableEq, Repr

-- ---------------------------------------------------------------------------
-- Partition values
-- ---------------------------------------------------------------------------

/-- One partition's values by column name, each name at most once. -/
abbrev PartitionValues (α : Type) := List (String × Cell α)

namespace PartitionValues

def get (values : PartitionValues α) (name : String) : Option (Cell α) := values.lookup name

def insert (values : PartitionValues α) (name : String) (cell : Cell α) : PartitionValues α :=
  if values.any (·.1 == name) then values.map fun p => if p.1 == name then (name, cell) else p
  else values ++ [(name, cell)]

end PartitionValues

namespace PartitionValues

theorem lookup_replace (values : PartitionValues α) (name : String) (cell : Cell α) (other : String) :
    (values.map fun p => if p.1 == name then (name, cell) else p).lookup other =
      if other = name ∧ values.any (·.1 == name) then some cell else values.lookup other := by
  induction values with
  | nil => simp
  | cons p rest ih =>
    rw [List.map_cons]
    by_cases hp : p.1 = name
    · by_cases ho : other = name
      · simp [hp, ho]
      · have hne : (other == name) = false := by simpa using ho
        obtain ⟨n, c⟩ := p
        obtain rfl := hp
        simpa [List.lookup_cons, hne, ho] using ih
    · have hne : (p.1 == name) = false := by simpa using hp
      rw [if_neg (by simpa using hp), List.lookup_cons, List.lookup_cons, ih]
      by_cases hop : other = p.1
      · have hno : p.1 ≠ name := hp
        simp [hop, hno]
      · rw [beq_false_of_ne hop, List.any_cons, hne, Bool.false_or]

theorem get_insert (values : PartitionValues α) (name : String) (cell : Cell α) (other : String) :
    (values.insert name cell).get other = if other = name then some cell else values.get other := by
  unfold insert get
  split
  · rename_i hany
    rw [lookup_replace]
    simp [hany]
  · rename_i hany
    have hnone : values.lookup name = none := by
      rw [List.lookup_eq_none_iff]
      intro p hp
      simp only [List.any_eq_true, beq_iff_eq, not_exists, not_and] at hany
      simpa using fun h : name = p.1 => hany p hp h.symm
    rw [List.lookup_append]
    by_cases ho : other = name
    · simp [ho, hnone]
    · simp [ho, List.lookup_cons, beq_false_of_ne ho]

def Covers (values : PartitionValues α) (columns : List String) : Prop :=
  ∀ name ∈ columns, (values.get name).isSome

end PartitionValues

def partitionValuesEqual [DecidableEq α] (a b : PartitionValues α) : Bool :=
  if a.length ≠ b.length then false else a.all fun (key, cell) => b.get key == some cell

/-- `ArrayFormatter` over one value; it may reject the array. -/
abbrev Formatter (α : Type) := α → Option String

def formatScalarValue (format : Formatter α) : Option (Cell α) → String
  | some (some value) => (format value).getD "null"
  | _ => "null"

/-- Length-prefixed, so that values with delimiters in them do not collide,
and `!` for null. -/
def partitionKey (format : Formatter α) (values : PartitionValues α) (columnOrder : List String) :
    String :=
  ",".intercalate (columnOrder.map fun col =>
    match values.get col with
    | some none => "!"
    | cell =>
      let v := formatScalarValue format cell
      toString v.utf8ByteSize ++ ":" ++ v)

theorem partitionKey_congr {format : Formatter α} {a b : PartitionValues α}
    (h : ∀ name ∈ columnOrder, a.get name = b.get name) :
    partitionKey format a columnOrder = partitionKey format b columnOrder := by
  unfold partitionKey
  congr 1
  exact List.map_congr_left fun name hname => by rw [h name hname]

theorem get_eq_of_equal [DecidableEq α] {a b : PartitionValues α} (hcovers : a.Covers columns)
    (h : partitionValuesEqual a b = true) : ∀ name ∈ columns, a.get name = b.get name := by
  intro name hname
  obtain ⟨cell, hcell⟩ := Option.isSome_iff_exists.mp (hcovers name hname)
  unfold partitionValuesEqual at h
  split at h
  · cases h
  · obtain ⟨l₁, l₂, rfl, _⟩ := List.lookup_eq_some_iff.mp hcell
    have := List.all_eq_true.mp h (name, cell) (by simp)
    rw [hcell]
    exact (by simpa using this : b.get name = some cell).symm

theorem partitionKey_eq_of_equal [DecidableEq α] {format : Formatter α} {a b : PartitionValues α}
    (hcovers : a.Covers columnOrder) (h : partitionValuesEqual a b = true) :
    partitionKey format a columnOrder = partitionKey format b columnOrder :=
  partitionKey_congr (get_eq_of_equal hcovers h)

def isPrimitiveType : DataType → Bool
  | .boolean | .int8 | .int16 | .int32 | .int64 | .uint8 | .uint16 | .uint32 | .uint64
  | .float16 | .float32 | .float64 | .utf8 | .largeUtf8 | .utf8View | .date32 | .date64
  | .time32 _ | .time64 _ | .timestamp _ _ | .duration _ | .decimal128 _ _ | .decimal256 _ _ => true
  | _ => false

/-- How Rust's `{:?}` prints the values that error messages quote. -/
structure Debug where
  string : String → String
  dataType : DataType → String

def validatePartitionColumnsPrimitive (debug : Debug) (schema : Schema) :
    List String → Except Error Unit
  | [] => .ok ()
  | col :: columns =>
    match schema.fieldWithName col with
    | none => .error (.message s!"partition column '{col}' not found in schema")
    | some field =>
      if isPrimitiveType field.dataType then validatePartitionColumnsPrimitive debug schema columns
      else .error (.message (s!"partition column '{col}' has non-primitive type " ++
        debug.dataType field.dataType ++ "; only primitive types are supported for partitioning"))

-- ---------------------------------------------------------------------------
-- The stream
-- ---------------------------------------------------------------------------

abbrev Range := Nat × Nat

/-- The ranges of a table given by its columns. -/
abbrev PartitionKernel (α : Type) := List (List (Cell α)) → Except Error (List Range)

structure PartitionRun (α : Type) where
  values : PartitionValues α
  batch : RecordBatch α

structure PartitionRunStream (α : Type) where
  inner : List (Except Error (RecordBatch α))
  columns : List String
  currentBatch : Option (RecordBatch α)
  currentRanges : Option (List Range)
  currentRangeIdx : Nat

namespace PartitionRunStream

def new (stream : List (Except Error (RecordBatch α))) (columns : List String) :
    PartitionRunStream α := ⟨stream, columns, none, none, 0⟩

/-- The values of one row. A kernel's ranges are not empty, so the row of a
run that is asked for is there. -/
def extractPartitionValues (batch : RecordBatch α) (rowIdx : Nat) :
    List String → PartitionValues α → Except Error (PartitionValues α)
  | [], values => .ok values
  | name :: names, values =>
    match batch.columnByName name with
    | none => .error (.message s!"Partition column '{name}' not found in batch")
    | some array =>
      extractPartitionValues batch rowIdx names (values.insert name (array.getD rowIdx none))

def emitRange (columns : List String) (batch : RecordBatch α) (range : Range) :
    Except Error (PartitionRun α) :=
  let sliced := batch.slice range.1 (range.2 - range.1)
  (extractPartitionValues sliced 0 columns []).map fun values => ⟨values, sliced⟩

def partitionBatch (kernel : PartitionKernel α) (columns : List String) (batch : RecordBatch α) :
    Except Error (List Range) :=
  let partitionColumns := columns.filterMap batch.columnByName
  if partitionColumns.length ≠ columns.length then
    .error (.message "Not all partition columns found in batch")
  else kernel partitionColumns

/-- The part of the loop that polls the inner stream. A batch without ranges
leads back to it. -/
def pollInner (kernel : PartitionKernel α) (columns : List String) :
    List (Except Error (RecordBatch α)) →
      Option (Except Error (PartitionRun α)) × PartitionRunStream α
  | [] => (none, new [] columns)
  | .error e :: inner => (some (.error e), new inner columns)
  | .ok batch :: inner =>
    match partitionBatch kernel columns batch with
    | .error e => (some (.error e), new inner columns)
    | .ok [] => pollInner kernel columns inner
    | .ok (range :: ranges) =>
      (some (emitRange columns batch range),
        ⟨inner, columns, some batch, some (range :: ranges), 1⟩)

def pollNext (kernel : PartitionKernel α) (s : PartitionRunStream α) :
    Option (Except Error (PartitionRun α)) × PartitionRunStream α :=
  match s.currentBatch, s.currentRanges with
  | some batch, some ranges =>
    match ranges[s.currentRangeIdx]? with
    | some range =>
      (some (emitRange s.columns batch range), { s with currentRangeIdx := s.currentRangeIdx + 1 })
    | none => pollInner kernel s.columns s.inner
  | _, _ => pollInner kernel s.columns s.inner

def batchItems (kernel : PartitionKernel α) (columns : List String) :
    Except Error (RecordBatch α) → List (Except Error (PartitionRun α))
  | .error e => [.error e]
  | .ok batch =>
    match partitionBatch kernel columns batch with
    | .error e => [.error e]
    | .ok ranges => ranges.map (emitRange columns batch)

def items (kernel : PartitionKernel α) (s : PartitionRunStream α) :
    List (Except Error (PartitionRun α)) :=
  (match s.currentBatch, s.currentRanges with
    | some batch, some ranges => (ranges.drop s.currentRangeIdx).map (emitRange s.columns batch)
    | _, _ => []) ++ s.inner.flatMap (batchItems kernel s.columns)

theorem pollInner_items (kernel : PartitionKernel α) (columns : List String)
    (inner : List (Except Error (RecordBatch α))) :
    inner.flatMap (batchItems kernel columns) =
      match pollInner kernel columns inner with
      | (none, _) => []
      | (some item, s) => item :: items kernel s := by
  induction inner with
  | nil => rfl
  | cons first inner ih =>
    rw [List.flatMap_cons]
    match first with
    | .error e => simp [pollInner, batchItems, items, new]
    | .ok batch =>
      simp only [pollInner, batchItems]
      match partitionBatch kernel columns batch with
      | .error e => simp [items, new]
      | .ok [] => simpa using ih
      | .ok (range :: ranges) => simp [items]

theorem pollNext_items (kernel : PartitionKernel α) (s : PartitionRunStream α) :
    items kernel s =
      match pollNext kernel s with
      | (none, _) => []
      | (some item, s') => item :: items kernel s' := by
  obtain ⟨inner, columns, currentBatch, currentRanges, idx⟩ := s
  match currentBatch, currentRanges with
  | some batch, some ranges =>
    simp only [pollNext]
    cases hrange : ranges[idx]? with
    | some range =>
      obtain ⟨hidx, rfl⟩ := List.getElem?_eq_some_iff.mp hrange
      simp only [items]
      rw [List.drop_eq_getElem_cons hidx, List.map_cons, List.cons_append]
    | none =>
      rw [List.getElem?_eq_none_iff] at hrange
      simpa [items, List.drop_eq_nil_of_le hrange] using pollInner_items kernel columns inner
  | none, _ => simpa [items, pollNext] using pollInner_items kernel columns inner
  | some _, none => simpa [items, pollNext] using pollInner_items kernel columns inner

end PartitionRunStream

-- ---------------------------------------------------------------------------
-- The kernel's law
-- ---------------------------------------------------------------------------

/-- Non-empty ranges, one after the other, from `start` to `stop`. -/
def Tiles : Nat → Nat → List Range → Prop
  | start, stop, [] => start = stop
  | start, stop, (lo, hi) :: ranges => lo = start ∧ lo < hi ∧ Tiles hi stop ranges

structure MaximalRuns (columns : List (List (Cell α))) (n : Nat) (ranges : List Range) : Prop where
  tiles : Tiles 0 n ranges
  constant : ∀ r ∈ ranges, ∀ i, r.1 ≤ i → i < r.2 → ∀ column ∈ columns, column[i]? = column[r.1]?
  maximal : ranges.IsChain fun r s => ∃ column ∈ columns, column[r.1]? ≠ column[s.1]?

def PartitionKernel.Lawful (kernel : PartitionKernel α) : Prop :=
  ∀ columns n ranges, columns ≠ [] → (∀ column ∈ columns, column.length = n) →
    kernel columns = .ok ranges → MaximalRuns columns n ranges

def consecutiveRuns [DecidableEq β] (row : Nat → β) : Nat → Nat → List Range
  | _, 0 => []
  | start, n + 1 =>
    match consecutiveRuns row (start + 1) n with
    | [] => [(start, start + 1)]
    | (lo, hi) :: ranges =>
      if row start = row lo then (start, hi) :: ranges else (start, start + 1) :: (lo, hi) :: ranges

theorem consecutiveRuns_spec [DecidableEq β] (row : Nat → β) (start n : Nat) :
    Tiles start (start + n) (consecutiveRuns row start n) ∧
      (∀ r ∈ consecutiveRuns row start n, ∀ i, r.1 ≤ i → i < r.2 → row i = row r.1) ∧
      (consecutiveRuns row start n).IsChain fun r s => row r.1 ≠ row s.1 := by
  induction n generalizing start with
  | zero => exact ⟨rfl, by simp [consecutiveRuns], by simp [consecutiveRuns]⟩
  | succ n ih =>
    obtain ⟨htiles, hconst, hchain⟩ := ih (start + 1)
    unfold consecutiveRuns
    split
    · rename_i hnil
      rw [hnil] at htiles
      refine ⟨⟨rfl, by omega, by simpa [Tiles, Nat.add_comm, Nat.add_left_comm] using htiles⟩, ?_,
        by simp⟩
      rintro r hr i hlo hhi
      obtain rfl := List.mem_singleton.mp hr
      rw [show i = start by simp only at hlo hhi; omega]
    · rename_i lo hi ranges hruns
      rw [hruns] at htiles hconst hchain
      obtain ⟨rfl, hlt, htiles⟩ := htiles
      rw [show start + 1 + n = start + (n + 1) by omega] at htiles
      split
      · rename_i heq
        refine ⟨⟨rfl, by omega, htiles⟩, ?_, ?_⟩
        · intro r hr i hlo hhi
          rcases List.mem_cons.mp hr with rfl | hr
          · by_cases hi : i = start
            · rw [hi]
            · have hlo : start + 1 ≤ i := by simp only at hlo; omega
              exact (hconst _ List.mem_cons_self i hlo hhi).trans heq.symm
          · exact hconst r (List.mem_cons_of_mem _ hr) i hlo hhi
        · cases ranges with
          | nil => simp
          | cons s ranges =>
            simp only [List.isChain_cons_cons] at hchain ⊢
            exact ⟨heq ▸ hchain.1, hchain.2⟩
      · rename_i hne
        refine ⟨⟨rfl, by omega, rfl, hlt, htiles⟩, ?_, ?_⟩
        · intro r hr i hlo hhi
          rcases List.mem_cons.mp hr with rfl | hr
          · rw [show i = start by simp only at hlo hhi; omega]
          · exact hconst r hr i hlo hhi
        · simp only [List.isChain_cons_cons]
          exact ⟨hne, hchain⟩

def runsKernel [DecidableEq α] : PartitionKernel α
  | [] => .error (.message "no partition columns")
  | column :: columns =>
    .ok (consecutiveRuns (fun i => (column :: columns).map (·[i]?)) 0 column.length)

theorem runsKernel_lawful [DecidableEq α] : (runsKernel : PartitionKernel α).Lawful := by
  intro columns n ranges hne hlen hok
  cases columns with
  | nil => exact absurd rfl hne
  | cons column columns =>
    obtain rfl := Except.ok.inj hok
    obtain ⟨htiles, hconst, hchain⟩ :=
      consecutiveRuns_spec (fun i => (column :: columns).map (·[i]?)) 0 column.length
    refine ⟨?_, ?_, ?_⟩
    · rw [← hlen column List.mem_cons_self]
      simpa using htiles
    · intro r hr i hlo hhi c hc
      exact List.map_inj_left.mp (hconst r hr i hlo hhi) c hc
    · refine hchain.imp fun r s hrs => ?_
      by_contra hall
      push Not at hall
      exact hrs (List.map_inj_left.mpr hall)

theorem Tiles.slices {rows : List β} (h : Tiles start rows.length ranges) :
    ranges.flatMap (fun r => (rows.drop r.1).take (r.2 - r.1)) = rows.drop start := by
  induction ranges generalizing start with
  | nil =>
    obtain rfl := h
    simp
  | cons r ranges ih =>
    obtain ⟨rfl, hlt, h⟩ := h
    have hdrop : rows.drop r.2 = (rows.drop r.1).drop (r.2 - r.1) := by
      rw [List.drop_drop]
      congr 1
      omega
    rw [List.flatMap_cons, ih h, hdrop, List.take_append_drop]

-- ---------------------------------------------------------------------------
-- The rows of a run
-- ---------------------------------------------------------------------------

def rowValues (schema : Schema) (row : Row α) : List String → PartitionValues α → PartitionValues α
  | [], values => values
  | name :: names, values =>
    rowValues schema row names (values.insert name ((schema.cell name row).getD none))

theorem rowValues_congr {schema : Schema} {row row' : Row α}
    (h : ∀ name ∈ names, schema.cell name row = schema.cell name row') :
    rowValues schema row names values = rowValues schema row' names values := by
  induction names generalizing values with
  | nil => rfl
  | cons name names ih =>
    rw [rowValues, rowValues, h name (by simp), ih fun n hn => h n (List.mem_cons_of_mem _ hn)]

theorem rowValues_get {schema : Schema} {row : Row α} (names : List String)
    (values : PartitionValues α) (name : String) :
    (rowValues schema row names values).get name =
      if name ∈ names then some ((schema.cell name row).getD none) else values.get name := by
  induction names generalizing values with
  | nil => simp [rowValues]
  | cons n names ih =>
    rw [rowValues, ih, PartitionValues.get_insert]
    by_cases hn : name = n
    · subst hn
      simp
    · simp [hn]

theorem columnByName_getElem? {batch : RecordBatch α} {i : Nat} (h : batch.columnByName name = some array)
    (hrow : batch.rows[i]? = some row) : array[i]? = batch.schema.cell name row := by
  simp only [RecordBatch.columnByName, Option.map_eq_some_iff] at h
  obtain ⟨idx, hidx, rfl⟩ := h
  simp [Schema.cell, hidx, hrow]

theorem extractPartitionValues_ok {batch : RecordBatch α}
    (h : PartitionRunStream.extractPartitionValues batch i names values = .ok result)
    (hrow : batch.rows[i]? = some row) : result = rowValues batch.schema row names values := by
  induction names generalizing values with
  | nil => exact (Except.ok.inj h).symm
  | cons name names ih =>
    unfold PartitionRunStream.extractPartitionValues at h
    split at h
    · cases h
    · rename_i array harray
      rw [ih h, rowValues, List.getD_eq_getElem?_getD, columnByName_getElem? harray hrow]

theorem extractPartitionValues_covers {batch : RecordBatch α}
    (h : PartitionRunStream.extractPartitionValues batch i names values = .ok result)
    (hvalues : values.Covers before) : result.Covers (before ++ names) := by
  induction names generalizing values before with
  | nil =>
    obtain rfl := Except.ok.inj h
    simpa using hvalues
  | cons name names ih =>
    unfold PartitionRunStream.extractPartitionValues at h
    split at h
    · cases h
    · have : result.Covers ((before ++ [name]) ++ names) := ih h (by
        intro n hn
        rw [PartitionValues.get_insert]
        split
        · rfl
        · rename_i hne
          exact hvalues n (by simpa [hne] using hn))
      simpa using this

theorem extractPartitionValues_other {batch : RecordBatch α} {values result : PartitionValues α}
    (h : PartitionRunStream.extractPartitionValues batch rowIdx names values = .ok result) (hname : name ∉ names) :
    result.get name = values.get name := by
  induction names generalizing values with
  | nil => rw [Except.ok.inj h]
  | cons first names ih =>
    unfold PartitionRunStream.extractPartitionValues at h
    split at h
    · cases h
    · obtain ⟨hfirst, hname⟩ := not_or.mp (mt List.mem_cons.mpr hname)
      rw [ih h hname, PartitionValues.get_insert, if_neg hfirst]

/-- With every column present, the kernel compares the rows by them. -/
theorem cell_eq_of_columns {batch : RecordBatch α} {columns : List String} {i j : Nat}
    (hlen : (columns.filterMap batch.columnByName).length = columns.length)
    (hi : batch.rows[i]? = some row) (hj : batch.rows[j]? = some row')
    (h : ∀ column ∈ columns.filterMap batch.columnByName, column[i]? = column[j]?) :
    ∀ name ∈ columns, batch.schema.cell name row = batch.schema.cell name row' := by
  intro name hname
  have hall : ∀ n ∈ columns, (batch.columnByName n).isSome := List.filterMap_length_eq_length.mp hlen
  obtain ⟨array, harray⟩ := Option.isSome_iff_exists.mp (hall name hname)
  rw [← columnByName_getElem? harray hi, ← columnByName_getElem? harray hj]
  exact h array (List.mem_filterMap.mpr ⟨name, hname, harray⟩)

def PartitionRun.Uniform (columns : List String) (run : PartitionRun α) : Prop :=
  ∀ row ∈ run.batch.rows, run.values = rowValues run.batch.schema row columns []

theorem partitionBatch_ok {kernel : PartitionKernel α} (hK : kernel.Lawful) (hne : columns ≠ [])
    (h : PartitionRunStream.partitionBatch kernel columns batch = .ok ranges) :
    (columns.filterMap batch.columnByName).length = columns.length ∧
      MaximalRuns (columns.filterMap batch.columnByName) batch.rows.length ranges := by
  simp only [PartitionRunStream.partitionBatch] at h
  split at h
  · cases h
  · rename_i hlen
    have hlen := Decidable.not_not.mp hlen
    refine ⟨hlen, hK _ _ _ ?_ ?_ h⟩
    · rintro hnil
      rw [hnil, List.length_nil] at hlen
      exact hne (List.length_eq_zero_iff.mp hlen.symm)
    · intro column hcolumn
      obtain ⟨name, _, hname⟩ := List.mem_filterMap.mp hcolumn
      simp only [RecordBatch.columnByName, Option.map_eq_some_iff] at hname
      obtain ⟨idx, _, rfl⟩ := hname
      simp

theorem emitRange_ok {batch : RecordBatch α} (h : PartitionRunStream.emitRange columns batch range = .ok run) :
    run.batch = batch.slice range.1 (range.2 - range.1) ∧
      ∀ row, run.batch.rows[0]? = some row → run.values = rowValues batch.schema row columns [] := by
  unfold PartitionRunStream.emitRange at h
  simp only [Except.map] at h
  split at h
  · cases h
  · rename_i values hvalues
    obtain rfl := Except.ok.inj h
    refine ⟨rfl, fun row hrow => ?_⟩
    have hvalues := extractPartitionValues_ok hvalues hrow
    exact hvalues

theorem emitRange_uniform {batch : RecordBatch α} {columns : List String} {ranges : List Range}
    (hlen : (columns.filterMap batch.columnByName).length = columns.length)
    (hruns : MaximalRuns (columns.filterMap batch.columnByName) batch.rows.length ranges)
    (hrange : range ∈ ranges) (h : PartitionRunStream.emitRange columns batch range = .ok run) :
    run.Uniform columns := by
  obtain ⟨hbatch, hvalues⟩ := emitRange_ok h
  intro row hrow
  rw [hbatch] at hrow hvalues ⊢
  obtain ⟨k, hk⟩ := List.mem_iff_getElem?.mp hrow
  obtain ⟨hlt, hat⟩ : k < range.2 - range.1 ∧ batch.rows[range.1 + k]? = some row := by
    simpa [RecordBatch.slice, List.getElem?_take] using hk
  obtain ⟨first, hfirst⟩ : ∃ first, batch.rows[range.1]? = some first := by
    have := (List.getElem?_eq_some_iff.mp hat).1
    exact ⟨_, List.getElem?_eq_getElem (by omega)⟩
  rw [hvalues first (by simpa [RecordBatch.slice, List.getElem?_take, show 0 < range.2 - range.1 by omega]
    using hfirst)]
  exact rowValues_congr (cell_eq_of_columns hlen hfirst hat fun column hcolumn =>
    (hruns.constant range hrange _ (by omega) (by omega) column hcolumn).symm)

theorem emitRanges_ok {batch : RecordBatch α} {ranges : List Range} {runs : List (PartitionRun α)}
    (h : ranges.map (PartitionRunStream.emitRange columns batch) = runs.map .ok) :
    runs.flatMap (·.batch.rows) = ranges.flatMap (fun r => (batch.rows.drop r.1).take (r.2 - r.1)) ∧
      ∀ run ∈ runs, ∃ range ∈ ranges, PartitionRunStream.emitRange columns batch range = .ok run := by
  induction ranges generalizing runs with
  | nil =>
    obtain rfl : runs = [] := by simpa using h.symm
    simp
  | cons range ranges ih =>
    cases runs with
    | nil => simp at h
    | cons run runs =>
      simp only [List.map_cons, List.cons.injEq] at h
      obtain ⟨hrows, hruns⟩ := ih h.2
      refine ⟨?_, ?_⟩
      · rw [List.flatMap_cons, List.flatMap_cons, hrows, (emitRange_ok h.1).1]
        rfl
      · rintro r hr
        rcases List.mem_cons.mp hr with rfl | hr
        · exact ⟨range, by simp, h.1⟩
        · obtain ⟨range', hmem, hemit⟩ := hruns r hr
          exact ⟨range', List.mem_cons_of_mem _ hmem, hemit⟩

theorem run_of_mem_items {kernel : PartitionKernel α} {inner : List (Except Error (RecordBatch α))}
    (h : .ok run ∈ inner.flatMap (PartitionRunStream.batchItems kernel columns)) :
    ∃ batch range, .ok batch ∈ inner ∧ PartitionRunStream.emitRange columns batch range = .ok run := by
  obtain ⟨first, hfirst, h⟩ := List.mem_flatMap.mp h
  unfold PartitionRunStream.batchItems at h
  split at h
  · simp at h
  · split at h
    · simp at h
    · obtain ⟨range, -, hemit⟩ := List.mem_map.mp h
      exact ⟨_, range, hfirst, hemit⟩

theorem covers_of_mem_items {kernel : PartitionKernel α} {inner : List (Except Error (RecordBatch α))}
    (h : .ok run ∈ inner.flatMap (PartitionRunStream.batchItems kernel columns)) :
    run.values.Covers columns := by
  obtain ⟨batch, range, -, hemit⟩ := run_of_mem_items h
  simp only [PartitionRunStream.emitRange, Except.map] at hemit
  split at hemit
  · cases hemit
  · rename_i values hvalues
    obtain rfl := Except.ok.inj hemit
    exact extractPartitionValues_covers hvalues fun n hn => absurd hn List.not_mem_nil

/-- A stream that yields only runs received only batches, and the runs are
their rows in order, each with its rows' values. -/
theorem items_ok {kernel : PartitionKernel α} {inner : List (Except Error (RecordBatch α))}
    {runs : List (PartitionRun α)} (hK : kernel.Lawful) (hne : columns ≠ [])
    (h : inner.flatMap (PartitionRunStream.batchItems kernel columns) = runs.map .ok) :
    ∃ batches : List (RecordBatch α), inner = batches.map .ok ∧
      runs.flatMap (·.batch.rows) = batches.flatMap (·.rows) ∧
      ∀ run ∈ runs, run.Uniform columns ∧ ∃ batch ∈ batches, run.batch.schema = batch.schema := by
  induction inner generalizing runs with
  | nil =>
    obtain rfl : runs = [] := by simpa using h.symm
    exact ⟨[], by simp⟩
  | cons first inner ih =>
    rw [List.flatMap_cons] at h
    obtain ⟨now, later, rfl, hnow, hlater⟩ := List.append_eq_map_iff.mp h
    obtain ⟨batches, rfl, hrows, hruns⟩ := ih hlater.symm
    match first with
    | .error e =>
      simp only [PartitionRunStream.batchItems] at hnow
      cases now with
      | nil => simp at hnow
      | cons _ _ => simp at hnow
    | .ok batch =>
      simp only [PartitionRunStream.batchItems] at hnow
      split at hnow
      · cases now with
        | nil => simp at hnow
        | cons _ _ => simp at hnow
      · rename_i ranges hranges
        obtain ⟨hlen, hmax⟩ := partitionBatch_ok hK hne hranges
        obtain ⟨hslices, hemit⟩ := emitRanges_ok hnow.symm
        refine ⟨batch :: batches, rfl, ?_, ?_⟩
        · rw [List.flatMap_append, List.flatMap_cons, hrows, hslices, hmax.tiles.slices, List.drop_zero]
        · intro run hrun
          rcases List.mem_append.mp hrun with hrun | hrun
          · obtain ⟨range, hrange, hrun⟩ := hemit run hrun
            refine ⟨emitRange_uniform hlen hmax hrange hrun, batch, by simp, ?_⟩
            rw [(emitRange_ok hrun).1]
            rfl
          · obtain ⟨huniform, b, hb, hschema⟩ := hruns run hrun
            exact ⟨huniform, b, List.mem_cons_of_mem _ hb, hschema⟩

/-- The rows of the batches in front of the first error. -/
def receivedRows : List (Except Error (RecordBatch α)) → List (Row α)
  | .ok batch :: rest => batch.rows ++ receivedRows rest
  | .error _ :: _ => []
  | [] => []

theorem not_error_prefix {runs : List (PartitionRun α)} {items : List (Except Error (PartitionRun α))}
    (h : runs.map .ok <+: .error e :: items) : runs = [] := by
  cases runs with
  | nil => rfl
  | cons run runs => simp at h

theorem emitRanges_prefix {batch : RecordBatch α} {ranges : List Range}
    {runs : List (PartitionRun α)}
    (h : runs.map .ok <+: ranges.map (PartitionRunStream.emitRange columns batch)) :
    ∃ first, first <+: ranges ∧
      first.map (PartitionRunStream.emitRange columns batch) = runs.map .ok := by
  refine ⟨ranges.take runs.length, List.take_prefix .., ?_⟩
  have htake := List.prefix_iff_eq_take.mp h
  rw [List.length_map] at htake
  rw [List.map_take]
  exact htake.symm

theorem slices_prefix {rows : List β} {first ranges : List Range} (h : first <+: ranges)
    (htiles : Tiles 0 rows.length ranges) :
    first.flatMap (fun r => (rows.drop r.1).take (r.2 - r.1)) <+: rows := by
  obtain ⟨rest, rfl⟩ := h
  have hall := htiles.slices
  rw [List.flatMap_append, List.drop_zero] at hall
  exact ⟨_, hall⟩

/-- Whatever a stream yields before an error, the runs are the first rows it
received, in order, each with its rows' values. -/
theorem items_prefix {kernel : PartitionKernel α} {inner : List (Except Error (RecordBatch α))}
    {runs : List (PartitionRun α)} (hK : kernel.Lawful) (hne : columns ≠ [])
    (h : runs.map .ok <+: inner.flatMap (PartitionRunStream.batchItems kernel columns)) :
    runs.flatMap (·.batch.rows) <+: receivedRows inner ∧
      ∀ run ∈ runs, run.Uniform columns ∧ ∃ batch, .ok batch ∈ inner ∧
        run.batch.schema = batch.schema := by
  induction inner generalizing runs with
  | nil =>
    obtain rfl : runs = [] := by simpa using h
    simp
  | cons first inner ih =>
    rw [List.flatMap_cons] at h
    match first with
    | .error e =>
      obtain rfl := not_error_prefix h
      simp
    | .ok batch =>
      simp only [PartitionRunStream.batchItems] at h
      split at h
      · obtain rfl := not_error_prefix h
        simp
      · rename_i ranges hranges
        obtain ⟨hlen, hmax⟩ := partitionBatch_ok hK hne hranges
        have hrun : ∀ {first : List Range} {runs : List (PartitionRun α)}, first <+: ranges →
            first.map (PartitionRunStream.emitRange columns batch) = runs.map .ok →
            runs.flatMap (·.batch.rows) =
                first.flatMap (fun r => (batch.rows.drop r.1).take (r.2 - r.1)) ∧
              ∀ run ∈ runs, run.Uniform columns ∧
                ∃ b, .ok b ∈ .ok batch :: inner ∧ run.batch.schema = b.schema := by
          intro first runs hfirst hemits
          obtain ⟨hslices, hemit⟩ := emitRanges_ok hemits
          refine ⟨hslices, fun run hrun => ?_⟩
          obtain ⟨range, hrange, hrun⟩ := hemit run hrun
          refine ⟨emitRange_uniform hlen hmax (hfirst.subset hrange) hrun, batch, by simp, ?_⟩
          rw [(emitRange_ok hrun).1]
          rfl
        rcases List.prefix_or_prefix_of_prefix h (List.prefix_append ..) with hnow | hnow
        · obtain ⟨first, hfirst, hemits⟩ := emitRanges_prefix hnow
          obtain ⟨hrows, hruns⟩ := hrun hfirst hemits
          refine ⟨?_, hruns⟩
          rw [hrows]
          have hslices := slices_prefix hfirst hmax.tiles
          exact hslices.trans (List.prefix_append ..)
        · obtain ⟨later, hlater⟩ := hnow
          obtain ⟨now, later, rfl, hnow, rfl⟩ := List.append_eq_map_iff.mp hlater
          rw [List.map_append, hnow, List.prefix_append_right_inj] at h
          obtain ⟨hrows, hruns⟩ := hrun (List.prefix_refl _) hnow.symm
          obtain ⟨hlater, hlaters⟩ := ih h
          rw [hmax.tiles.slices, List.drop_zero] at hrows
          refine ⟨?_, fun run hr => ?_⟩
          · rw [List.flatMap_append, hrows]
            exact (List.prefix_append_right_inj _).mpr hlater
          · rcases List.mem_append.mp hr with hr | hr
            · exact hruns run hr
            · obtain ⟨huniform, b, hb, hschema⟩ := hlaters run hr
              exact ⟨huniform, b, List.mem_cons_of_mem _ hb, hschema⟩

end SilkChiffon.FileOutput
