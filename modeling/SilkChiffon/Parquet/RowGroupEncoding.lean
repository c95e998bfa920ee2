import Mathlib.Algebra.GroupWithZero.Nat
import SilkChiffon.Lib.Lists
import SilkChiffon.Parquet.Ingestion

/-!
# Encoding one row group

`encode_row_group` runs one task per column and joins them in the order they
end. `Encoder.encodeRowGroup` is the same work column after column, and
`EncodeTask.Sound` relates the two: whatever the order, the chunks come out in
leaf order.
-/

namespace SilkChiffon.Pipeline

open Ingestion

inductive Failure
  | error | panicked
  deriving DecidableEq

/-- Whose step it is: a `fault` is something that fails though nothing in the
program makes it fail. -/
inductive Turn
  | source | program | fault | outside
  deriving DecidableEq

structure Encoder (α P : Type) where
  ColumnWriter : Type
  Leaf : Type
  Chunk : Type
  getColumnWriters : RowGroupWork α P → Except Failure (List ColumnWriter)
  /-- The leaves of each field, in schema order. -/
  computeLeaves : RowGroupWork α P → Except Failure (List (List Leaf))
  write : ColumnWriter → Leaf → Except Failure ColumnWriter
  close : ColumnWriter → Except Failure Chunk

structure EncodedRowGroup (Chunk : Type) where
  chunks : List Chunk
  numRows : Nat
  deriving DecidableEq

variable {α P : Type} {E : Encoder α P}

namespace Encoder

abbrev Column (E : Encoder α P) : Type := E.ColumnWriter × List E.Leaf

/-- `leaves_per_column`: indexing panics on a leaf that has no column. -/
def leavesPerColumn (E : Encoder α P) (numColumns : Nat) (leaves : List E.Leaf) :
    Except Failure (List (List E.Leaf)) :=
  if numColumns < leaves.length then .error .panicked
  else .ok ((List.range numColumns).map fun col => leaves[col]?.toList)

def columns (E : Encoder α P) (work : RowGroupWork α P) : Except Failure (List E.Column) := do
  let columnWriters ← E.getColumnWriters work
  let leaves ← E.computeLeaves work
  let leavesPerColumn ← E.leavesPerColumn columnWriters.length leaves.flatten
  pure (columnWriters.zip leavesPerColumn)

def encodeColumn (E : Encoder α P) (column : E.Column) : Except Failure E.Chunk := do
  let writer ← column.2.foldlM E.write column.1
  E.close writer

def encodeRowGroup (E : Encoder α P) (work : RowGroupWork α P) :
    Except Failure (EncodedRowGroup E.Chunk) := do
  let columns ← E.columns work
  let chunks ← columns.mapM E.encodeColumn
  pure ⟨chunks, work.batch.length⟩

end Encoder

-- ---------------------------------------------------------------------------
-- The encoding task
-- ---------------------------------------------------------------------------

/-- A task of `encode_row_group`. While encoding, its column tasks are
running, finished, or joined into `indexed_chunks`. -/
inductive EncodeTask (E : Encoder α P)
  | spawned (work : RowGroupWork α P)
  | encoding (work : RowGroupWork α P) (running : List (Nat × E.Column))
      (finished : List (Nat × Except Failure E.Chunk)) (indexedChunks : List (Nat × E.Chunk))
  | ended (work : RowGroupWork α P) (result : Except Failure (EncodedRowGroup E.Chunk))

def EncodeTask.work : EncodeTask E → RowGroupWork α P
  | spawned work => work
  | encoding work _ _ _ => work
  | ended work _ => work

/-- `indexed_chunks.sort_by_key(|(idx, _)| *idx)`, without the indices. -/
def sortedChunks (indexedChunks : List (Nat × β)) : List β :=
  (indexedChunks.mergeSort fun a b => a.1 ≤ b.1).map Prod.snd

inductive EncodeStep : Turn → EncodeTask E → Bool → EncodeTask E → Prop
  | start (h : E.columns work = .ok columns) :
      EncodeStep .program (.spawned work) false
        (.encoding work (columns.zipIdx.map fun p => (p.2, p.1)) [] [])
  | startFailed (h : E.columns work = .error cause) :
      EncodeStep .program (.spawned work) true (.ended work (.error cause))
  | startBroken (cause : Failure) :
      EncodeStep .fault (.spawned work) true (.ended work (.error cause))
  | column (h : running[i]? = some (idx, column)) (hc : E.encodeColumn column = .ok chunk) :
      EncodeStep .program (.encoding work running finished indexedChunks) false
        (.encoding work (running.eraseIdx i) (finished ++ [(idx, .ok chunk)]) indexedChunks)
  | columnFailed (h : running[i]? = some (idx, column)) (hc : E.encodeColumn column = .error cause) :
      EncodeStep .program (.encoding work running finished indexedChunks) true
        (.encoding work (running.eraseIdx i) (finished ++ [(idx, .error cause)]) indexedChunks)
  | columnBroken (h : running[i]? = some (idx, column)) (cause : Failure) :
      EncodeStep .fault (.encoding work running finished indexedChunks) true
        (.encoding work (running.eraseIdx i) (finished ++ [(idx, .error cause)]) indexedChunks)
  | join (h : finished[i]? = some (idx, .ok chunk)) :
      EncodeStep .program (.encoding work running finished indexedChunks) false
        (.encoding work running (finished.eraseIdx i) (indexedChunks ++ [(idx, chunk)]))
  | joinFailed {i : Nat} {finished : List (Nat × Except Failure E.Chunk)}
      (h : finished[i]? = some (idx, .error cause)) :
      EncodeStep .program (.encoding work running finished indexedChunks) true
        (.ended work (.error .error))
  | finish :
      EncodeStep .program (.encoding work [] [] indexedChunks) false
        (.ended work (.ok ⟨sortedChunks indexedChunks, work.batch.length⟩))

theorem encodeStep_work {t t' : EncodeTask E} (h : EncodeStep turn t failed t') : t'.work = t.work := by
  cases h <;> rfl

def EncodeTask.Doomed : EncodeTask E → Prop
  | spawned _ => False
  | encoding _ _ finished _ => ∃ idx cause, (idx, .error cause) ∈ finished
  | ended _ (.ok _) => False
  | ended _ (.error _) => True

/-- A failure of a column stays with its task until it is reported. -/
theorem encodeStep_doomed {t t' : EncodeTask E} (h : EncodeStep turn t failed t')
    (hd : failed = true ∨ t.Doomed) : t'.Doomed := by
  cases h with
  | start => exact hd.elim nofun False.elim
  | startFailed | startBroken | joinFailed => trivial
  | column =>
    obtain ⟨idx, cause, hmem⟩ := hd.resolve_left nofun
    exact ⟨idx, cause, List.mem_append_left _ hmem⟩
  | columnFailed | columnBroken => exact ⟨_, _, List.mem_append_right _ (.head _)⟩
  | join hi =>
    obtain ⟨idx, cause, hmem⟩ := hd.resolve_left nofun
    obtain ⟨before, after, hsplit, -, -, herase⟩ := Lists.split_at hi
    rw [hsplit] at hmem
    refine ⟨idx, cause, ?_⟩
    simpa [herase] using hmem
  | finish =>
    obtain ⟨idx, cause, hmem⟩ := hd.resolve_left nofun
    cases hmem

-- ---------------------------------------------------------------------------
-- Leaf order
-- ---------------------------------------------------------------------------

def ChunkOf (columns : List E.Column) (idx : Nat) (chunk : E.Chunk) : Prop :=
  ∃ column, columns[idx]? = some column ∧ E.encodeColumn column = .ok chunk

/-- Every column is accounted for once, and every chunk is that of its column. -/
structure Tracked (columns : List E.Column) (running : List (Nat × E.Column))
    (finished : List (Nat × Except Failure E.Chunk)) (indexedChunks : List (Nat × E.Chunk)) :
    Prop where
  indices : (running.map Prod.fst ++ (finished.map Prod.fst ++ indexedChunks.map Prod.fst)).Perm
    (List.range columns.length)
  started : ∀ idx column, (idx, column) ∈ running → columns[idx]? = some column
  ended : ∀ idx chunk, (idx, .ok chunk) ∈ finished → ChunkOf columns idx chunk
  encoded : ∀ idx chunk, (idx, chunk) ∈ indexedChunks → ChunkOf columns idx chunk

def EncodeTask.Sound : EncodeTask E → Prop
  | spawned _ => True
  | encoding work running finished indexedChunks =>
    ∃ columns, E.columns work = .ok columns ∧ Tracked columns running finished indexedChunks
  | ended work (.ok encoded) => E.encodeRowGroup work = .ok encoded
  | ended _ (.error _) => True

/-- Sorting by index puts a permutation of the columns back in order. -/
theorem sorted_indices {indexedChunks : List (Nat × β)}
    (h : (indexedChunks.map Prod.fst).Perm (List.range n)) :
    (indexedChunks.mergeSort fun a b => a.1 ≤ b.1).map Prod.fst = List.range n := by
  have hperm := (List.mergeSort_perm indexedChunks fun a b => a.1 ≤ b.1).map Prod.fst
  have hsorted : (indexedChunks.mergeSort fun a b => a.1 ≤ b.1).Pairwise fun a b => decide (a.1 ≤ b.1) :=
    List.pairwise_mergeSort (by simp only [decide_eq_true_eq]; omega)
      (by simp only [Bool.or_eq_true, decide_eq_true_eq]; omega) indexedChunks
  refine List.Perm.eq_of_pairwise (fun a b _ _ (hab : a ≤ b) => Nat.le_antisymm hab) ?_
    List.pairwise_le_range (hperm.trans h)
  simpa [List.pairwise_map] using hsorted

theorem mapM_ok_of_indices {columns : List E.Column} {chunks : List (Nat × E.Chunk)}
    (hindices : chunks.map Prod.fst = List.range columns.length)
    (hchunks : ∀ idx chunk, (idx, chunk) ∈ chunks → ChunkOf columns idx chunk) :
    columns.mapM E.encodeColumn = .ok (chunks.map Prod.snd) := by
  have hlength : columns.length = chunks.length := by
    simpa using (congrArg List.length hindices).symm
  refine Lists.mapM_eq_ok_iff_forall₂.mpr (List.forall₂_map_right_iff.mpr ?_)
  refine List.forall₂_iff_get.mpr ⟨hlength, fun idx hcolumn hchunk => ?_⟩
  have hidx : (chunks.get ⟨idx, hchunk⟩).1 = idx := by
    have hget := congrArg (·[idx]?) hindices
    rw [List.getElem?_map, List.getElem?_eq_getElem hchunk, List.getElem?_range hcolumn] at hget
    exact Option.some.inj hget
  obtain ⟨column, hget, hencode⟩ := hchunks _ _ (List.get_mem chunks ⟨idx, hchunk⟩)
  rw [hidx, List.getElem?_eq_getElem hcolumn] at hget
  cases hget
  exact hencode

theorem sortedChunks_ok {columns : List E.Column} {indexedChunks : List (Nat × E.Chunk)}
    (hperm : (indexedChunks.map Prod.fst).Perm (List.range columns.length))
    (hchunks : ∀ idx chunk, (idx, chunk) ∈ indexedChunks → ChunkOf columns idx chunk) :
    columns.mapM E.encodeColumn = .ok (sortedChunks indexedChunks) :=
  mapM_ok_of_indices (sorted_indices hperm) fun idx chunk hmem =>
    hchunks idx chunk ((List.mergeSort_perm ..).subset hmem)

theorem Tracked.start (columns : List E.Column) :
    Tracked columns (columns.zipIdx.map fun p => (p.2, p.1)) [] [] where
  indices := by simp [Function.comp_def, List.range_eq_range']
  started idx column hmem := by
    obtain ⟨p, hp, heq⟩ := List.mem_map.mp hmem
    cases heq
    exact List.mem_zipIdx_iff_getElem?.mp hp
  ended := nofun
  encoded := nofun

theorem Tracked.columnEnded {columns : List E.Column} {result : Except Failure E.Chunk}
    (h : Tracked columns running finished indexedChunks) (hi : running[i]? = some (idx, column))
    (hresult : ∀ chunk, result = .ok chunk → E.encodeColumn column = .ok chunk) :
    Tracked columns (running.eraseIdx i) (finished ++ [(idx, result)]) indexedChunks := by
  obtain ⟨before, after, rfl, -, -, herase⟩ := Lists.split_at hi
  rw [herase]
  refine ⟨.trans ?_ h.indices, ?_, ?_, h.encoded⟩
  · refine List.perm_iff_count.mpr fun a => ?_
    simp only [List.map_append, List.map_cons, List.map_nil, List.count_append, List.count_cons,
      List.count_nil]
    omega
  · intro idx' column' hmem
    refine h.started idx' column' ?_
    simp only [List.mem_append, List.mem_cons] at hmem ⊢
    exact hmem.imp_right .inr
  · intro idx' chunk hmem
    rcases List.mem_append.mp hmem with hmem | hmem
    · exact h.ended idx' chunk hmem
    · cases List.mem_singleton.mp hmem
      exact ⟨column, h.started _ _ (by simp), hresult chunk rfl⟩

theorem Tracked.joined {columns : List E.Column}
    (h : Tracked columns running finished indexedChunks)
    (hi : finished[i]? = some (idx, .ok chunk)) :
    Tracked columns running (finished.eraseIdx i) (indexedChunks ++ [(idx, chunk)]) := by
  obtain ⟨before, after, rfl, -, -, herase⟩ := Lists.split_at hi
  rw [herase]
  refine ⟨.trans ?_ h.indices, h.started, ?_, ?_⟩
  · refine List.perm_iff_count.mpr fun a => ?_
    simp only [List.map_append, List.map_cons, List.map_nil, List.count_append, List.count_cons,
      List.count_nil]
    omega
  · intro idx' chunk' hmem
    refine h.ended idx' chunk' ?_
    simp only [List.mem_append, List.mem_cons] at hmem ⊢
    exact hmem.imp_right .inr
  · intro idx' chunk' hmem
    rcases List.mem_append.mp hmem with hmem | hmem
    · exact h.encoded idx' chunk' hmem
    · cases List.mem_singleton.mp hmem
      exact h.ended _ _ (by simp)

theorem encodeStep_sound {t t' : EncodeTask E} (h : EncodeStep turn t failed t') (hs : t.Sound) :
    t'.Sound := by
  cases h with
  | start hcolumns => exact ⟨_, hcolumns, .start _⟩
  | startFailed | startBroken | joinFailed => trivial
  | column hi hc =>
    obtain ⟨columns, hcolumns, htracked⟩ := hs
    refine ⟨columns, hcolumns, htracked.columnEnded hi ?_⟩
    rintro _ ⟨rfl⟩
    exact hc
  | columnFailed hi | columnBroken hi =>
    obtain ⟨columns, hcolumns, htracked⟩ := hs
    exact ⟨columns, hcolumns, htracked.columnEnded hi nofun⟩
  | join hi =>
    obtain ⟨columns, hcolumns, htracked⟩ := hs
    exact ⟨columns, hcolumns, htracked.joined hi⟩
  | finish =>
    obtain ⟨columns, hcolumns, htracked⟩ := hs
    have hmapM := sortedChunks_ok (by simpa using htracked.indices) htracked.encoded
    simp only [EncodeTask.Sound, Encoder.encodeRowGroup, Lists.bind_eq_ok]
    exact ⟨columns, hcolumns, _, hmapM, rfl⟩

end SilkChiffon.Pipeline
