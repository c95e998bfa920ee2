import SilkChiffon.FileOutput.Delivery
import SilkChiffon.FileOutput.Strategies

/-!
# What a partitioned write guarantees

A write that succeeds places every row once. A write that fails settles every
sink once. The evicting strategy keeps its bound at every moment, and its files
of one key together hold what the single file of that key would.
-/

namespace SilkChiffon.FileOutput

open Arrow FileOutput.History Effects

variable {w : PartitionedOutputWriter α J} {policy : Policy α J} {h : History α J}

-- ---------------------------------------------------------------------------
-- Every sink ends once
-- ---------------------------------------------------------------------------

theorem openedSinks_aborts {aborts : History α J} (ha : ∀ x ∈ aborts, x.isAbort) :
    openedSinks (h ++ aborts) = openedSinks h := by
  have : openedSinks aborts = [] := by
    rw [openedSinks, List.filterMap_eq_nil_iff]
    intro x hx
    have := ha x hx
    cases x <;> simp_all [Event.isAbort, Event.openedSink]
  rw [openedSinks, List.filterMap_append, ← openedSinks, ← openedSinks, this, List.append_nil]

theorem consumed_aborts_perm {before aborts : History α J} (hl : Legal policy (before ++ aborts))
    (ha : ∀ x ∈ aborts, x.isAbort) (hnone : live (before ++ aborts) = []) :
    (consumed aborts).Perm ((live before).map (·.sink)) := by
  have hsplit : consumed (before ++ aborts) = consumed before ++ consumed aborts :=
    List.filterMap_append
  have hnodup := hl.consumed.1
  rw [hsplit, List.nodup_append] at hnodup
  have hbefore : Legal policy before := hl.of_prefix (List.prefix_append ..)
  have hids : ((openedSinks before).map (·.sink)).Nodup := hbefore.ids ▸ List.nodup_range
  have hlive : ((live before).map (·.sink)).Nodup := hids.sublist (List.filter_sublist.map _)
  rw [List.perm_ext_iff_of_nodup hnodup.2.1 hlive]
  intro sink
  have hall := (hl.consumed_perm hnone).mem_iff (a := sink)
  rw [hsplit, openedSinks_aborts ha, List.mem_append] at hall
  simp only [List.mem_map, live, List.mem_filter, decide_eq_true_eq] at hall ⊢
  constructor
  · intro hsink
    obtain ⟨s, hs, rfl⟩ := hall.mp (.inr hsink)
    exact ⟨s, ⟨hs, fun hb => hnodup.2.2 _ hb _ hsink rfl⟩, rfl⟩
  · rintro ⟨s, ⟨hs, hnot⟩, rfl⟩
    exact (hall.mpr ⟨s, hs, rfl⟩).resolve_left hnot

/-- When a write fails, each opened sink was consumed by exactly one `finish`
or `abort`. After the failing step there are only aborts, of all the sinks that
were still open, and the report is of the sinks that finished. -/
theorem failed_write_settles [DecidableEq α] (w : PartitionedOutputWriter α J) (strategy : Strategy)
    (stream : SendableRecordBatchStream α) :
    Ensures (w.write strategy stream) [] (fun _ _ => True) (fun halt h =>
      ∃ failure, halt = .failure failure ∧
        (consumed h).Nodup ∧ (consumed h).Perm ((openedSinks h).map (·.sink)) ∧
        (∃ before e aborts, h = before ++ e :: aborts ∧ (∀ x ∈ before, x.isProgress) ∧
          e.isFailure ∧ (∀ x ∈ aborts, x.isAbort) ∧
          (consumed aborts).Perm ((live (before ++ [e])).map (·.sink))) ∧
        failure.report.outputs.Perm ((outputs h).map sortLocations)) := by
  refine (ensures_write w strategy stream).mono (fun _ _ _ => trivial) fun halt h hfailed => ?_
  cases halt with
  | panic message => exact hfailed.elim
  | failure failure =>
    obtain ⟨hl, hnone, hreport, before, e, aborts, rfl, hbefore, he, ha⟩ := hfailed
    refine ⟨failure, rfl, hl.consumed.1, hl.consumed_perm hnone, ?_, ?_⟩
    · rw [List.append_cons] at hl hnone
      exact ⟨before, e, aborts, rfl, hbefore, he, ha, consumed_aborts_perm hl ha hnone⟩
    · rw [hreport]
      exact FileOutputReport.new_perm _

-- ---------------------------------------------------------------------------
-- Every row is placed once
-- ---------------------------------------------------------------------------

theorem Legal.finished_reports (hl : Legal policy h) (hf : .finished sink output ∈ h) :
    ∃ s ∈ openedSinks h, s.sink = sink ∧ output.partitionFields = policy.reports s := by
  induction hl with
  | nil => cases hf
  | @snoc h e hl he ih =>
    rw [openedSinks_snoc]
    rcases List.mem_append.mp hf with hf | hf
    · obtain ⟨s, hs, hrest⟩ := ih hf
      exact ⟨s, List.mem_append_left _ hs, hrest⟩
    · obtain rfl := List.mem_singleton.mp hf
      obtain ⟨s, hs, hrest⟩ := he
      exact ⟨s, List.mem_append_left _ (live_subset hs), hrest⟩

/-- In a write without failures nothing is open at the end because every sink
was finished. -/
theorem Succeeded.finished {report : FileOutputReport J} (hs : Succeeded policy runs report h) (hmem : s ∈ openedSinks h) :
    ∃ output, .finished s.sink output ∈ h ∧ output.partitionFields = policy.reports s := by
  have hconsumed : s.sink ∈ consumed h :=
    (hs.legal.consumed_perm hs.closed).mem_iff.mpr (List.mem_map_of_mem hmem)
  obtain ⟨e, he, hsink⟩ := List.mem_filterMap.mp hconsumed
  have hprogress := hs.progress e he
  cases e with
  | finished sink output =>
    obtain rfl : sink = s.sink := by simpa [Event.consumedSink] using hsink
    obtain ⟨t, ht, heq, hfields⟩ := hs.legal.finished_reports he
    obtain rfl := hs.legal.sink_inj ht hmem heq
    exact ⟨output, he, hfields⟩
  | opened | wrote => simp [Event.consumedSink] at hsink
  | failed | aborted => simp [Event.isProgress] at hprogress

def PartitionedOutputWriter.projectRow (w : PartitionedOutputWriter α J) (schema : Schema)
    (row : Row α) : Row α :=
  match projectionIndicesExcluding schema w.excludeColumns with
  | some indices => row.project indices
  | none => row

def PartitionedOutputWriter.rowKey (w : PartitionedOutputWriter α J) (schema : Schema)
    (row : Row α) : String :=
  partitionKey w.rendering.format (rowValues schema row w.partitionFields []) w.partitionFields

theorem keying_rows (w : PartitionedOutputWriter α J) (schema : Schema) (run : PartitionRun α) :
    (w.keying schema).rows run = run.batch.rows.map (w.projectRow schema) := by
  show projectedRows _ _ = _
  unfold projectedRows PartitionedOutputWriter.projectRow
  cases projectionIndicesExcluding schema w.excludeColumns with
  | none => exact (List.map_id _).symm
  | some indices => rfl

structure Placement (w : PartitionedOutputWriter α J) (schema : Schema) (h : History α J)
    (rows : List (Row α)) (placed : List (Row α × SinkId)) : Prop where
  rows : placed.map (·.1) = rows
  contents : ∀ sink, contents h sink =
    (placed.filter (·.2 == sink)).map fun p => w.projectRow schema p.1
  single_key : ∀ p ∈ placed, ∀ q ∈ placed, p.2 = q.2 → w.rowKey schema p.1 = w.rowKey schema q.1
  completed : ∀ p ∈ placed, ∃ s ∈ openedSinks h, s.sink = p.2 ∧ w.key s = w.rowKey schema p.1 ∧
    ∃ output, .finished s.sink output ∈ h ∧ output.partitionFields = w.reports s

theorem Succeeded.placement {strategy : Strategy} {rows : List (Row α)}
    {runs : List (PartitionRun α)} {report : FileOutputReport J}
    (hs : Succeeded (w.policy schema strategy) runs report h)
    (hrows : runs.flatMap (·.batch.rows) = rows)
    (hruns : ∀ run ∈ runs, run.Uniform w.partitionFields ∧ run.batch.schema = schema) :
    Placement w schema h rows ((History.written h).flatMap fun p => p.1.batch.rows.map (·, p.2)) := by
  have hd := hs.legal.delivered (w.policy_exclusive schema strategy)
  rw [w.policy_keying schema strategy] at hd
  have hkey : ∀ p ∈ (History.written h).flatMap (fun p => p.1.batch.rows.map (·, p.2)),
      ∃ s ∈ openedSinks h, s.sink = p.2 ∧ w.key s = w.rowKey schema p.1 := by
    intro p hp
    obtain ⟨⟨run, sink⟩, hrun, hp⟩ := List.mem_flatMap.mp hp
    obtain ⟨row, hrow, rfl⟩ := List.mem_map.mp hp
    obtain ⟨s, hmem, hsink, hsame⟩ := hd.keyed _ hrun
    obtain ⟨huniform, hschema⟩ := hruns run (hs.written ▸ List.mem_map_of_mem hrun)
    refine ⟨s, hmem, hsink, hsame.trans ?_⟩
    rw [PartitionedOutputWriter.rowKey, ← hschema, ← huniform row hrow]
    rfl
  refine ⟨?_, fun sink => ?_, ?_, ?_⟩
  · rw [← hrows, ← hs.written, List.map_flatMap, List.flatMap_map]
    simp [Function.comp_def]
  · rw [hd.contents sink, List.filter_flatMap, List.map_flatMap]
    simp only [keying_rows]
    induction History.written h with
    | nil => rfl
    | cons p rest ih =>
      rw [List.flatMap_cons, ← ih]
      by_cases hp : p.2 = sink <;> simp [hp, List.filter_map, Function.comp_def]
  · intro p hp q hq heq
    obtain ⟨s, hmem, hsink, hkeyp⟩ := hkey p hp
    obtain ⟨t, hmemt, hsinkt, hkeyq⟩ := hkey q hq
    obtain rfl := hs.legal.sink_inj hmem hmemt (by rw [hsink, heq, hsinkt])
    exact hkeyp.symm.trans hkeyq
  · intro p hp
    obtain ⟨s, hmem, hsink, hkeyp⟩ := hkey p hp
    obtain ⟨output, hf, hfields⟩ := hs.finished hmem
    rw [w.policy_reports schema strategy] at hfields
    exact ⟨s, hmem, hsink, hkeyp, output, hf, hfields⟩

/-- The stream was all batches, and every row is in exactly one completed sink:
of its key, once, and in input order. -/
def PlacedOnce (w : PartitionedOutputWriter α J) (stream : SendableRecordBatchStream α)
    (report : FileOutputReport J) (h : History α J) : Prop :=
  ∃ batches : List (RecordBatch α), stream.batches = batches.map .ok ∧
    (∃ placed, Placement w stream.schema h (batches.flatMap (·.rows)) placed) ∧
    (consumed h).Nodup ∧ report.outputs.Perm ((outputs h).map sortLocations)

theorem every_row_placed [DecidableEq α] (w : PartitionedOutputWriter α J) (strategy : Strategy)
    (stream : SendableRecordBatchStream α) (hK : w.rendering.kernel.Lawful)
    (hfields : w.partitionFields ≠ [])
    (hschema : ∀ batch, .ok batch ∈ stream.batches → batch.schema = stream.schema) :
    Ensures (w.write strategy stream) [] (PlacedOnce w stream) (fun _ _ => True) := by
  refine (ensures_write w strategy stream).mono (fun report h hs => ?_) fun _ _ _ => trivial
  obtain ⟨runs, hruns, hs⟩ := hs
  rw [runs_eq_batchItems] at hruns
  obtain ⟨batches, hbatches, hrows, huniform⟩ := items_ok hK hfields hruns
  refine ⟨batches, hbatches, ⟨_, hs.placement hrows fun run hrun => ?_⟩, hs.legal.consumed.1, ?_⟩
  · obtain ⟨hrun, batch, hbatch, heq⟩ := huniform run hrun
    exact ⟨hrun, heq.trans (hschema batch (by simp [hbatches, hbatch]))⟩
  · rw [hs.report]
    exact FileOutputReport.new_perm _

def regionSchema : Schema := [.mk "region" .int64 true, .mk "id" .int64 true]

def regionStream : SendableRecordBatchStream Nat :=
  ⟨regionSchema, [.ok ⟨regionSchema, [[some 1, some 10], [none, some 20]], by decide⟩,
    .ok ⟨regionSchema, [[none, some 30], [some 1, some 40]], by decide⟩]⟩

/-- Partitioned by `region`, which the files leave out, over a storage where
everything succeeds. -/
def regionWriter : PartitionedOutputWriter Nat String where
  rendering := ⟨⟨id, fun _ => ""⟩, fun n => some (toString n), fun _ => "", runsKernel⟩
  env := {
    render _ _ := .ok "part"
    prepareOutputTarget _ location := .ok location
    openSink _ _ _ := .ok ()
    writeBatch _ _ _ := .ok ()
    finish _ _ := .ok ⟨"part", [], 0⟩
    abort _ _ := .ok ()
    intoValues sinks := ⟨sinks, List.Perm.refl _⟩ }
  partitionFields := ["region"]
  excludeColumns := ["region"]

theorem every_row_placed_regions :
    ∃ report h, regionWriter.write .sortSingle regionStream [] = .ok report h ∧
      PlacedOnce regionWriter regionStream report h :=
  ⟨_, _, rfl, (every_row_placed regionWriter .sortSingle regionStream runsKernel_lawful (by decide)
    (by simp [regionStream])).ok rfl⟩

-- ---------------------------------------------------------------------------
-- The sink cache
-- ---------------------------------------------------------------------------

def Event.fileNumber (key : OpenFileSink α → String) (k : String) : Event α J → Option (Option Nat)
  | opened s n => if key s = k then some n else none
  | _ => none

def fileNumbers (key : OpenFileSink α → String) (h : History α J) (k : String) :
    List (Option Nat) := h.filterMap (Event.fileNumber key k)

theorem fileNumbers_snoc (key : OpenFileSink α → String) (h : History α J) (e : Event α J) :
    fileNumbers key (h ++ [e]) k = fileNumbers key h k ++ (e.fileNumber key k).toList := by
  cases hn : e.fileNumber key k <;> simp [fileNumbers, hn]

theorem live_length_snoc {e : Event α J} (ho : e.openedSink = none) :
    (live (h ++ [e])).length ≤ (live h).length := by
  cases hc : e.consumedSink with
  | none => rw [live_other ho hc]
  | some sink =>
    rw [live_consumed ho hc]
    exact List.length_filter_le ..

theorem live_length_le {maxOpen : { n : Nat // 0 < n }}
    (hl : Legal (w.policy schema (.nosortEvict maxOpen)) h) : (live h).length ≤ maxOpen.1 := by
  induction hl with
  | nil => simp [live, openedSinks]
  | @snoc h e hl he ih =>
    cases e with
    | opened s n =>
      rw [live_opened hl he.1, List.length_append]
      exact he.2.1
    | wrote | finished | failed | aborted => exact (live_length_snoc rfl).trans ih

theorem fileNumbers_eq {maxOpen : { n : Nat // 0 < n }}
    (hl : Legal (w.policy schema (.nosortEvict maxOpen)) h) (k : String) :
    fileNumbers w.key h k = (List.range (ofKey w.key h k).length).map some := by
  induction hl with
  | nil => rfl
  | @snoc h e hl he ih =>
    rw [fileNumbers_snoc, ih]
    cases e with
    | opened s n =>
      obtain ⟨_, _, _, rfl⟩ := he
      rw [ofKey_opened]
      by_cases hk : w.key s = k
      · subst hk
        simp [Event.fileNumber, List.range_succ]
      · simp [Event.fileNumber, hk]
    | wrote | finished | failed | aborted =>
      rw [ofKey_other rfl]
      simp [Event.fileNumber]

theorem ofKey_length_le_one (hl : Legal (w.policy schema .nosortMulti) h) (k : String) :
    (ofKey w.key h k).length ≤ 1 := by
  induction hl with
  | nil => simp [ofKey, openedSinks]
  | @snoc h e hl he ih =>
    cases e with
    | opened s n =>
      rw [ofKey_opened]
      by_cases hk : w.key s = k
      · subst hk
        simp [he.2.1]
      · simpa [hk] using ih
    | wrote | finished | failed | aborted => rwa [ofKey_other rfl]

/-- At every moment: at most `maxOpen` sinks are open and no two of one key,
the files of a key are numbered 0, 1, 2 and so on, and a run is written to an
open sink of its key. -/
def CacheInvariant (w : PartitionedOutputWriter α J) (maxOpen : Nat) (h : History α J) : Prop :=
  ∀ p, p <+: h → (live p).length ≤ maxOpen ∧ ((live p).map w.key).Nodup ∧
    (∀ k, fileNumbers w.key p k = (List.range (ofKey w.key p k).length).map some) ∧
    ∀ sink run batch, p ++ [.wrote sink run batch] <+: h → ∃ s ∈ live p, s.sink = sink ∧
      w.key s = partitionKey w.rendering.format run.values w.partitionFields

theorem cacheInvariant_of_legal {maxOpen : { n : Nat // 0 < n }}
    (hl : Legal (w.policy schema (.nosortEvict maxOpen)) h) : CacheInvariant w maxOpen.1 h := by
  intro p hp
  have hlp := hl.of_prefix hp
  refine ⟨live_length_le hlp, hlp.live_keys_nodup (w.policy_exclusive _ _), fileNumbers_eq hlp, ?_⟩
  intro sink run batch hwrote
  obtain ⟨s, hs, hsink, hkey, _⟩ := (hl.of_prefix hwrote).enabled
  exact ⟨s, hs, hsink, hkey⟩

/-- The evicting strategy keeps its invariant in every run, and when it
succeeds, the files of each key hold in the order of their numbers what a
successful `nosort-multi` write of the same stream puts into the key's single
file, whatever the storage answers there. -/
theorem nosort_evict_cache [DecidableEq α] (w : PartitionedOutputWriter α J)
    (maxOpen : { n : Nat // 0 < n }) (stream : SendableRecordBatchStream α) :
    Ensures (w.writeNosortEvict stream maxOpen) []
      (fun _ h => CacheInvariant w maxOpen.1 h ∧ ∀ env : Environment α J,
        Ensures ({ w with env }.writeNosortMulti stream) []
          (fun _ h' => ∀ k, (ofKey w.key h' k).length ≤ 1 ∧
            (ofKey w.key h k).flatMap (contents h ·.sink) =
              (ofKey w.key h' k).flatMap (contents h' ·.sink))
          (fun _ _ => True))
      (fun _ h => CacheInvariant w maxOpen.1 h) := by
  refine (ensures_write w (.nosortEvict maxOpen) stream).mono (fun _ h hs => ?_) fun halt h hf => ?_
  · obtain ⟨runs, hruns, hs⟩ := hs
    refine ⟨cacheInvariant_of_legal hs.legal, fun env => ?_⟩
    refine (ensures_write { w with env } .nosortMulti stream).mono (fun _ h' hs' k => ?_)
      fun _ _ _ => trivial
    obtain ⟨runs', hruns', hs'⟩ := hs'
    obtain rfl : runs = runs' := by
      have heq : runs.map Except.ok = runs'.map Except.ok := hruns.symm.trans hruns'
      exact List.map_injective_iff.mpr (fun _ _ => Except.ok.inj) heq
    have hevict := (hs.legal.delivered (w.policy_exclusive _ _)).byKey k
    have hmulti := (hs'.legal.delivered (PartitionedOutputWriter.policy_exclusive _ _ _)).byKey k
    rw [hs.written] at hevict
    rw [hs'.written] at hmulti
    exact ⟨ofKey_length_le_one hs'.legal k, hevict.trans hmulti.symm⟩
  · cases halt with
    | panic message => exact hf.elim
    | failure failure => exact cacheInvariant_of_legal hf.legal

end SilkChiffon.FileOutput
