import SilkChiffon.FileOutput.Guarantees

/-!
# The files of a sort-single write

This strategy knows one open sink and compares each run with it. Its files are
therefore the blocks of neighbouring runs with the same partition values, in
the order of the stream, and a key has several of them when its runs are not
together.
-/

namespace SilkChiffon.FileOutput

open Arrow FileOutput.History Effects

/-- One file: the partition values it was opened with, and its rows. -/
abbrev Block (α : Type) := PartitionValues α × List (Row α)

def addRun [DecidableEq α] (rows : PartitionRun α → List (Row α)) (blocks : List (Block α))
    (run : PartitionRun α) : List (Block α) :=
  match blocks.getLast? with
  | some (values, held) =>
    if partitionValuesEqual values run.values then blocks.dropLast ++ [(values, held ++ rows run)]
    else blocks ++ [(run.values, rows run)]
  | none => [(run.values, rows run)]

def blocks [DecidableEq α] (rows : PartitionRun α → List (Row α)) (runs : List (PartitionRun α)) :
    List (Block α) :=
  runs.foldl (addRun rows) []

theorem blocks_snoc [DecidableEq α] (rows : PartitionRun α → List (Row α)) (runs : List (PartitionRun α))
    (run : PartitionRun α) : blocks rows (runs ++ [run]) = addRun rows (blocks rows runs) run := by
  simp [blocks, List.foldl_append]

theorem addRun_join [DecidableEq α] {rows : PartitionRun α → List (Row α)}
    (h : partitionValuesEqual values run.values = true) :
    addRun rows (before ++ [(values, held)]) run = before ++ [(values, held ++ rows run)] := by
  simp [addRun, h]

theorem addRun_new [DecidableEq α] {rows : PartitionRun α → List (Row α)} {blocks : List (Block α)}
    (h : ∀ block ∈ blocks.getLast?, partitionValuesEqual block.1 run.values = false) :
    addRun rows blocks run = blocks ++ [(run.values, rows run)] := by
  unfold addRun
  split
  next values held hlast => simp [h _ hlast]
  next hnone => simp [List.getLast?_eq_none_iff.mp hnone]

-- ---------------------------------------------------------------------------
-- The files of a history
-- ---------------------------------------------------------------------------

def files (h : History α J) : List (Block α) :=
  (openedSinks h).map fun s => (s.partitionValues, contents h s.sink)

variable {policy : Policy α J} {h : History α J}

theorem files_opened (hl : Legal policy h) (hx : policy.Exclusive) (hs : s.sink = (openedSinks h).length) :
    files (h ++ [.opened s n]) = files h ++ [(s.partitionValues, [])] := by
  have hfresh : contents h s.sink = [] :=
    (hl.delivered hx).contents_eq_nil fun t ht heq => absurd (heq.trans hs) (Nat.ne_of_lt (hl.sink_lt ht))
  simp [files, Event.openedSink, Event.rowsFor, hfresh]

theorem files_other (ho : e.openedSink = none) (hr : ∀ sink, e.rowsFor sink = []) :
    files (h ++ [e]) = files h := by
  simp [files, ho, hr]

theorem files_wrote {init : List (OpenFileSink α)} (hl : Legal policy h) (hlast : openedSinks h = init ++ [s]) :
    files (h ++ [.wrote s.sink run batch]) =
      init.map (fun t => (t.partitionValues, contents h t.sink)) ++
        [(s.partitionValues, contents h s.sink ++ batch.rows)] := by
  have hmem : ∀ t ∈ init, t.sink ≠ s.sink := by
    have hnodup : ((openedSinks h).map (·.sink)).Nodup := hl.ids ▸ List.nodup_range
    rw [hlast, List.map_append, List.nodup_append] at hnodup
    exact fun t ht heq => hnodup.2.2 _ (List.mem_map_of_mem ht) _ (by simp) heq
  have hinit : init.map (fun t => (t.partitionValues, contents (h ++ [.wrote s.sink run batch]) t.sink)) =
      init.map fun t => (t.partitionValues, contents h t.sink) := by
    refine List.map_congr_left fun t ht => ?_
    simp [Event.rowsFor, (hmem t ht).symm]
  simp only [files, openedSinks_snoc, Event.openedSink, Option.toList_none, List.append_nil, hlast,
    List.map_append, hinit]
  simp [Event.rowsFor]

-- ---------------------------------------------------------------------------
-- The loop
-- ---------------------------------------------------------------------------

variable {w : PartitionedOutputWriter α J}

theorem finish_files {sink : OpenFileSink α} :
    Ensures (w.finish sink) h (fun _ h' => files h' = files h ∧ openedSinks h' = openedSinks h)
      (fun _ _ => True) := by
  apply ensures_get_bind
  split
  · exact ensures_modify_bind (ensures_pure ⟨files_other rfl fun _ => rfl, by simp [Event.openedSink]⟩)
  · exact ensures_modify_bind (ensures_pure ⟨files_other rfl fun _ => rfl, by simp [Event.openedSink]⟩)

theorem finishRemaining_files {held : List (OpenFileSink α)} (hreports : policy.reports = w.reports)
    (hw : Working policy h held completed runs) :
    Ensures (w.finishRemaining held completed) h (fun _ h' => files h' = files h) (fun _ _ => True) := by
  induction held generalizing h completed with
  | nil => exact ensures_pure rfl
  | cons sink held ih =>
    apply (((ensures_finish hw hreports).and finish_files).mono (fun _ _ h => h) fun _ _ _ => trivial).bind
    rintro (e | output) h' ⟨hr, hfiles, -⟩
    · exact (ensures_failWith hr (List.Perm.refl _)).mono (fun _ _ h => h) fun _ _ _ => trivial
    · exact (ih hr.2).mono (fun _ _ h => h.trans hfiles) fun _ _ h => h

theorem finishChanged_files [DecidableEq α] (values : PartitionValues α) {current : Option (OpenFileSink α)} :
    Ensures (w.finishChanged values completed current) h
      (fun r h' => files h' = files h ∧ openedSinks h' = openedSinks h ∧
        r.1 = current.filter fun s => partitionValuesEqual s.partitionValues values)
      (fun _ _ => True) := by
  cases current with
  | none => exact ensures_pure ⟨rfl, rfl, rfl⟩
  | some sink =>
    simp only [PartitionedOutputWriter.finishChanged]
    split
    next hequal => exact ensures_pure ⟨rfl, rfl, by rw [Option.filter_some, if_pos hequal]⟩
    next hdiffers =>
      apply finish_files.bind
      rintro (e | output) h' ⟨hfiles, hsinks⟩
      · exact ensures_throw trivial
      · exact ensures_pure ⟨hfiles, hsinks, by rw [Option.filter_some, if_neg hdiffers]⟩

theorem openMissing_opened (values : PartitionValues α) {current : Option (OpenFileSink α)} :
    Ensures (w.openMissing context values completed current) h
      (fun sink h' => (current = some sink ∧ h' = h) ∨
        (current = none ∧ sink.partitionValues = values ∧ sink.sink = (openedSinks h).length ∧
          h' = h ++ [.opened sink none]))
      (fun _ _ => True) := by
  cases current with
  | some sink => exact ensures_pure (.inl ⟨rfl, rfl⟩)
  | none =>
    have hopen : Ensures (w.openSink values context.projectedSchema none) h
        (fun r h' => (∃ sink, r = .ok sink ∧ sink.partitionValues = values ∧
          sink.sink = (openedSinks h).length ∧ h' = h ++ [.opened sink none]) ∨ ∃ e, r = .error e)
        (fun _ _ => True) := by
      apply ensures_get_bind
      split
      · exact ensures_modify_bind (ensures_pure (.inl ⟨_, rfl, rfl, rfl, rfl⟩))
      · exact ensures_modify_bind (ensures_pure (.inr ⟨_, rfl⟩))
    apply hopen.bind
    rintro r h' (⟨sink, rfl, hopened⟩ | ⟨e, rfl⟩)
    · exact ensures_pure (.inr ⟨rfl, hopened⟩)
    · exact ensures_throw trivial

/-- Between two turns of the loop: the files are the blocks of the runs so
far, and the open sink is the last file. -/
structure Blocked [DecidableEq α] (rows : PartitionRun α → List (Row α)) (h : History α J)
    (current : Option (OpenFileSink α)) (before : List (PartitionRun α)) : Prop where
  files : files h = blocks rows before
  current : current = (openedSinks h).getLast?

theorem Legal.wrote_rows (hl : Legal policy (h ++ [.wrote sink run batch])) :
    batch.rows = policy.keying.rows run := by
  obtain ⟨_, _, _, _, hrows⟩ := hl.enabled
  exact hrows

section
variable [DecidableEq α] {rows : PartitionRun α → List (Row α)} {sink : OpenFileSink α}

theorem Blocked.join (hb : Blocked rows h (some sink) before) (hl : Legal policy h)
    (hequal : partitionValuesEqual sink.partitionValues run.values = true) (hrows : batch.rows = rows run) :
    Blocked rows (h ++ [.wrote sink.sink run batch]) (some sink) (before ++ [run]) := by
  obtain ⟨init, hlast⟩ := List.getLast?_eq_some_iff.mp hb.current.symm
  refine ⟨?_, by simpa [Event.openedSink] using hb.current⟩
  have hfiles := hb.files
  simp only [FileOutput.files, hlast, List.map_append, List.map_cons, List.map_nil] at hfiles
  rw [blocks_snoc, ← hfiles, addRun_join hequal, files_wrote hl hlast, hrows]

theorem Blocked.begin {current : Option (OpenFileSink α)} (hb : Blocked rows h current before) (hl : Legal policy h)
    (hx : policy.Exclusive) (hlegal : Legal policy (h ++ [.opened sink none]))
    (hdiffers : ∀ s ∈ current, partitionValuesEqual s.partitionValues run.values = false)
    (hvalues : sink.partitionValues = run.values) (hsink : sink.sink = (openedSinks h).length)
    (hrows : batch.rows = rows run) :
    Blocked rows (h ++ [.opened sink none] ++ [.wrote sink.sink run batch]) (some sink) (before ++ [run]) := by
  have hsinks : openedSinks (h ++ [.opened sink none]) = openedSinks h ++ [sink] := by
    simp [Event.openedSink]
  have hopened : FileOutput.files (h ++ [.opened sink none]) = _ := files_opened hl hx hsink
  simp only [FileOutput.files, hsinks, List.map_append, List.map_cons, List.map_nil] at hopened
  obtain ⟨hinit, hempty⟩ := List.append_inj' hopened rfl
  have hempty : contents (h ++ [.opened sink none]) sink.sink = [] := by simpa using hempty
  refine ⟨?_, by rw [openedSinks_snoc, hsinks]; simp [Event.openedSink]⟩
  rw [files_wrote hlegal hsinks, hempty, List.nil_append, hrows, hinit, blocks_snoc, addRun_new, ← hb.files, hvalues]
  · rfl
  · rw [← hb.files, FileOutput.files, List.getLast?_map, ← hb.current]
    rintro block hblock
    obtain ⟨s, hs, rfl⟩ := Option.map_eq_some_iff.mp hblock
    exact hdiffers s hs

theorem ensures_sortSingleLoop_blocks (before : List (PartitionRun α)) {current : Option (OpenFileSink α)}
    (hc : ContextOf w schema context)
    (hcovers : ∀ run, .ok run ∈ items → run.values.Covers w.partitionFields)
    (hcurrent : ∀ s, current = some s → s.partitionValues.Covers w.partitionFields)
    (hw : Working (w.policy schema .sortSingle) h current.toList completed before)
    (hb : Blocked (w.keying schema).rows h current before) :
    Ensures (w.sortSingleLoop context items current completed) h
      (fun _ h' => ∃ after, items = after.map .ok ∧
        FileOutput.files h' = blocks (w.keying schema).rows (before ++ after))
      (fun _ _ => True) := by
  induction items generalizing h current completed before with
  | nil =>
    refine (finishRemaining_files rfl hw).mono (fun _ h' hfiles => ⟨[], rfl, ?_⟩) fun _ _ h => h
    rw [List.append_nil, hfiles, hb.files]
  | cons item items ih =>
    apply ((ensures_receive hw (List.Perm.refl _)).mono (fun _ _ h => h) fun _ _ _ => trivial).bind
    rintro run _ ⟨rfl, rfl⟩
    have hrun := hcovers run (by simp)
    apply (((ensures_finishChanged run.values rfl hw).and (finishChanged_files run.values)).mono (fun _ _ h => h)
      fun _ _ _ => trivial).bind
    rintro ⟨kept, completed⟩ h₁ ⟨⟨hw₁, hkept⟩, hfiles, hsinks, rfl⟩
    apply (((ensures_openMissing run.values rfl hw₁).and (openMissing_opened run.values)).mono (fun _ _ h => h)
      fun _ _ _ => trivial).bind
    rintro sink h₂ ⟨⟨hw₂, hsink⟩, hopened⟩
    have hsame : w.key sink = (w.keying schema).ofRun run ∧
        sink.partitionValues.Covers w.partitionFields := by
      rcases hsink with hold | hnew
      · obtain ⟨hold, hequal⟩ := hkept sink hold
        have hcov := hcurrent sink hold
        exact ⟨partitionKey_eq_of_equal hcov hequal, hcov⟩
      · exact ⟨by rw [PartitionedOutputWriter.key, hnew]; rfl, hnew ▸ hrun⟩
    apply ((ensures_writeRun rfl hc hw₂ (by simp) hsame.1 (List.Perm.refl _)).mono (fun _ _ h => h)
      fun _ _ _ => trivial).bind
    rintro _ _ ⟨⟨batch, rfl⟩, hw₃⟩
    have hw₃ : Working _ _ (some sink).toList _ _ := hw₃
    have hb₃ : Blocked (w.keying schema).rows (h₂ ++ [.wrote sink.sink run batch]) (some sink) (before ++ [run]) := by
      have hb₁ : Blocked (w.keying schema).rows h₁ current before := ⟨hfiles.trans hb.files, hsinks ▸ hb.current⟩
      have hrows := hw₃.legal.wrote_rows
      rcases hopened with ⟨hkept, rfl⟩ | ⟨hnone, hvalues, hid, rfl⟩
      · obtain ⟨rfl, hequal⟩ := Option.filter_eq_some_iff.mp hkept
        exact hb₁.join hw₁.legal hequal hrows
      · refine hb₁.begin hw₁.legal (w.policy_exclusive schema .sortSingle) hw₂.legal ?_ hvalues hid hrows
        exact fun s hs => by simpa using Option.filter_eq_none_iff.mp hnone s hs
    refine (ih _ (fun r hr => hcovers r (List.mem_cons_of_mem _ hr)) ?_ hw₃ hb₃).mono ?_ fun _ _ h => h
    · rintro s ⟨rfl⟩
      exact hsame.2
    · rintro report h' ⟨after, rfl, hs⟩
      exact ⟨run :: after, rfl, by simpa using hs⟩

theorem writeSortSingle_blocks (w : PartitionedOutputWriter α J) (stream : SendableRecordBatchStream α) :
    Ensures (w.writeSortSingle stream) []
      (fun _ h => ∃ runs, w.runs stream = runs.map .ok ∧
        FileOutput.files h = blocks (w.keying stream.schema).rows runs)
      (fun _ _ => True) := by
  have hbegin : Ensures (w.begin stream.schema) [] (fun context h => h = [] ∧ ContextOf w stream.schema context)
      (Failed (w.policy stream.schema .sortSingle)) := ensures_begin
  apply (hbegin.mono (fun _ _ h => h) fun _ _ _ => trivial).bind
  rintro context _ ⟨rfl, hc⟩
  refine ensures_sortSingleLoop_blocks [] hc (fun run hrun => ?_) (by simp) .nil ⟨rfl, rfl⟩
  rw [runs_eq_batchItems] at hrun
  exact covers_of_mem_items hrun

end

theorem live_le_one (hl : Legal (w.policy schema .sortSingle) h) : (live h).length ≤ 1 := by
  induction hl with
  | nil => simp [live, openedSinks]
  | @snoc h e hl he ih =>
    cases e with
    | opened s n => simp [live_opened hl he.1, he.2.1]
    | wrote | finished | failed | aborted => exact (live_length_snoc rfl).trans ih

theorem filter_key_eq {sinks : List (OpenFileSink α)} {key : OpenFileSink α → String}
    (hn : (sinks.map key).Nodup) (hs : s ∈ sinks) : sinks.filter (key · == key s) = [s] := by
  induction sinks with
  | nil => cases hs
  | cons t sinks ih =>
    obtain ⟨hnot, hn⟩ := List.nodup_cons.mp hn
    rcases List.mem_cons.mp hs with rfl | hs
    · have hnone : sinks.filter (key · == key s) = [] := by
        refine List.filter_eq_nil_iff.mpr fun t ht heq => hnot ?_
        exact List.mem_map.mpr ⟨t, ht, beq_iff_eq.mp heq⟩
      simp [hnone]
    · have hne : key t ≠ key s := fun heq => hnot (heq ▸ List.mem_map_of_mem hs)
      simpa [hne] using ih hn hs

/-- A sort-single write has one file open at most. Its files are the blocks of
neighbouring runs with the same partition values, in the order of the stream.
Key by key they hold, in this order, what a nosort-multi write of the same
stream puts into one file, and the files are the same when no key has a
second block. -/
theorem sort_single_blocks [DecidableEq α] (w : PartitionedOutputWriter α J)
    (stream : SendableRecordBatchStream α) :
    Ensures (w.writeSortSingle stream) []
      (fun _ h => (∀ p, p <+: h → (live p).length ≤ 1) ∧
        (∃ runs, w.runs stream = runs.map .ok ∧ files h = blocks (w.keying stream.schema).rows runs) ∧
        ∀ env : Environment α J, Ensures ({ w with env }.writeNosortMulti stream) []
          (fun _ h' =>
            (∀ k, (ofKey w.key h k).flatMap (contents h ·.sink) =
              (ofKey w.key h' k).flatMap (contents h' ·.sink)) ∧
            (((openedSinks h).map w.key).Nodup → ∀ s ∈ openedSinks h, ∀ s' ∈ openedSinks h',
              w.key s = w.key s' → contents h s.sink = contents h' s'.sink))
          (fun _ _ => True))
      (fun _ h => ∀ p, p <+: h → (live p).length ≤ 1) := by
  refine ((ensures_write w .sortSingle stream).and (writeSortSingle_blocks w stream)).mono ?_ ?_
  · rintro _ h ⟨⟨runs, hruns, hs⟩, hblocks⟩
    refine ⟨fun p hp => live_le_one (hs.legal.of_prefix hp), hblocks, fun env => ?_⟩
    refine (ensures_write { w with env } .nosortMulti stream).mono (fun _ h' hs' => ?_) fun _ _ _ => trivial
    obtain ⟨runs', hruns', hs'⟩ := hs'
    obtain rfl : runs = runs' := by
      have heq : runs.map Except.ok = runs'.map Except.ok := hruns.symm.trans hruns'
      exact List.map_injective_iff.mpr (fun _ _ => Except.ok.inj) heq
    have hsame : ∀ k, (ofKey w.key h k).flatMap (contents h ·.sink) =
        (ofKey w.key h' k).flatMap (contents h' ·.sink) := by
      intro k
      have hsingle := (hs.legal.delivered (w.policy_exclusive _ _)).byKey k
      have hmulti := (hs'.legal.delivered (PartitionedOutputWriter.policy_exclusive _ _ _)).byKey k
      rw [hs.written] at hsingle
      rw [hs'.written] at hmulti
      exact hsingle.trans hmulti.symm
    refine ⟨hsame, fun hnodup s hs₁ s' hs₂ hkey => ?_⟩
    have hone : (ofKey w.key h' (w.key s')).length ≤ 1 := ofKey_length_le_one hs'.legal _
    have hmem : s' ∈ ofKey w.key h' (w.key s') := List.mem_filter.mpr ⟨hs₂, by simp⟩
    obtain ⟨t, ht⟩ := List.length_eq_one_iff.mp (Nat.le_antisymm hone (List.length_pos_of_mem hmem))
    obtain rfl := List.mem_singleton.mp (ht ▸ hmem)
    have hfile := hsame (w.key s')
    rw [ht, ← hkey, ofKey, filter_key_eq hnodup hs₁] at hfile
    simpa using hfile
  · rintro halt h ⟨hf, -⟩
    cases halt with
    | panic message => exact hf.elim
    | failure failure => exact fun p hp => live_le_one (hf.legal.of_prefix hp)

end SilkChiffon.FileOutput
