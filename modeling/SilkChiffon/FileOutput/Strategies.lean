import SilkChiffon.FileOutput.Delivery
import SilkChiffon.FileOutput.Writer
import SilkChiffon.Lib.Lists

/-!
# The strategies keep their policies

One specification for each step of the writer, and from them one for each of
the three loops: a write that returns has delivered every run, one that fails
has stopped at the failing step and aborted what was open, and none panics.
-/

namespace SilkChiffon.FileOutput

open Arrow FileOutput.History Effects

-- ---------------------------------------------------------------------------
-- Policies
-- ---------------------------------------------------------------------------

def projectedRows (indices : Option (List Nat)) (batch : RecordBatch α) : List (Row α) :=
  match indices with
  | some indices => batch.rows.map (Row.project indices)
  | none => batch.rows

namespace PartitionedOutputWriter

def key (w : PartitionedOutputWriter α J) (sink : OpenFileSink α) : String :=
  partitionKey w.rendering.format sink.partitionValues w.partitionFields

def keying (w : PartitionedOutputWriter α J) (schema : Schema) : Keying α where
  ofSink := w.key
  ofRun run := partitionKey w.rendering.format run.values w.partitionFields
  rows run := projectedRows (projectionIndicesExcluding schema w.excludeColumns) run.batch

def reports (w : PartitionedOutputWriter α J) (sink : OpenFileSink α) :
    List (PartitionFieldValue J) :=
  partitionFieldValues w.rendering.toJson sink.partitionValues w.partitionFields

/-- When each strategy opens a sink, and under which file number. -/
def policy (w : PartitionedOutputWriter α J) (schema : Schema) : Strategy → Policy α J
  | .sortSingle => ⟨w.keying schema, fun h _ n => live h = [] ∧ n = none, w.reports⟩
  | .nosortMulti => ⟨w.keying schema, fun h s n => ofKey w.key h (w.key s) = [] ∧ n = none, w.reports⟩
  | .nosortEvict maxOpen =>
    ⟨w.keying schema, fun h s n => (live h).length < maxOpen.1 ∧ (∀ t ∈ live h, w.key t ≠ w.key s) ∧
      n = some (ofKey w.key h (w.key s)).length, w.reports⟩

theorem policy_keying (w : PartitionedOutputWriter α J) (schema : Schema) (strategy : Strategy) :
    (w.policy schema strategy).keying = w.keying schema := by
  cases strategy <;> rfl

theorem policy_reports (w : PartitionedOutputWriter α J) (schema : Schema) (strategy : Strategy) :
    (w.policy schema strategy).reports = w.reports := by
  cases strategy <;> rfl

theorem policy_exclusive (w : PartitionedOutputWriter α J) (schema : Schema) (strategy : Strategy) :
    (w.policy schema strategy).Exclusive := by
  intro h s n hopen t ht
  rw [w.policy_keying schema strategy]
  intro heq
  cases strategy with
  | sortSingle =>
    rw [hopen.1] at ht
    cases ht
  | nosortMulti =>
    have : t ∈ ofKey w.key h (w.key s) := List.mem_filter.mpr ⟨live_subset ht, beq_iff_eq.mpr heq⟩
    rw [hopen.1] at this
    cases this
  | nosortEvict maxOpen => exact hopen.2.1 t ht heq

end PartitionedOutputWriter

-- ---------------------------------------------------------------------------
-- Moments of a write
-- ---------------------------------------------------------------------------

/-- No step has failed so far: `held` are the open sinks, `completed` the
finished ones, and `runs` have been written. -/
structure Working (policy : Policy α J) (h : History α J)
    (held : List (OpenFileSink α)) (completed : List (CompletedFileOutput J))
    (runs : List (PartitionRun α)) : Prop where
  legal : Legal policy h
  progress : ∀ e ∈ h, e.isProgress
  holds : Holds h held
  completed : completed = outputs h
  written : (written h).map (·.1) = runs

/-- The last step has failed, and the open sinks are about to be aborted. -/
structure Failing (policy : Policy α J) (h : History α J) (held : List (OpenFileSink α))
    (completed : List (CompletedFileOutput J)) : Prop where
  legal : Legal policy h
  holds : Holds h held
  completed : completed = outputs h
  step : ∃ before e, h = before ++ [e] ∧ (∀ x ∈ before, x.isProgress) ∧ e.isFailure

/-- After progress one step failed, then only aborts followed, until nothing
was open. -/
structure FailedWrite (policy : Policy α J) (h : History α J) (failure : FileOutputFailure J) :
    Prop where
  legal : Legal policy h
  closed : live h = []
  report : failure.report = .new (outputs h)
  steps : ∃ before e aborts, h = before ++ e :: aborts ∧ (∀ x ∈ before, x.isProgress) ∧
    e.isFailure ∧ ∀ x ∈ aborts, x.isAbort

def Failed (policy : Policy α J) : Halt J → History α J → Prop
  | .failure failure, h => FailedWrite policy h failure
  | .panic _, _ => False

structure Succeeded (policy : Policy α J) (runs : List (PartitionRun α))
    (report : FileOutputReport J) (h : History α J) : Prop where
  legal : Legal policy h
  progress : ∀ e ∈ h, e.isProgress
  closed : live h = []
  report : report = .new (outputs h)
  written : (written h).map (·.1) = runs

variable {policy : Policy α J} {h : History α J} {held : List (OpenFileSink α)}
  {completed : List (CompletedFileOutput J)} {runs : List (PartitionRun α)}
  {w : PartitionedOutputWriter α J}

theorem Working.nil : Working policy ([] : History α J) [] [] [] :=
  ⟨.nil, by simp, List.Perm.refl _, rfl, rfl⟩

theorem Working.perm (hw : Working policy h held completed runs) (hp : held'.Perm held) :
    Working policy h held' completed runs :=
  { hw with holds := hw.holds.perm hp }

theorem snoc_progress {e : Event α J} (hp : ∀ x ∈ h, x.isProgress) (he : e.isProgress) :
    ∀ x ∈ h ++ [e], x.isProgress := by
  intro x hx
  rcases List.mem_append.mp hx with hx | hx
  · exact hp x hx
  · exact List.mem_singleton.mp hx ▸ he

theorem Working.opened (hw : Working policy h held completed runs)
    (hs : s.sink = (openedSinks h).length) (hopen : policy.mayOpen h s n) :
    Working policy (h ++ [.opened s n]) (s :: held) completed runs where
  legal := hw.legal.snoc ⟨hs, hopen⟩
  progress := snoc_progress hw.progress rfl
  holds := hw.holds.opened hw.legal hs
  completed := by simp [hw.completed, Event.output]
  written := by simp [hw.written, Event.writtenRun]

theorem Working.finished (hw : Working policy h (s :: held) completed runs)
    (hfields : output.partitionFields = policy.reports s) :
    Working policy (h ++ [.finished s.sink output]) held (completed ++ [output]) runs where
  legal := hw.legal.snoc ⟨s, hw.holds.mem (by simp), rfl, hfields⟩
  progress := snoc_progress hw.progress rfl
  holds := hw.holds.consume hw.legal rfl rfl
  completed := by simp [hw.completed, Event.output]
  written := by simp [hw.written, Event.writtenRun]

theorem Working.wrote (hw : Working policy h held completed runs) (hs : s ∈ held)
    (hkey : policy.keying.ofSink s = policy.keying.ofRun run)
    (hrows : batch.rows = policy.keying.rows run) :
    Working policy (h ++ [.wrote s.sink run batch]) held completed (runs ++ [run]) where
  legal := hw.legal.snoc ⟨s, hw.holds.mem hs, rfl, hkey, hrows⟩
  progress := snoc_progress hw.progress rfl
  holds := hw.holds.other rfl rfl
  completed := by simp [hw.completed, Event.output]
  written := by simp [hw.written, Event.writtenRun]

theorem Working.failed (hw : Working policy h held completed runs)
    (hen : policy.Enabled h (.failed step)) (hh : Holds (h ++ [.failed step]) held') :
    Failing policy (h ++ [.failed step]) held' completed where
  legal := hw.legal.snoc hen
  holds := hh
  completed := by simp [hw.completed, Event.output]
  step := ⟨h, _, rfl, hw.progress, rfl⟩

-- ---------------------------------------------------------------------------
-- Aborting
-- ---------------------------------------------------------------------------

theorem outputs_aborts {aborts : History α J} (ha : ∀ x ∈ aborts, x.isAbort) :
    outputs (h ++ aborts) = outputs h := by
  have : outputs aborts = [] := by
    rw [outputs, List.filterMap_eq_nil_iff]
    intro x hx
    have := ha x hx
    cases x <;> simp_all [Event.isAbort, Event.output]
  rw [outputs, List.filterMap_append, ← outputs, ← outputs, this, List.append_nil]

theorem ensures_abortEach (hl : Legal policy h) (hh : Holds h sinks) :
    Ensures (w.abortEach sinks errors) h
      (fun _ h' => ∃ aborts, h' = h ++ aborts ∧ (∀ x ∈ aborts, x.isAbort) ∧ Legal policy h' ∧
        live h' = [])
      (fun _ _ => False) := by
  induction sinks generalizing h errors with
  | nil => exact ensures_pure ⟨[], by simp, by simp, hl, hh.symm.eq_nil⟩
  | cons sink sinks ih =>
    have hlive : IsLive h sink.sink := ⟨sink, hh.mem (by simp), rfl⟩
    have hstep : ∀ (error : Option Error) errors,
        Ensures (w.abortEach sinks errors) (h ++ [.aborted sink.sink error])
          (fun _ h' => ∃ aborts, h' = h ++ aborts ∧ (∀ x ∈ aborts, x.isAbort) ∧ Legal policy h' ∧
            live h' = []) (fun _ _ => False) := by
      intro error errors
      have hl' : Legal policy (h ++ [.aborted sink.sink error]) := hl.snoc hlive
      refine (ih hl' (hh.consume hl rfl rfl)).mono ?_ fun _ _ hfalse => hfalse
      rintro _ h' ⟨aborts, rfl, ha, hl', hnone⟩
      refine ⟨.aborted sink.sink error :: aborts, by simp, ?_, hl', hnone⟩
      simpa using ⟨rfl, ha⟩
    unfold PartitionedOutputWriter.abortEach
    apply ensures_get_bind
    split
    · exact ensures_modify_bind (hstep none _)
    · exact ensures_modify_bind (hstep _ _)

theorem ensures_failWith (hf : Failing policy h held completed) (hp : sinks.Perm held) :
    Ensures (w.failWith primary completed sinks) h R (Failed policy) := by
  have hperm : (PartitionedOutputWriter.sortByTarget sinks).Perm held :=
    (List.mergeSort_perm ..).trans hp
  apply ((ensures_abortEach hf.legal (hf.holds.perm hperm)).mono (fun _ _ h => h)
    fun _ _ hfalse => hfalse.elim).bind
  rintro cleanup h' ⟨aborts, rfl, ha, hl, hnone⟩
  apply ensures_throw
  refine ⟨hl, hnone, ?_, ?_⟩
  · rw [outputs_aborts ha, ← hf.completed]
    rfl
  · obtain ⟨before, e, rfl, hbefore, he⟩ := hf.step
    exact ⟨before, e, aborts, by simp, hbefore, he, ha⟩

theorem Failing.thrown (hf : Failing policy h [] completed) :
    FailedWrite policy h (.new primary completed []) := by
  obtain ⟨before, e, hsplit, hbefore, he⟩ := hf.step
  exact ⟨hf.legal, hf.holds.symm.eq_nil, by rw [← hf.completed]; rfl, before, e, [], hsplit, hbefore,
    he, by simp⟩

-- ---------------------------------------------------------------------------
-- The steps of a loop
-- ---------------------------------------------------------------------------

theorem ensures_receive (hw : Working policy h held completed runs) (hp : sinks.Perm held) :
    Ensures (w.receive completed sinks item) h (fun run h' => h' = h ∧ item = .ok run)
      (Failed policy) := by
  cases item with
  | ok run => exact ensures_pure ⟨rfl, rfl⟩
  | error primary =>
    exact ensures_modify_bind (ensures_failWith (hw.failed trivial (hw.holds.other rfl rfl)) hp)

theorem ensures_openSink (hw : Working policy h held completed runs)
    (hopen : ∀ target, policy.mayOpen h ⟨(openedSinks h).length, target, values⟩ n) :
    Ensures (w.openSink values schema n) h
      (fun r h' => match r with
        | .ok sink => sink.partitionValues = values ∧ h' = h ++ [.opened sink n] ∧
          Working policy h' (sink :: held) completed runs
        | .error _ => Failing policy h' held completed)
      (fun _ _ => False) := by
  apply ensures_get_bind
  split
  · rename_i target _
    exact ensures_modify_bind (ensures_pure ⟨rfl, rfl, hw.opened rfl (hopen target)⟩)
  · exact ensures_modify_bind (ensures_pure (hw.failed trivial (hw.holds.other rfl rfl)))

theorem ensures_finish (hw : Working policy h (sink :: held) completed runs)
    (hreports : policy.reports = w.reports) :
    Ensures (w.finish sink) h
      (fun r h' => match r with
        | .ok output => (∃ sink output, h' = h ++ [.finished sink output]) ∧
          Working policy h' held (completed ++ [output]) runs
        | .error _ => Failing policy h' held completed)
      (fun _ _ => False) := by
  apply ensures_get_bind
  split
  · refine ensures_modify_bind (ensures_pure ⟨⟨_, _, rfl⟩, hw.finished ?_⟩)
    rw [hreports]
    rfl
  · refine ensures_modify_bind (ensures_pure (hw.failed ?_ (hw.holds.consume hw.legal rfl rfl)))
    exact ⟨sink, hw.holds.mem (by simp), rfl⟩

structure ContextOf (w : PartitionedOutputWriter α J) (schema : Schema)
    (context : PartitionProjection) : Prop where
  fieldOrder : context.fieldOrder = w.partitionFields
  projectedIndices : context.projectedIndices = projectionIndicesExcluding schema w.excludeColumns

theorem projectBatch_rows {context : PartitionProjection} (hc : ContextOf w schema context)
    (h : context.projectBatch run.batch = .ok projected) :
    projected.rows = (w.keying schema).rows run := by
  unfold PartitionProjection.projectBatch at h
  simp only [PartitionedOutputWriter.keying, projectedRows, ← hc.projectedIndices]
  cases hindices : context.projectedIndices with
  | some indices =>
    simp only [hindices] at h ⊢
    cases hproject : run.batch.project indices with
    | error i => simp [hproject, Except.mapError] at h
    | ok b =>
      obtain rfl : b = projected := by simpa [hproject, Except.mapError] using h
      exact RecordBatch.project_ok hproject
  | none =>
    simp only [hindices] at h ⊢
    exact congrArg RecordBatch.rows (Except.ok.inj h).symm

theorem ensures_writeBatch (hw : Working policy h held completed runs) (hs : s ∈ held)
    (hkey : policy.keying.ofSink s = policy.keying.ofRun run)
    (hrows : batch.rows = policy.keying.rows run) :
    Ensures (w.writeBatch s run batch) h
      (fun r h' => match r with
        | .ok _ => h' = h ++ [.wrote s.sink run batch] ∧
          Working policy h' held completed (runs ++ [run])
        | .error _ => Failing policy h' held completed)
      (fun _ _ => False) := by
  apply ensures_get_bind
  split
  · exact ensures_modify_bind (ensures_pure ⟨rfl, hw.wrote hs hkey hrows⟩)
  · refine ensures_modify_bind (ensures_pure (hw.failed ?_ (hw.holds.other rfl rfl)))
    exact ⟨s, hw.holds.mem hs, rfl⟩

theorem ensures_writeRun (hk : policy.keying = w.keying schema) (hc : ContextOf w schema context)
    (hw : Working policy h held completed runs) (hs : s ∈ held)
    (hkey : w.key s = (w.keying schema).ofRun run) (hp : sinks.Perm held) :
    Ensures (w.writeRun context completed sinks s run) h
      (fun _ h' => (∃ batch, h' = h ++ [.wrote s.sink run batch]) ∧
        Working policy h' held completed (runs ++ [run]))
      (Failed policy) := by
  unfold PartitionedOutputWriter.writeRun
  split
  · exact ensures_modify_bind (ensures_failWith (hw.failed trivial (hw.holds.other rfl rfl)) hp)
  · rename_i projected hproject
    have hrows := projectBatch_rows hc hproject
    rw [← hk] at hrows
    have hkey : policy.keying.ofSink s = policy.keying.ofRun run := by rw [hk]; exact hkey
    apply ((ensures_writeBatch hw hs hkey hrows).mono (fun _ _ h => h)
      fun _ _ hfalse => hfalse.elim).bind
    rintro (e | _) h' hr
    · exact ensures_failWith hr hp
    · exact ensures_pure ⟨⟨_, hr.1⟩, hr.2⟩

theorem ensures_finishRemaining (hreports : policy.reports = w.reports)
    (hw : Working policy h held completed runs) :
    Ensures (w.finishRemaining held completed) h (Succeeded policy runs) (Failed policy) := by
  induction held generalizing h completed with
  | nil =>
    exact ensures_pure ⟨hw.legal, hw.progress, hw.holds.symm.eq_nil, by rw [hw.completed], hw.written⟩
  | cons sink held ih =>
    apply ((ensures_finish hw hreports).mono (fun _ _ h => h) fun _ _ hfalse => hfalse.elim).bind
    rintro (e | output) h' hr
    · exact ensures_failWith hr (List.Perm.refl _)
    · exact ih hr.2

theorem new_context (h : PartitionProjection.new w.rendering.debug schema w.partitionFields
    w.excludeColumns = .ok context) : ContextOf w schema context := by
  unfold PartitionProjection.new at h
  obtain ⟨_, _, h⟩ := Lists.bind_eq_ok.mp h
  obtain ⟨_, _, h⟩ := Lists.bind_eq_ok.mp h
  simp only at h
  split at h
  · split at h
    · cases h
    · obtain rfl := Except.ok.inj h
      exact ⟨rfl, rfl⟩
  · obtain rfl := Except.ok.inj h
    exact ⟨rfl, rfl⟩

theorem ensures_begin :
    Ensures (w.begin schema) [] (fun context h => h = [] ∧ ContextOf w schema context)
      (Failed policy) := by
  unfold PartitionedOutputWriter.begin
  split
  · rename_i context hnew
    exact ensures_pure ⟨rfl, new_context hnew⟩
  · apply ensures_modify_bind
    apply ensures_throw
    exact ⟨.snoc .nil trivial, rfl, rfl, [], _, [], rfl, by simp, rfl, by simp⟩

-- ---------------------------------------------------------------------------
-- sort-single
-- ---------------------------------------------------------------------------

theorem ensures_finishChanged [DecidableEq α] (values : PartitionValues α)
    {current : Option (OpenFileSink α)}
    (hreports : policy.reports = w.reports)
    (hw : Working policy h current.toList completed runs) :
    Ensures (w.finishChanged values completed current) h
      (fun r h' => Working policy h' r.1.toList r.2 runs ∧
        ∀ s, r.1 = some s → current = some s ∧ partitionValuesEqual s.partitionValues values = true)
      (Failed policy) := by
  cases current with
  | none => exact ensures_pure ⟨hw, by simp⟩
  | some sink =>
    simp only [PartitionedOutputWriter.finishChanged]
    split
    · rename_i hequal
      refine ensures_pure ⟨hw, ?_⟩
      rintro s ⟨rfl⟩
      exact ⟨rfl, hequal⟩
    · apply ((ensures_finish hw hreports).mono (fun _ _ h => h) fun _ _ hfalse => hfalse.elim).bind
      rintro (e | output) h' hr
      · exact ensures_throw hr.thrown
      · exact ensures_pure ⟨hr.2, by simp⟩

theorem ensures_openMissing (values : PartitionValues α) {current : Option (OpenFileSink α)}
    (hopen : policy.mayOpen = (w.policy schema .sortSingle).mayOpen)
    (hw : Working policy h current.toList completed runs) :
    Ensures (w.openMissing context values completed current) h
      (fun sink h' => Working policy h' [sink] completed runs ∧
        (current = some sink ∨ sink.partitionValues = values))
      (Failed policy) := by
  cases current with
  | some sink => exact ensures_pure ⟨hw, .inl rfl⟩
  | none =>
    have hmay : ∀ target, policy.mayOpen h ⟨(openedSinks h).length, target, values⟩ none := by
      intro target
      rw [hopen]
      exact ⟨hw.holds.symm.eq_nil, rfl⟩
    apply ((ensures_openSink hw hmay).mono (fun _ _ h => h) fun _ _ hfalse => hfalse.elim).bind
    rintro (e | sink) h' hr
    · exact ensures_throw hr.thrown
    · exact ensures_pure ⟨hr.2.2, .inr hr.1⟩

theorem ensures_sortSingleLoop [DecidableEq α] (before : List (PartitionRun α))
    {current : Option (OpenFileSink α)}
    (hc : ContextOf w schema context)
    (hcovers : ∀ run, .ok run ∈ items → run.values.Covers w.partitionFields)
    (hcurrent : ∀ s, current = some s → s.partitionValues.Covers w.partitionFields)
    (hw : Working (w.policy schema .sortSingle) h current.toList completed before) :
    Ensures (w.sortSingleLoop context items current completed) h
      (fun report h' => ∃ after, items = after.map .ok ∧
        Succeeded (w.policy schema .sortSingle) (before ++ after) report h')
      (Failed (w.policy schema .sortSingle)) := by
  induction items generalizing h current completed before with
  | nil =>
    refine (ensures_finishRemaining rfl hw).mono (fun report h' hs => ⟨[], rfl, ?_⟩) fun _ _ h => h
    simpa using hs
  | cons item items ih =>
    apply (ensures_receive hw (List.Perm.refl _)).bind
    rintro run _ ⟨rfl, rfl⟩
    have hrun := hcovers run (by simp)
    apply (ensures_finishChanged run.values rfl hw).bind
    rintro ⟨kept, completed⟩ h₁ ⟨hw₁, hkept⟩
    apply (ensures_openMissing run.values rfl hw₁).bind
    rintro sink h₂ ⟨hw₂, hsink⟩
    have hsame : w.key sink = (w.keying schema).ofRun run ∧
        sink.partitionValues.Covers w.partitionFields := by
      rcases hsink with hold | hnew
      · obtain ⟨hold, hequal⟩ := hkept sink hold
        have hcov := hcurrent sink hold
        exact ⟨partitionKey_eq_of_equal hcov hequal, hcov⟩
      · exact ⟨by rw [PartitionedOutputWriter.key, hnew]; rfl, hnew ▸ hrun⟩
    apply (ensures_writeRun rfl hc hw₂ (by simp) hsame.1 (List.Perm.refl _)).bind
    rintro _ h₃ ⟨_, hw₃⟩
    have hw₃ : Working _ _ (some sink).toList _ _ := hw₃
    refine (ih _ (fun r hr => hcovers r (List.mem_cons_of_mem _ hr)) ?_ hw₃).mono ?_ fun _ _ h => h
    · rintro s ⟨rfl⟩
      exact hsame.2
    · rintro report h' ⟨after, rfl, hs⟩
      exact ⟨run :: after, rfl, by simpa using hs⟩

-- ---------------------------------------------------------------------------
-- nosort-multi
-- ---------------------------------------------------------------------------

def Mapped (w : PartitionedOutputWriter α J) (h : History α J) (sinks : SinkMap α) : Prop :=
  (∀ k s, (k, s) ∈ sinks → k = w.key s) ∧ ∀ s ∈ openedSinks h, (w.key s, s) ∈ sinks

theorem ensures_entry (values : PartitionValues α) {sinks : SinkMap α} (hc : ContextOf w schema context)
    (hm : Mapped w h sinks)
    (hw : Working (w.policy schema .nosortMulti) h sinks.sinks completed runs) (hnil : completed = []) :
    Ensures (w.entry context values sinks) h
      (fun r h' => Mapped w h' r.2 ∧ Working (w.policy schema .nosortMulti) h' r.2.sinks completed runs ∧
        r.1 ∈ r.2.sinks ∧ w.key r.1 = partitionKey w.rendering.format values w.partitionFields)
      (Failed (w.policy schema .nosortMulti)) := by
  unfold PartitionedOutputWriter.entry
  rw [hc.fieldOrder]
  cases hlookup : sinks.lookup (partitionKey w.rendering.format values w.partitionFields) with
  | some sink =>
    obtain ⟨l₁, l₂, hsplit, _⟩ := List.lookup_eq_some_iff.mp hlookup
    have hmem : (partitionKey w.rendering.format values w.partitionFields, sink) ∈ sinks := by simp [hsplit]
    simp only [hlookup]
    exact ensures_pure ⟨hm, hw, List.mem_map.mpr ⟨_, hmem, rfl⟩, (hm.1 _ _ hmem).symm⟩
  | none =>
    have hnone : ∀ target, (w.policy schema .nosortMulti).mayOpen h
        ⟨(openedSinks h).length, target, values⟩ none := by
      refine fun target => ⟨?_, rfl⟩
      rw [ofKey, List.filter_eq_nil_iff]
      intro s hs hkey
      have hkey : w.key s = partitionKey w.rendering.format values w.partitionFields := beq_iff_eq.mp hkey
      have hentry := hm.2 s hs
      rw [hkey] at hentry
      exact absurd (List.lookup_eq_none_iff.mp hlookup _ hentry) (by simp)
    simp only [hlookup]
    apply ((ensures_openSink hw hnone).mono (fun _ _ h => h) fun _ _ hfalse => hfalse.elim).bind
    rintro (e | sink) h' hr
    · exact hnil ▸ ensures_failWith hr (w.env.intoValues sinks.sinks).2
    · obtain ⟨hvalues, rfl, hw'⟩ := hr
      have hkey : w.key sink = partitionKey w.rendering.format values w.partitionFields := by
        rw [PartitionedOutputWriter.key, hvalues]
      refine ensures_pure ⟨⟨?_, ?_⟩, hw', by simp [SinkMap.sinks], hkey⟩
      · rintro k s hs
        rcases List.mem_cons.mp hs with heq | hs
        · obtain ⟨rfl, rfl⟩ := Prod.mk.inj heq
          exact hkey.symm
        · exact hm.1 k s hs
      · intro s hs
        rw [openedSinks_snoc] at hs
        rcases List.mem_append.mp hs with hs | hs
        · exact List.mem_cons_of_mem _ (hm.2 s hs)
        · obtain rfl : s = sink := by simpa [Event.openedSink] using hs
          simp [hkey]

theorem ensures_nosortMultiLoop (before : List (PartitionRun α)) {sinks : SinkMap α}
    (hc : ContextOf w schema context)
    (hm : Mapped w h sinks)
    (hw : Working (w.policy schema .nosortMulti) h sinks.sinks [] before) :
    Ensures (w.nosortMultiLoop context items sinks) h
      (fun report h' => ∃ after, items = after.map .ok ∧
        Succeeded (w.policy schema .nosortMulti) (before ++ after) report h')
      (Failed (w.policy schema .nosortMulti)) := by
  induction items generalizing h sinks before with
  | nil =>
    have hperm : (PartitionedOutputWriter.sortByTarget (w.env.intoValues sinks.sinks).1).Perm
        sinks.sinks := (List.mergeSort_perm ..).trans (w.env.intoValues sinks.sinks).2
    refine (ensures_finishRemaining rfl (hw.perm hperm)).mono (fun report h' hs => ⟨[], rfl, ?_⟩)
      fun _ _ h => h
    simpa using hs
  | cons item items ih =>
    apply (ensures_receive hw (w.env.intoValues sinks.sinks).2).bind
    rintro run _ ⟨rfl, rfl⟩
    apply (ensures_entry run.values hc hm hw rfl).bind
    rintro ⟨sink, sinks⟩ h₁ ⟨hm₁, hw₁, hsink, hkey⟩
    apply (ensures_writeRun rfl hc hw₁ hsink hkey (w.env.intoValues sinks.sinks).2).bind
    rintro _ h₂ ⟨⟨batch, rfl⟩, hw₂⟩
    have hm₂ : Mapped w (h₁ ++ [.wrote sink.sink run batch]) sinks :=
      ⟨hm₁.1, fun s hs => hm₁.2 s (by simpa [Event.openedSink] using hs)⟩
    refine (ih _ hm₂ hw₂).mono ?_ fun _ _ h => h
    rintro report h' ⟨after, rfl, hs⟩
    exact ⟨run :: after, rfl, by simpa using hs⟩

-- ---------------------------------------------------------------------------
-- nosort-evict
-- ---------------------------------------------------------------------------

/-- The cache holds open sinks under their keys, and the numbers count the
sinks that were opened for a key. -/
structure Cached (w : PartitionedOutputWriter α J) (maxOpen : Nat) (h : History α J)
    (s : EvictState α J) : Prop where
  capacity : s.sinks.capacity = maxOpen
  keyed : ∀ k t, (k, t) ∈ s.sinks.entries → k = w.key t
  numbers : ∀ k, s.fileNumber k = (ofKey w.key h k).length

theorem Cached.other {s : EvictState α J} (hcache : Cached w maxOpen h s) {e : Event α J}
    (ho : e.openedSink = none) : Cached w maxOpen (h ++ [e]) s :=
  { hcache with numbers := fun k => by rw [ofKey_other ho, hcache.numbers k] }

theorem ensures_evict (key : String) {maxOpen : { n : Nat // 0 < n }} {s : EvictState α J}
    (hcache : Cached w maxOpen.1 h s) (hnew : s.sinks.contains key = false)
    (hw : Working (w.policy schema (.nosortEvict maxOpen)) h s.held s.completed runs) :
    Ensures (w.evict s) h
      (fun s' h' => Working (w.policy schema (.nosortEvict maxOpen)) h' s'.held s'.completed runs ∧
        Cached w maxOpen.1 h' s' ∧ s'.sinks.len < s'.sinks.capacity ∧
        s'.sinks.contains key = false)
      (Failed (w.policy schema (.nosortEvict maxOpen))) := by
  unfold PartitionedOutputWriter.evict
  have hfits : s.sinks.len ≤ s.sinks.capacity := s.sinks.fits
  split
  · rename_i hfull
    obtain ⟨⟨k, evicted⟩, sinks, hpop, hcap, hentries⟩ :=
      LruCache.popLru_of_pos (c := s.sinks) (hfull ▸ s.sinks.pos)
    simp only [hpop]
    have hheld : s.held = evicted :: EvictState.held { s with sinks } := by
      simp [EvictState.held, LruCache.intoIter, hentries]
    rw [hheld] at hw
    apply ((ensures_finish hw rfl).mono (fun _ _ h => h) fun _ _ hfalse => hfalse.elim).bind
    rintro (e | output) h' hr
    · exact ensures_failWith hr (List.Perm.refl _)
    · obtain ⟨⟨sink, output', rfl⟩, hw'⟩ := hr
      have hcache' : Cached w maxOpen.1 h { s with sinks } :=
        ⟨hcap.trans hcache.capacity, fun k t ht => hcache.keyed k t (by simp [hentries, ht]),
          hcache.numbers⟩
      refine ensures_pure ⟨hw', ?_, ?_, ?_⟩
      · exact { hcache'.other (e := .finished sink output') rfl with }
      · have hlen : s.sinks.len = sinks.len + 1 := by simp [LruCache.len, hentries]
        show sinks.len < sinks.capacity
        omega
      · show sinks.contains key = false
        simp only [LruCache.contains, hentries, List.any_append, Bool.or_eq_false_iff] at hnew ⊢
        exact hnew.1
  · exact ensures_pure ⟨hw, hcache, by omega, hnew⟩

theorem ensures_openNumbered {maxOpen : { n : Nat // 0 < n }} {s : EvictState α J}
    (hcache : Cached w maxOpen.1 h s) (hroom : s.sinks.len < s.sinks.capacity)
    (hkey : key = partitionKey w.rendering.format values w.partitionFields)
    (hnew : s.sinks.contains key = false)
    (hw : Working (w.policy schema (.nosortEvict maxOpen)) h s.held s.completed runs) :
    Ensures (w.openNumbered context key values s) h
      (fun s' h' => Working (w.policy schema (.nosortEvict maxOpen)) h' s'.held s'.completed runs ∧
        Cached w maxOpen.1 h' s' ∧ s'.sinks.contains key = true)
      (Failed (w.policy schema (.nosortEvict maxOpen))) := by
  have hmay : ∀ target, (w.policy schema (.nosortEvict maxOpen)).mayOpen h
      ⟨(openedSinks h).length, target, values⟩ (some (s.fileNumber key)) := by
    refine fun target => ⟨?_, ?_, ?_⟩
    · rw [← hw.holds.length_eq, ← hcache.capacity]
      simpa [EvictState.held, LruCache.intoIter, LruCache.len] using hroom
    · intro t ht heq
      have ht : t ∈ s.held := hw.holds.mem_iff.mpr ht
      simp only [EvictState.held, LruCache.intoIter, List.map_reverse, List.mem_reverse,
        List.mem_map] at ht
      obtain ⟨⟨k, t⟩, hmem, rfl⟩ := ht
      have hin : s.sinks.contains key = true := by
        rw [LruCache.contains_iff, hkey]
        have : k = partitionKey w.rendering.format values w.partitionFields := (hcache.keyed k t hmem).trans heq
        exact this ▸ List.mem_map_of_mem hmem
      rw [hnew] at hin
      cases hin
    · rw [hcache.numbers key, hkey]
      rfl
  apply ((ensures_openSink hw hmay).mono (fun _ _ h => h) fun _ _ hfalse => hfalse.elim).bind
  rintro (e | sink) h' hr
  · exact ensures_failWith hr (List.Perm.refl _)
  · obtain ⟨hvalues, rfl, hw'⟩ := hr
    have hsink : w.key sink = key := by rw [PartitionedOutputWriter.key, hvalues, hkey]
    have hentries := LruCache.put_entries sink hnew hroom
    refine ensures_pure ⟨hw'.perm ?_, ⟨hcache.capacity, ?_, ?_⟩, ?_⟩
    · simp only [EvictState.held, LruCache.intoIter, hentries, List.reverse_cons, List.map_append]
      exact List.perm_append_singleton sink _
    · intro k t ht
      rw [hentries] at ht
      rcases List.mem_cons.mp ht with heq | ht
      · obtain ⟨rfl, rfl⟩ := Prod.mk.inj heq
        exact hsink.symm
      · exact hcache.keyed k t ht
    · intro k
      rw [ofKey_opened, hsink, List.length_append, ← hcache.numbers k]
      by_cases hk : k = key
      · subst hk
        simp [EvictState.fileNumber]
      · simp [EvictState.fileNumber, List.lookup_cons, beq_false_of_ne hk, Ne.symm hk]
    · rw [LruCache.contains_iff, hentries]
      simp

theorem ensures_ensureOpen (values : PartitionValues α) {maxOpen : { n : Nat // 0 < n }}
    {s : EvictState α J}
    (hcache : Cached w maxOpen.1 h s)
    (hkey : key = partitionKey w.rendering.format values w.partitionFields)
    (hw : Working (w.policy schema (.nosortEvict maxOpen)) h s.held s.completed runs) :
    Ensures (w.ensureOpen context key values s) h
      (fun s' h' => Working (w.policy schema (.nosortEvict maxOpen)) h' s'.held s'.completed runs ∧
        Cached w maxOpen.1 h' s' ∧ s'.sinks.contains key = true)
      (Failed (w.policy schema (.nosortEvict maxOpen))) := by
  unfold PartitionedOutputWriter.ensureOpen
  split
  · rename_i hin
    exact ensures_pure ⟨hw, hcache, hin⟩
  · rename_i hout
    apply (ensures_evict key hcache (by simpa using hout) hw).bind
    rintro s' h' ⟨hw', hcache', hroom, hnew⟩
    exact ensures_openNumbered hcache' hroom hkey hnew hw'

theorem ensures_writeCached {maxOpen : { n : Nat // 0 < n }} {s : EvictState α J}
    (hc : ContextOf w schema context) (hcache : Cached w maxOpen.1 h s)
    (hkey : key = (w.keying schema).ofRun run) (hin : s.sinks.contains key = true)
    (hw : Working (w.policy schema (.nosortEvict maxOpen)) h s.held s.completed runs) :
    Ensures (w.writeCached context key run s) h
      (fun s' h' => Working (w.policy schema (.nosortEvict maxOpen)) h' s'.held s'.completed
        (runs ++ [run]) ∧ Cached w maxOpen.1 h' s')
      (Failed (w.policy schema (.nosortEvict maxOpen))) := by
  unfold PartitionedOutputWriter.writeCached
  split
  · exact ensures_modify_bind
      (ensures_failWith (hw.failed trivial (hw.holds.other rfl rfl)) (List.Perm.refl _))
  · rename_i projected hproject
    obtain ⟨sink, sinks, hget⟩ := LruCache.getMut_of_contains hin
    obtain ⟨hcap, hmem, hperm⟩ := LruCache.getMut_some hget
    simp only [hget]
    have hheld : (EvictState.held { s with sinks }).Perm s.held := by
      simp only [EvictState.held, LruCache.intoIter]
      exact ((List.reverse_perm _).trans (hperm.trans (List.reverse_perm _).symm)).map _
    have hcache' : Cached w maxOpen.1 h { s with sinks } :=
      ⟨hcap.trans hcache.capacity, fun k t ht => hcache.keyed k t (hperm.mem_iff.mp ht),
        hcache.numbers⟩
    have hsink : sink ∈ EvictState.held { s with sinks } := by
      refine hheld.mem_iff.mpr ?_
      simp only [EvictState.held, LruCache.intoIter, List.map_reverse, List.mem_reverse]
      exact List.mem_map_of_mem hmem
    have hsame : w.key sink = (w.keying schema).ofRun run := (hcache.keyed _ _ hmem).symm.trans hkey
    apply ((ensures_writeBatch (hw.perm hheld) hsink hsame (projectBatch_rows hc hproject)).mono (fun _ _ h => h) fun _ _ hfalse => hfalse.elim).bind
    rintro (e | _) h' hr
    · exact ensures_failWith hr (List.Perm.refl _)
    · obtain ⟨rfl, hw'⟩ := hr
      exact ensures_pure ⟨hw', hcache'.other rfl⟩

theorem ensures_nosortEvictLoop (before : List (PartitionRun α)) {maxOpen : { n : Nat // 0 < n }}
    {s : EvictState α J}
    (hc : ContextOf w schema context) (hcache : Cached w maxOpen.1 h s)
    (hw : Working (w.policy schema (.nosortEvict maxOpen)) h s.held s.completed before) :
    Ensures (w.nosortEvictLoop context items s) h
      (fun report h' => ∃ after, items = after.map .ok ∧
        Succeeded (w.policy schema (.nosortEvict maxOpen)) (before ++ after) report h')
      (Failed (w.policy schema (.nosortEvict maxOpen))) := by
  induction items generalizing h s before with
  | nil =>
    have hperm : (PartitionedOutputWriter.sortByTarget s.held).Perm s.held := List.mergeSort_perm ..
    refine (ensures_finishRemaining rfl (hw.perm hperm)).mono (fun report h' hs => ⟨[], rfl, ?_⟩)
      fun _ _ h => h
    simpa using hs
  | cons item items ih =>
    apply (ensures_receive hw (List.Perm.refl _)).bind
    rintro run _ ⟨rfl, rfl⟩
    rw [hc.fieldOrder]
    apply (ensures_ensureOpen run.values hcache rfl hw).bind
    rintro s₁ h₁ ⟨hw₁, hcache₁, hin⟩
    apply (ensures_writeCached hc hcache₁ rfl hin hw₁).bind
    rintro s₂ h₂ ⟨hw₂, hcache₂⟩
    refine (ih _ hcache₂ hw₂).mono ?_ fun _ _ h => h
    rintro report h' ⟨after, rfl, hs⟩
    exact ⟨run :: after, rfl, by simpa using hs⟩

-- ---------------------------------------------------------------------------
-- A write
-- ---------------------------------------------------------------------------

theorem runs_eq_batchItems (w : PartitionedOutputWriter α J) (stream : SendableRecordBatchStream α) :
    w.runs stream =
      stream.batches.flatMap (PartitionRunStream.batchItems w.rendering.kernel w.partitionFields) := by
  simp [PartitionedOutputWriter.runs, PartitionRunStream.items, PartitionRunStream.new]

/-- A write that returns has delivered every run of its stream. One that does
not has failed a step, aborted what was open and reported what was finished. -/
theorem ensures_write [DecidableEq α] (w : PartitionedOutputWriter α J) (strategy : Strategy)
    (stream : SendableRecordBatchStream α) :
    Ensures (w.write strategy stream) []
      (fun report h => ∃ runs, w.runs stream = runs.map .ok ∧
        Succeeded (w.policy stream.schema strategy) runs report h)
      (Failed (w.policy stream.schema strategy)) := by
  cases strategy with
  | sortSingle =>
    apply (ensures_begin).bind
    rintro context _ ⟨rfl, hc⟩
    refine ensures_sortSingleLoop [] hc ?_ (by simp) .nil
    intro run hrun
    rw [runs_eq_batchItems] at hrun
    exact covers_of_mem_items hrun
  | nosortMulti =>
    apply (ensures_begin).bind
    rintro context _ ⟨rfl, hc⟩
    exact ensures_nosortMultiLoop [] hc ⟨by simp, by simp [openedSinks]⟩ .nil
  | nosortEvict maxOpen =>
    apply (ensures_begin).bind
    rintro context _ ⟨rfl, hc⟩
    refine ensures_nosortEvictLoop [] hc ⟨rfl, ?_, ?_⟩ .nil
    · simp [LruCache.new]
    · simp [EvictState.fileNumber, ofKey, openedSinks]

end SilkChiffon.FileOutput
