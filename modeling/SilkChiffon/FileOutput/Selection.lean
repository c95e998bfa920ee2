import SilkChiffon.FileOutput.Strategies

/-!
# Which runs are written

Whatever a write ends with, the runs it has written are the first ones of its
stream, in order. Every step but a write to a sink leaves them alone, and under
`sort-single` a sink only ever gets runs of its own partition values.
-/

namespace SilkChiffon.FileOutput

open Arrow FileOutput.History Effects

variable {w : PartitionedOutputWriter α J} {h h' : History α J}

-- ---------------------------------------------------------------------------
-- Steps that write nothing
-- ---------------------------------------------------------------------------

structure Frames (h h' : History α J) : Prop where
  written : written h' = written h
  opened : openedSinks h ⊆ openedSinks h'

theorem Frames.refl (h : History α J) : Frames h h := ⟨rfl, List.Subset.refl _⟩

theorem Frames.trans (hf : Frames h h') (hf' : Frames h' h'') : Frames h h'' :=
  ⟨hf'.written.trans hf.written, List.Subset.trans hf.opened hf'.opened⟩

theorem frames_snoc {e : Event α J} (he : e.writtenRun = none) : Frames h (h ++ [e]) :=
  ⟨by simp [he], by simp⟩

def Unwritten (x : Write α J β) : Prop :=
  ∀ h, Ensures x h (fun _ h' => Frames h h') fun _ h' => Frames h h'

theorem unwritten_pure (b : β) : Unwritten (pure b : Write α J β) := fun h =>
  ensures_pure (.refl h)

theorem unwritten_throw (halt : Halt J) : Unwritten (throw halt : Write α J β) := fun h =>
  ensures_throw (.refl h)

theorem Unwritten.bind {x : Write α J β} {f : β → Write α J γ} (hx : Unwritten x)
    (hf : ∀ b, Unwritten (f b)) : Unwritten (x >>= f) := fun h => by
  apply Ensures.bind (Q := fun _ h' => Frames h h') (hx h)
  exact fun b h' hframes => (hf b h').mono (fun _ _ h => hframes.trans h) fun _ _ h =>
    hframes.trans h

theorem unwritten_get_bind {f : History α J → Write α J γ} (hf : ∀ h, Unwritten (f h)) :
    Unwritten (get >>= f) := fun h => ensures_get_bind (hf h h)

theorem unwritten_record_bind {e : Event α J} {f : PUnit → Write α J γ} (he : e.writtenRun = none)
    (hf : Unwritten (f ⟨⟩)) : Unwritten (record e >>= f) := fun _ =>
  ensures_modify_bind ((hf _).mono (fun _ _ h' => (frames_snoc he).trans h') fun _ _ h' =>
    (frames_snoc he).trans h')

theorem unwritten_abortEach (sinks : List (OpenFileSink α)) (errors : List Error) :
    Unwritten (w.abortEach sinks errors) := by
  induction sinks generalizing errors with
  | nil => exact unwritten_pure _
  | cons sink sinks ih =>
    apply unwritten_get_bind
    intro h
    split
    · exact unwritten_record_bind rfl (ih _)
    · exact unwritten_record_bind rfl (ih _)

theorem ensures_failWith_frames {R : β → History α J → Prop} (primary : Error)
    (completed : List (CompletedFileOutput J)) (sinks : List (OpenFileSink α)) :
    Ensures (w.failWith primary completed sinks) h R fun _ h' => Frames h h' := by
  apply Ensures.bind (Q := fun _ h' => Frames h h') (unwritten_abortEach _ _ h)
  exact fun _ h' hframes => ensures_throw hframes

theorem unwritten_failWith (primary : Error) (completed : List (CompletedFileOutput J))
    (sinks : List (OpenFileSink α)) : Unwritten (w.failWith primary completed sinks : Write α J β) :=
  fun _ => ensures_failWith_frames primary completed sinks

theorem ensures_receive_frames (completed : List (CompletedFileOutput J))
    (sinks : List (OpenFileSink α)) (item : Except Error (PartitionRun α)) :
    Ensures (w.receive completed sinks item) h (fun run h' => h' = h ∧ item = .ok run)
      fun _ h' => Frames h h' := by
  cases item with
  | ok run => exact ensures_pure ⟨rfl, rfl⟩
  | error primary =>
    refine ensures_modify_bind ((ensures_failWith_frames _ _ _).mono (fun _ _ h => h) ?_)
    exact fun _ _ h => (frames_snoc rfl).trans h

theorem unwritten_openSink (values : PartitionValues α) (schema : Schema) (n : Option Nat) :
    Unwritten (w.openSink values schema n) := by
  apply unwritten_get_bind
  intro h
  split
  · exact unwritten_record_bind rfl (unwritten_pure _)
  · exact unwritten_record_bind rfl (unwritten_pure _)

theorem unwritten_finish (sink : OpenFileSink α) : Unwritten (w.finish sink) := by
  apply unwritten_get_bind
  intro h
  split
  · exact unwritten_record_bind rfl (unwritten_pure _)
  · exact unwritten_record_bind rfl (unwritten_pure _)

theorem unwritten_finishRemaining (sinks : List (OpenFileSink α))
    (completed : List (CompletedFileOutput J)) : Unwritten (w.finishRemaining sinks completed) := by
  induction sinks generalizing completed with
  | nil => exact unwritten_pure _
  | cons sink sinks ih =>
    apply (unwritten_finish sink).bind
    rintro (e | output)
    · exact unwritten_failWith _ _ _
    · exact ih _

theorem unwritten_begin (schema : Schema) : Unwritten (w.begin schema) := by
  unfold PartitionedOutputWriter.begin
  split
  · exact unwritten_pure _
  · exact unwritten_record_bind rfl (unwritten_throw _)

-- ---------------------------------------------------------------------------
-- A write to a sink
-- ---------------------------------------------------------------------------

structure Wrote (h h' : History α J) (run : PartitionRun α) (sink : SinkId) : Prop where
  written : written h' = written h ++ [(run, sink)]
  opened : openedSinks h' = openedSinks h

theorem ensures_writeBatch_wrote (sink : OpenFileSink α) (run : PartitionRun α)
    (batch : RecordBatch α) :
    Ensures (w.writeBatch sink run batch) h
      (fun r h' => match r with
        | .ok _ => Wrote h h' run sink.sink
        | .error _ => Frames h h')
      fun _ _ => False := by
  apply ensures_get_bind
  split
  · exact ensures_modify_bind (ensures_pure ⟨by simp [Event.writtenRun], by simp [Event.openedSink]⟩)
  · exact ensures_modify_bind (ensures_pure (frames_snoc rfl))

theorem ensures_writeRun_wrote {context : PartitionProjection} (sink : OpenFileSink α)
    (run : PartitionRun α) :
    Ensures (w.writeRun context completed sinks sink run) h
      (fun _ h' => Wrote h h' run sink.sink) (fun _ h' => Frames h h') := by
  unfold PartitionedOutputWriter.writeRun
  split
  · refine ensures_modify_bind ((ensures_failWith_frames _ _ _).mono (fun _ _ h => h) ?_)
    exact fun _ _ hframes => (frames_snoc rfl).trans hframes
  · apply ((ensures_writeBatch_wrote sink run _).mono (fun _ _ h => h)
      fun _ _ hfalse => hfalse.elim).bind
    rintro (e | _) h' hr
    · exact (ensures_failWith_frames _ _ _).mono (fun _ _ h => h) fun _ _ h => hr.trans h
    · exact ensures_pure hr

-- ---------------------------------------------------------------------------
-- sort-single
-- ---------------------------------------------------------------------------

def Begins (all : List (Except Error (PartitionRun α))) (h : History α J) : Prop :=
  (written h).map (fun p => .ok p.1) <+: all

def Follows (all items : List (Except Error (PartitionRun α))) (h : History α J) : Prop :=
  (written h).map (fun p => .ok p.1) ++ items = all

theorem Follows.frames (hf : Follows all items h) (hframes : Frames h h') :
    Follows all items h' := by
  rw [Follows, hframes.written]
  exact hf

theorem Follows.wrote (hf : Follows all (.ok run :: items) h) (hw : Wrote h h' run sink) :
    Follows all items h' := by
  rw [Follows, hw.written]
  simpa [Follows] using hf

theorem Follows.begins (hf : Follows all items h) : Begins all h := ⟨items, hf⟩

theorem Follows.framed (hf : Follows all items h) (hframes : Frames h h') : Begins all h' :=
  (hf.frames hframes).begins

def ValuesKept (columns : List String) (h : History α J) : Prop :=
  ∀ p ∈ written h, ∃ s ∈ openedSinks h, s.sink = p.2 ∧
    ∀ name ∈ columns, s.partitionValues.get name = p.1.values.get name

theorem ValuesKept.frames (hv : ValuesKept columns h) (hf : Frames h h') :
    ValuesKept columns h' := by
  intro p hp
  rw [hf.written] at hp
  obtain ⟨s, hs, hrest⟩ := hv p hp
  exact ⟨s, hf.opened hs, hrest⟩

theorem ValuesKept.wrote (hv : ValuesKept columns h) (hw : Wrote h h' run s.sink)
    (hs : s ∈ openedSinks h)
    (hsame : ∀ name ∈ columns, s.partitionValues.get name = run.values.get name) :
    ValuesKept columns h' := by
  intro p hp
  rw [hw.written] at hp
  rw [hw.opened]
  rcases List.mem_append.mp hp with hp | hp
  · exact hv p hp
  · obtain rfl := List.mem_singleton.mp hp
    exact ⟨s, hs, rfl, hsame⟩

/-- What was written is a beginning of the stream, in sinks of its values. -/
def Selected (columns : List String) (all : List (Except Error (PartitionRun α)))
    (h : History α J) : Prop := Begins all h ∧ ValuesKept columns h

theorem ensures_finishChanged_frames [DecidableEq α] (values : PartitionValues α)
    (completed : List (CompletedFileOutput J)) (current : Option (OpenFileSink α)) :
    Ensures (w.finishChanged values completed current) h
      (fun r h' => Frames h h' ∧ ∀ s, r.1 = some s → current = some s ∧
        partitionValuesEqual s.partitionValues values = true)
      (fun _ h' => Frames h h') := by
  cases current with
  | none => exact ensures_pure ⟨.refl h, by simp⟩
  | some sink =>
    simp only [PartitionedOutputWriter.finishChanged]
    split
    · rename_i hequal
      refine ensures_pure ⟨.refl h, ?_⟩
      rintro s ⟨rfl⟩
      exact ⟨rfl, hequal⟩
    · apply Ensures.bind (Q := fun _ h' => Frames h h') (unwritten_finish sink h)
      rintro (e | output) h' hf
      · exact ensures_throw hf
      · exact ensures_pure ⟨hf, by simp⟩

theorem ensures_openMissing_frames {context : PartitionProjection} (values : PartitionValues α)
    (completed : List (CompletedFileOutput J)) (current : Option (OpenFileSink α)) :
    Ensures (w.openMissing context values completed current) h
      (fun sink h' => Frames h h' ∧
        (current = some sink ∨ sink ∈ openedSinks h' ∧ sink.partitionValues = values))
      (fun _ h' => Frames h h') := by
  cases current with
  | some sink => exact ensures_pure ⟨.refl h, .inl rfl⟩
  | none =>
    have hopen : Ensures (w.openSink values context.projectedSchema none) h
        (fun r h' => Frames h h' ∧ ∀ s, r = .ok s → s ∈ openedSinks h' ∧ s.partitionValues = values)
        fun _ h' => Frames h h' := by
      apply ensures_get_bind
      split
      · refine ensures_modify_bind (ensures_pure ⟨frames_snoc rfl, ?_⟩)
        rintro s ⟨⟩
        exact ⟨by simp [Event.openedSink], rfl⟩
      · exact ensures_modify_bind (ensures_pure ⟨frames_snoc rfl, by simp⟩)
    apply hopen.bind
    rintro (e | sink) h' ⟨hf, hsink⟩
    · exact ensures_throw hf
    · exact ensures_pure ⟨hf, .inr (hsink sink rfl)⟩

theorem Selected.frames (hs : Selected columns all h) (hf : Frames h h') :
    Selected columns all h' := by
  refine ⟨?_, hs.2.frames hf⟩
  rw [Begins, hf.written]
  exact hs.1

theorem ensures_sortSingleLoop_selected [DecidableEq α] {context : PartitionProjection}
    {completed : List (CompletedFileOutput J)} {current : Option (OpenFileSink α)}
    (hcovers : ∀ run, .ok run ∈ items → run.values.Covers columns)
    (hcurrent : ∀ s, current = some s → s ∈ openedSinks h ∧ s.partitionValues.Covers columns)
    (hf : Follows all items h) (hv : ValuesKept columns h) :
    Ensures (w.sortSingleLoop context items current completed) h
      (fun _ h' => Selected columns all h') (fun _ h' => Selected columns all h') := by
  induction items generalizing h current completed with
  | nil =>
    have hselected : Selected columns all h := ⟨hf.begins, hv⟩
    exact (unwritten_finishRemaining _ _ h).mono (fun _ _ h => hselected.frames h)
      fun _ _ h => hselected.frames h
  | cons item items ih =>
    have hselected : Selected columns all h := ⟨hf.begins, hv⟩
    apply ((ensures_receive_frames completed current.toList item).mono (fun _ _ h => h)
      fun _ _ h => hselected.frames h).bind
    rintro run _ ⟨rfl, rfl⟩
    have hrun := hcovers run (by simp)
    apply ((ensures_finishChanged_frames run.values completed current).mono (fun _ _ h => h)
      fun _ _ h => hselected.frames h).bind
    rintro ⟨kept, completed⟩ h₁ ⟨hf₁, hkept⟩
    apply ((ensures_openMissing_frames run.values completed kept).mono (fun _ _ h => h)
      fun _ _ h => hselected.frames (hf₁.trans h)).bind
    rintro sink h₂ ⟨hf₂, hsink⟩
    have hf₂ := hf₁.trans hf₂
    have hsame : sink ∈ openedSinks h₂ ∧ sink.partitionValues.Covers columns ∧
        ∀ name ∈ columns, sink.partitionValues.get name = run.values.get name := by
      rcases hsink with hold | ⟨hmem, hnew⟩
      · obtain ⟨hold, hequal⟩ := hkept sink hold
        obtain ⟨hmem, hcov⟩ := hcurrent sink hold
        exact ⟨hf₂.opened hmem, hcov, get_eq_of_equal hcov hequal⟩
      · exact ⟨hmem, hnew ▸ hrun, fun _ _ => by rw [hnew]⟩
    obtain ⟨hmem, hcov, hequal⟩ := hsame
    apply ((ensures_writeRun_wrote sink run).mono (fun _ _ h => h)
      fun _ _ h => hselected.frames (hf₂.trans h)).bind
    rintro _ h₃ hwrote
    refine ih (fun r hr => hcovers r (List.mem_cons_of_mem _ hr)) ?_ ((hf.frames hf₂).wrote hwrote)
      ((hv.frames hf₂).wrote hwrote hmem hequal)
    rintro s ⟨rfl⟩
    exact ⟨hwrote.opened ▸ hmem, hcov⟩

-- ---------------------------------------------------------------------------
-- nosort-multi
-- ---------------------------------------------------------------------------

theorem unwritten_entry {context : PartitionProjection} (values : PartitionValues α)
    (sinks : SinkMap α) : Unwritten (w.entry context values sinks) := by
  unfold PartitionedOutputWriter.entry
  cases hlookup : sinks.lookup (partitionKey w.rendering.format values context.fieldOrder) with
  | some sink =>
    simp only [hlookup]
    exact unwritten_pure _
  | none =>
    simp only [hlookup]
    apply (unwritten_openSink values context.projectedSchema none).bind
    rintro (e | sink)
    · exact unwritten_failWith _ _ _
    · exact unwritten_pure _

theorem ensures_nosortMultiLoop_begins {context : PartitionProjection} {sinks : SinkMap α}
    (hf : Follows all items h) :
    Ensures (w.nosortMultiLoop context items sinks) h (fun _ h' => Begins all h')
      (fun _ h' => Begins all h') := by
  induction items generalizing h sinks with
  | nil =>
    exact (unwritten_finishRemaining _ _ h).mono (fun _ _ h => hf.framed h) fun _ _ h => hf.framed h
  | cons item items ih =>
    apply ((ensures_receive_frames _ _ item).mono (fun _ _ h => h) fun _ _ h => hf.framed h).bind
    rintro run _ ⟨rfl, rfl⟩
    apply ((unwritten_entry run.values sinks _).mono (fun _ _ h => h) fun _ _ h => hf.framed h).bind
    rintro ⟨sink, sinks⟩ h₁ hf₁
    apply ((ensures_writeRun_wrote sink run).mono (fun _ _ h => h)
      fun _ _ h => hf.framed (hf₁.trans h)).bind
    exact fun _ h₂ hwrote => ih ((hf.frames hf₁).wrote hwrote)

-- ---------------------------------------------------------------------------
-- nosort-evict
-- ---------------------------------------------------------------------------

theorem unwritten_evict (s : EvictState α J) : Unwritten (w.evict s) := by
  unfold PartitionedOutputWriter.evict
  split
  · split
    · exact unwritten_throw _
    · apply (unwritten_finish _).bind
      rintro (e | output)
      · exact unwritten_failWith _ _ _
      · exact unwritten_pure _
  · exact unwritten_pure _

theorem unwritten_ensureOpen {context : PartitionProjection} (key : String)
    (values : PartitionValues α) (s : EvictState α J) :
    Unwritten (w.ensureOpen context key values s) := by
  unfold PartitionedOutputWriter.ensureOpen
  split
  · exact unwritten_pure _
  · apply (unwritten_evict s).bind
    intro s
    apply (unwritten_openSink values context.projectedSchema (some (s.fileNumber key))).bind
    rintro (e | sink)
    · exact unwritten_failWith _ _ _
    · exact unwritten_pure _

theorem ensures_writeCached_wrote {context : PartitionProjection} (key : String)
    (run : PartitionRun α) (s : EvictState α J) :
    Ensures (w.writeCached context key run s) h (fun _ h' => ∃ sink, Wrote h h' run sink)
      (fun _ h' => Frames h h') := by
  unfold PartitionedOutputWriter.writeCached
  split
  · refine ensures_modify_bind ((ensures_failWith_frames _ _ _).mono (fun _ _ h => h) ?_)
    exact fun _ _ hframes => (frames_snoc rfl).trans hframes
  · split
    · exact ensures_throw (.refl h)
    · rename_i sink sinks _
      apply ((ensures_writeBatch_wrote sink run _).mono (fun _ _ h => h)
        fun _ _ hfalse => hfalse.elim).bind
      rintro (e | _) h' hr
      · exact (ensures_failWith_frames _ _ _).mono (fun _ _ h => h) fun _ _ h => hr.trans h
      · exact ensures_pure ⟨sink.sink, hr⟩

theorem ensures_nosortEvictLoop_begins {context : PartitionProjection} {s : EvictState α J}
    (hf : Follows all items h) :
    Ensures (w.nosortEvictLoop context items s) h (fun _ h' => Begins all h')
      (fun _ h' => Begins all h') := by
  induction items generalizing h s with
  | nil =>
    exact (unwritten_finishRemaining _ _ h).mono (fun _ _ h => hf.framed h) fun _ _ h => hf.framed h
  | cons item items ih =>
    apply ((ensures_receive_frames _ _ item).mono (fun _ _ h => h) fun _ _ h => hf.framed h).bind
    rintro run _ ⟨rfl, rfl⟩
    apply ((unwritten_ensureOpen _ run.values s _).mono (fun _ _ h => h)
      fun _ _ h => hf.framed h).bind
    rintro s₁ h₁ hf₁
    apply ((ensures_writeCached_wrote _ run s₁).mono (fun _ _ h => h)
      fun _ _ h => hf.framed (hf₁.trans h)).bind
    rintro s₂ h₂ ⟨sink, hwrote⟩
    exact ih ((hf.frames hf₁).wrote hwrote)

-- ---------------------------------------------------------------------------
-- A write
-- ---------------------------------------------------------------------------

/-- At the end of any write, failed or not, what was written is a beginning of
the stream, under `sort-single` in sinks of its values. -/
theorem ensures_write_selected [DecidableEq α] (w : PartitionedOutputWriter α J)
    (strategy : Strategy) (stream : SendableRecordBatchStream α) :
    Ensures (w.write strategy stream) []
      (fun _ h => Begins (w.runs stream) h ∧
        (strategy = .sortSingle → ValuesKept w.partitionFields h))
      (fun _ h => Begins (w.runs stream) h ∧
        (strategy = .sortSingle → ValuesKept w.partitionFields h)) := by
  have hbegin : ∀ {h : History α J}, Frames [] h → written h = [] := fun hf => by
    simpa [written] using hf.written
  have hfollows : ∀ {h : History α J}, Frames [] h → Follows (w.runs stream) (w.runs stream) h :=
    fun hf => by simp [Follows, hbegin hf]
  have hfailed : ∀ h : History α J, Frames [] h → Begins (w.runs stream) h ∧
      (strategy = .sortSingle → ValuesKept w.partitionFields h) := fun h hf => by
    simp [Begins, ValuesKept, hbegin hf]
  have hother : ∀ {other : Strategy} {h : History α J}, other ≠ .sortSingle →
      Begins (w.runs stream) h → Begins (w.runs stream) h ∧
        (other = .sortSingle → ValuesKept w.partitionFields h) :=
    fun hne hbegins => ⟨hbegins, fun heq => absurd heq hne⟩
  cases strategy with
  | sortSingle =>
    apply Ensures.bind (Q := fun _ h => Frames [] h)
      ((unwritten_begin stream.schema []).mono (fun _ _ h => h) fun _ h hf => hfailed h hf)
    intro context h hf
    have hcovers : ∀ run, .ok run ∈ w.runs stream → run.values.Covers w.partitionFields := by
      intro run hrun
      rw [runs_eq_batchItems] at hrun
      exact covers_of_mem_items hrun
    refine (ensures_sortSingleLoop_selected hcovers (by simp) (hfollows hf) ?_).mono ?_ ?_
    · simp [ValuesKept, hbegin hf]
    · exact fun _ _ h => ⟨h.1, fun _ => h.2⟩
    · exact fun _ _ h => ⟨h.1, fun _ => h.2⟩
  | nosortMulti =>
    apply Ensures.bind (Q := fun _ h => Frames [] h)
      ((unwritten_begin stream.schema []).mono (fun _ _ h => h) fun _ h hf => hfailed h hf)
    intro context h hf
    have hne : Strategy.nosortMulti ≠ .sortSingle := by simp
    exact (ensures_nosortMultiLoop_begins (hfollows hf)).mono (fun _ _ => hother hne)
      fun _ _ => hother hne
  | nosortEvict maxOpen =>
    apply Ensures.bind (Q := fun _ h => Frames [] h)
      ((unwritten_begin stream.schema []).mono (fun _ _ h => h) fun _ h hf => hfailed h hf)
    intro context h hf
    have hne : Strategy.nosortEvict maxOpen ≠ .sortSingle := by simp
    exact (ensures_nosortEvictLoop_begins (hfollows hf)).mono (fun _ _ => hother hne)
      fun _ _ => hother hne

end SilkChiffon.FileOutput
