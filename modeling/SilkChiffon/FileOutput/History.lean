import SilkChiffon.FileOutput.PartitionRuns
import Mathlib.Data.List.Nodup
import Mathlib.Data.List.Perm.Basic

/-!
# The history of a partitioned write

Everything a write does to its sinks, in order. A history is legal when each
event only touches sinks that are open at that moment and sinks are opened as
the strategy's policy allows. What holds at every moment of a write is what
holds of every legal history.
-/

namespace SilkChiffon.FileOutput

open Arrow

abbrev SinkId := Nat

structure OpenFileSink (α : Type) where
  sink : SinkId
  target : String
  partitionValues : PartitionValues α

structure PartitionFieldValue (J : Type) where
  field : String
  value : J
  deriving DecidableEq, Repr

/-- One sink's completion. It names at least one durable location. -/
structure CompletedFileOutput (J : Type) where
  durableLocations : List String
  located : durableLocations ≠ []
  rowsWritten : Nat
  partitionFields : List (PartitionFieldValue J)

inductive FailedStep
  | validate | stream | openSink | project
  | write (sink : SinkId)
  | finish (sink : SinkId)
  deriving DecidableEq, Repr

/-- A write is of the batch that was projected from the run. An abort is made
in any case; it may report an error. -/
inductive Event (α J : Type)
  | opened (sink : OpenFileSink α) (fileNumber : Option Nat)
  | wrote (sink : SinkId) (run : PartitionRun α) (batch : RecordBatch α)
  | finished (sink : SinkId) (output : CompletedFileOutput J)
  | failed (step : FailedStep)
  | aborted (sink : SinkId) (error : Option Error)

abbrev History (α J : Type) := List (Event α J)

namespace Event

def openedSink : Event α J → Option (OpenFileSink α)
  | opened sink _ => some sink
  | _ => none

/-- `finish` and `abort` take the sink, whatever they return. -/
def consumedSink : Event α J → Option SinkId
  | finished sink _ => some sink
  | failed (.finish sink) => some sink
  | aborted sink _ => some sink
  | _ => none

def output : Event α J → Option (CompletedFileOutput J)
  | finished _ output => some output
  | _ => none

def rowsFor (sink : SinkId) : Event α J → List (Row α)
  | wrote s _ batch => if s = sink then batch.rows else []
  | _ => []

def writtenRun : Event α J → Option (PartitionRun α × SinkId)
  | wrote sink run _ => some (run, sink)
  | _ => none

def isProgress : Event α J → Bool
  | opened .. | wrote .. | finished .. => true
  | failed _ | aborted .. => false

def isAbort : Event α J → Bool
  | aborted .. => true
  | _ => false

def isFailure : Event α J → Bool
  | failed _ => true
  | _ => false

end Event

namespace History

def openedSinks (h : History α J) : List (OpenFileSink α) := h.filterMap Event.openedSink

def consumed (h : History α J) : List SinkId := h.filterMap Event.consumedSink

def live (h : History α J) : List (OpenFileSink α) :=
  (openedSinks h).filter fun s => s.sink ∉ consumed h

def outputs (h : History α J) : List (CompletedFileOutput J) := h.filterMap Event.output

def contents (h : History α J) (sink : SinkId) : List (Row α) := h.flatMap (Event.rowsFor sink)

def written (h : History α J) : List (PartitionRun α × SinkId) := h.filterMap Event.writtenRun

def ofKey (key : OpenFileSink α → String) (h : History α J) (k : String) : List (OpenFileSink α) :=
  (openedSinks h).filter (key · == k)

@[simp] theorem openedSinks_snoc (h : History α J) (e : Event α J) :
    openedSinks (h ++ [e]) = openedSinks h ++ e.openedSink.toList := by
  cases hs : e.openedSink <;> simp [openedSinks, hs]

@[simp] theorem consumed_snoc (h : History α J) (e : Event α J) :
    consumed (h ++ [e]) = consumed h ++ e.consumedSink.toList := by
  cases hs : e.consumedSink <;> simp [consumed, hs]

@[simp] theorem outputs_snoc (h : History α J) (e : Event α J) :
    outputs (h ++ [e]) = outputs h ++ e.output.toList := by
  cases hs : e.output <;> simp [outputs, hs]

@[simp] theorem written_snoc (h : History α J) (e : Event α J) :
    written (h ++ [e]) = written h ++ e.writtenRun.toList := by
  cases hs : e.writtenRun <;> simp [written, hs]

@[simp] theorem contents_snoc (h : History α J) (e : Event α J) (sink : SinkId) :
    contents (h ++ [e]) sink = contents h sink ++ e.rowsFor sink := by
  simp [contents]

end History

-- ---------------------------------------------------------------------------
-- Legal histories
-- ---------------------------------------------------------------------------

open FileOutput.History

/-- The partition keys of sinks and runs, and the rows a run is written as. -/
structure Keying (α : Type) where
  ofSink : OpenFileSink α → String
  ofRun : PartitionRun α → String
  rows : PartitionRun α → List (Row α)

/-- What a strategy keeps to. -/
structure Policy (α J : Type) where
  keying : Keying α
  mayOpen : History α J → OpenFileSink α → Option Nat → Prop
  reports : OpenFileSink α → List (PartitionFieldValue J)

def IsLive (h : History α J) (sink : SinkId) : Prop := ∃ s ∈ live h, s.sink = sink

def Policy.Enabled (policy : Policy α J) (h : History α J) : Event α J → Prop
  | .opened s n => s.sink = (openedSinks h).length ∧ policy.mayOpen h s n
  | .finished sink output =>
    ∃ s ∈ live h, s.sink = sink ∧ output.partitionFields = policy.reports s
  | .wrote sink run batch =>
    ∃ s ∈ live h, s.sink = sink ∧ policy.keying.ofSink s = policy.keying.ofRun run ∧
      batch.rows = policy.keying.rows run
  | .aborted sink _ | .failed (.write sink) | .failed (.finish sink) =>
    IsLive h sink
  | .failed _ => True

inductive Legal (policy : Policy α J) : History α J → Prop
  | nil : Legal policy []
  | snoc : Legal policy h → policy.Enabled h e → Legal policy (h ++ [e])

variable {policy : Policy α J} {h : History α J}

/-- What a legal history is like at one moment, it is like at every earlier one. -/
theorem Legal.of_prefix (hl : Legal policy h) (hp : p <+: h) : Legal policy p := by
  induction hl with
  | nil =>
    obtain rfl := List.prefix_nil.mp hp
    exact .nil
  | snoc hl he ih =>
    rcases List.prefix_concat_iff.mp hp with rfl | hp
    · exact .snoc hl he
    · exact ih hp

theorem Legal.enabled (hl : Legal policy (h ++ [e])) : policy.Enabled h e := by
  generalize hh : h ++ [e] = h' at hl
  cases hl with
  | nil => simp at hh
  | snoc _ he =>
    obtain ⟨rfl, rfl⟩ := List.append_inj' hh rfl |>.imp_right (by simpa using ·)
    exact he

theorem Policy.Enabled.live_of_consumed {e : Event α J} (he : policy.Enabled h e)
    (hs : e.consumedSink = some sink) : IsLive h sink := by
  unfold Event.consumedSink at hs
  split at hs <;> cases hs
  · obtain ⟨s, hs, hsink, _⟩ := he
    exact ⟨s, hs, hsink⟩
  · exact he
  · exact he

theorem isLive_iff : IsLive h sink ↔ (∃ s ∈ openedSinks h, s.sink = sink) ∧ sink ∉ consumed h := by
  simp only [IsLive, live, List.mem_filter, decide_eq_true_eq]
  constructor
  · rintro ⟨s, ⟨hs, hnot⟩, rfl⟩
    exact ⟨⟨s, hs, rfl⟩, hnot⟩
  · rintro ⟨⟨s, hs, rfl⟩, hnot⟩
    exact ⟨s, ⟨hs, hnot⟩, rfl⟩

theorem Legal.ids (hl : Legal policy h) :
    (openedSinks h).map (·.sink) = List.range (openedSinks h).length := by
  induction hl with
  | nil => rfl
  | @snoc h e hl he ih =>
    rw [openedSinks_snoc]
    cases hs : e.openedSink with
    | none => simpa using ih
    | some s =>
      unfold Event.openedSink at hs
      split at hs <;> cases hs
      simp [List.range_succ, ih, he.1]

theorem Legal.sink_lt (hl : Legal policy h) (hs : s ∈ openedSinks h) :
    s.sink < (openedSinks h).length := by
  have : s.sink ∈ (openedSinks h).map (·.sink) := List.mem_map_of_mem hs
  rwa [hl.ids, List.mem_range] at this

theorem Legal.sink_inj (hl : Legal policy h) (hs : s ∈ openedSinks h) (ht : t ∈ openedSinks h)
    (heq : s.sink = t.sink) : s = t := by
  have hnodup : ((openedSinks h).map (·.sink)).Nodup := hl.ids ▸ List.nodup_range
  exact List.inj_on_of_nodup_map hnodup hs ht heq

theorem Legal.consumed (hl : Legal policy h) :
    (consumed h).Nodup ∧ ∀ sink ∈ consumed h, ∃ s ∈ openedSinks h, s.sink = sink := by
  induction hl with
  | nil => exact ⟨List.nodup_nil, by simp [History.consumed]⟩
  | @snoc h e hl he ih =>
    rw [consumed_snoc, openedSinks_snoc]
    cases hs : e.consumedSink with
    | none =>
      refine ⟨by simpa using ih.1, fun sink hsink => ?_⟩
      obtain ⟨s, hmem, heq⟩ := ih.2 sink (by simpa using hsink)
      exact ⟨s, List.mem_append_left _ hmem, heq⟩
    | some sink =>
      obtain ⟨hopened, hnot⟩ := isLive_iff.mp (he.live_of_consumed hs)
      refine ⟨?_, fun other hother => ?_⟩
      · simpa [List.nodup_append, ih.1] using fun a ha (heq : a = sink) => hnot (heq ▸ ha)
      · obtain ⟨s, hmem, heq⟩ : ∃ s ∈ openedSinks h, s.sink = other := by
          rcases List.mem_append.mp hother with hother | hother
          · exact ih.2 other hother
          · obtain rfl : other = sink := by simpa using hother
            exact hopened
        exact ⟨s, List.mem_append_left _ hmem, heq⟩

-- ---------------------------------------------------------------------------
-- The open sinks
-- ---------------------------------------------------------------------------

theorem live_nodup (hl : Legal policy h) : (live h).Nodup := by
  have : ((openedSinks h).map (·.sink)).Nodup := hl.ids ▸ List.nodup_range
  exact (this.of_map _).filter _

theorem live_subset : live h ⊆ openedSinks h := List.filter_subset_self _

theorem live_opened (hl : Legal policy h) (hs : s.sink = (openedSinks h).length) :
    live (h ++ [.opened s n]) = live h ++ [s] := by
  have hnot : s.sink ∉ History.consumed h := by
    intro hmem
    obtain ⟨t, ht, heq⟩ := hl.consumed.2 _ hmem
    exact absurd (heq.trans hs) (Nat.ne_of_lt (hl.sink_lt ht))
  simp [live, Event.openedSink, Event.consumedSink, hnot]

theorem live_consumed {e : Event α J} (ho : e.openedSink = none) (hc : e.consumedSink = some sink) :
    live (h ++ [e]) = (live h).filter (·.sink ≠ sink) := by
  simp only [live, openedSinks_snoc, consumed_snoc, ho, hc, Option.toList_none, Option.toList_some,
    List.append_nil, List.filter_filter]
  refine List.filter_congr fun s _ => ?_
  simp [and_comm]

theorem live_other {e : Event α J} (ho : e.openedSink = none) (hc : e.consumedSink = none) :
    live (h ++ [e]) = live h := by
  simp [live, ho, hc]

def Holds (h : History α J) (held : List (OpenFileSink α)) : Prop := held.Perm (live h)

theorem Holds.mem (hh : Holds h held) (hs : s ∈ held) : s ∈ live h := hh.mem_iff.mp hs

theorem Holds.perm (hh : Holds h held) (hp : held'.Perm held) : Holds h held' := hp.trans hh

theorem Holds.opened (hh : Holds h held) (hl : Legal policy h)
    (hs : s.sink = (openedSinks h).length) : Holds (h ++ [.opened s n]) (s :: held) := by
  rw [Holds, live_opened hl hs]
  exact (hh.cons s).trans (List.perm_append_singleton s _).symm

theorem Holds.consume {e : Event α J} (hh : Holds h (s :: held)) (hl : Legal policy h)
    (ho : e.openedSink = none) (hc : e.consumedSink = some s.sink) : Holds (h ++ [e]) held := by
  rw [Holds, live_consumed ho hc]
  have hnodup : (s :: held).Nodup := hh.nodup_iff.mpr (live_nodup hl)
  have hfilter := hh.filter (·.sink ≠ s.sink)
  have hkeep : held.filter (·.sink ≠ s.sink) = held := by
    rw [List.filter_eq_self]
    intro t ht
    have hne : t ≠ s := fun heq => (List.nodup_cons.mp hnodup).1 (heq ▸ ht)
    simpa using fun heq => hne (hl.sink_inj (live_subset (hh.mem (List.mem_cons_of_mem _ ht)))
      (live_subset (hh.mem (by simp))) heq)
  rw [List.filter_cons_of_neg (by simp), hkeep] at hfilter
  exact hfilter

theorem Holds.other {e : Event α J} (hh : Holds h held) (ho : e.openedSink = none)
    (hc : e.consumedSink = none) : Holds (h ++ [e]) held := by
  rw [Holds, live_other ho hc]
  exact hh

theorem Legal.consumed_perm (hl : Legal policy h) (hnone : live h = []) :
    (History.consumed h).Perm ((openedSinks h).map (·.sink)) := by
  have hnodup : ((openedSinks h).map (·.sink)).Nodup := hl.ids ▸ List.nodup_range
  rw [List.perm_ext_iff_of_nodup hl.consumed.1 hnodup]
  intro sink
  constructor
  · intro hsink
    obtain ⟨s, hs, rfl⟩ := hl.consumed.2 sink hsink
    exact List.mem_map_of_mem hs
  · intro hsink
    obtain ⟨s, hs, rfl⟩ := List.mem_map.mp hsink
    by_contra hnot
    have : s ∈ live h := List.mem_filter.mpr ⟨hs, by simpa using hnot⟩
    simp [hnone] at this

-- ---------------------------------------------------------------------------
-- One open sink for each key
-- ---------------------------------------------------------------------------

def Policy.Exclusive (policy : Policy α J) : Prop :=
  ∀ h s n, policy.mayOpen h s n → ∀ t ∈ live h, policy.keying.ofSink t ≠ policy.keying.ofSink s

theorem ofKey_opened (key : OpenFileSink α → String) (h : History α J) :
    ofKey key (h ++ [.opened s n]) k = ofKey key h k ++ if key s = k then [s] else [] := by
  by_cases hk : key s = k <;> simp [ofKey, Event.openedSink, hk]

theorem ofKey_other {key : OpenFileSink α → String} {e : Event α J} (ho : e.openedSink = none) :
    ofKey key (h ++ [e]) k = ofKey key h k := by
  simp [ofKey, ho]

theorem live_of_snoc {e : Event α J} (ho : e.openedSink = none) (hs : s ∈ live (h ++ [e])) :
    s ∈ live h := by
  cases hc : e.consumedSink with
  | none => rwa [live_other ho hc] at hs
  | some sink =>
    rw [live_consumed ho hc] at hs
    exact List.mem_of_mem_filter hs

theorem Legal.last_of_live (hx : policy.Exclusive) (hl : Legal policy h) (hs : s ∈ live h) :
    (ofKey policy.keying.ofSink h (policy.keying.ofSink s)).getLast? = some s := by
  induction hl with
  | nil => simp [live, openedSinks] at hs
  | @snoc h e hl he ih =>
    cases ho : e.openedSink with
    | none =>
      rw [ofKey_other ho]
      exact ih (live_of_snoc ho hs)
    | some t =>
      unfold Event.openedSink at ho
      split at ho <;> cases ho
      rw [live_opened hl he.1] at hs
      rw [ofKey_opened]
      rcases List.mem_append.mp hs with hs | hs
      · simpa [(hx _ _ _ he.2 s hs).symm] using ih hs
      · obtain rfl := List.mem_singleton.mp hs
        simp

theorem Legal.live_keys_nodup (hx : policy.Exclusive) (hl : Legal policy h) :
    ((live h).map policy.keying.ofSink).Nodup := by
  refine (List.nodup_map_iff_inj_on (live_nodup hl)).mpr fun s hs t ht heq => ?_
  have hlast := hl.last_of_live hx hs
  rw [heq, hl.last_of_live hx ht] at hlast
  exact (Option.some.inj hlast).symm

end SilkChiffon.FileOutput
