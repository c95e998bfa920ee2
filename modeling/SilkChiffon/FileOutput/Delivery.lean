import SilkChiffon.FileOutput.History

/-!
# Where the rows of the runs are

In a legal history the written runs are in the sinks: each one in the sink it
was written to, in order, and for each key the sinks in the order they were
opened hold that key's runs in order.
-/

namespace SilkChiffon.FileOutput

open Arrow FileOutput.History

structure Delivered (K : Keying α) (h : History α J) : Prop where
  contents : ∀ sink, contents h sink =
    ((written h).filter (·.2 == sink)).flatMap fun p => K.rows p.1
  keyed : ∀ p ∈ written h, ∃ s ∈ openedSinks h, s.sink = p.2 ∧ K.ofSink s = K.ofRun p.1
  byKey : ∀ k, (ofKey K.ofSink h k).flatMap (fun s => History.contents h s.sink) =
    (((written h).map (·.1)).filter (K.ofRun · == k)).flatMap K.rows

variable {K : Keying α} {h : History α J} {policy : Policy α J}

theorem Delivered.nil : Delivered K ([] : History α J) :=
  ⟨fun _ => rfl, by simp [written], fun _ => rfl⟩

theorem Delivered.contents_eq_nil (hd : Delivered K h)
    (hnone : ∀ s ∈ openedSinks h, s.sink ≠ sink) : History.contents h sink = [] := by
  have : (written h).filter (·.2 == sink) = [] := by
    rw [List.filter_eq_nil_iff]
    intro p hp
    obtain ⟨s, hs, heq, _⟩ := hd.keyed p hp
    simpa [← heq] using hnone s hs
  rw [hd.contents sink, this, List.flatMap_nil]

theorem Delivered.opened (hd : Delivered K h) (hl : Legal policy h)
    (hs : s.sink = (openedSinks h).length) : Delivered K (h ++ [.opened s n]) := by
  have hsame : ∀ sink, History.contents (h ++ [.opened s n]) sink = History.contents h sink := by
    simp [Event.rowsFor]
  have hwritten : written (h ++ [.opened s n]) = written h := by simp [Event.writtenRun]
  refine ⟨fun sink => ?_, fun p hp => ?_, fun k => ?_⟩
  · rw [hsame, hwritten, hd.contents]
  · obtain ⟨t, ht, hp⟩ := hd.keyed p (hwritten ▸ hp)
    exact ⟨t, by simp [ht], hp⟩
  · have hfresh : History.contents h s.sink = [] := by
      refine hd.contents_eq_nil fun t ht heq => ?_
      exact absurd (heq.trans hs) (Nat.ne_of_lt (hl.sink_lt ht))
    simp only [hsame]
    rw [hwritten, ← hd.byKey k, ofKey_opened]
    by_cases hk : K.ofSink s = k <;> simp [hk, hfresh]

theorem Delivered.other (hd : Delivered K h) (ho : e.openedSink = none) (hw : e.writtenRun = none)
    (hr : ∀ sink, e.rowsFor sink = []) : Delivered K (h ++ [e]) := by
  have hsame : ∀ sink, History.contents (h ++ [e]) sink = History.contents h sink := by simp [hr]
  have hsinks : openedSinks (h ++ [e]) = openedSinks h := by simp [ho]
  have hwritten : written (h ++ [e]) = written h := by simp [hw]
  refine ⟨fun sink => ?_, fun p hp => ?_, fun k => ?_⟩
  · rw [hsame, hwritten, hd.contents]
  · rw [hsinks]
    exact hd.keyed p (hwritten ▸ hp)
  · simp only [hsame, hwritten, ofKey_other ho]
    exact hd.byKey k

theorem contents_wrote_others {sinks : List (OpenFileSink α)} (hl : Legal policy h) (hmem : s ∈ openedSinks h)
    (hsub : ∀ t ∈ sinks, t ∈ openedSinks h) (hnot : s ∉ sinks) :
    sinks.flatMap (fun t => History.contents (h ++ [.wrote s.sink run batch]) t.sink) =
      sinks.flatMap fun t => History.contents h t.sink := by
  refine List.flatMap_congr fun t ht => ?_
  have hne : s.sink ≠ t.sink := fun heq => hnot (hl.sink_inj hmem (hsub t ht) heq ▸ ht)
  simp [Event.rowsFor, hne]

theorem Delivered.wrote (hd : Delivered K h) (hl : Legal policy h)
    (hlast : (ofKey K.ofSink h (K.ofSink s)).getLast? = some s) (hkey : K.ofSink s = K.ofRun run)
    (hrows : batch.rows = K.rows run) : Delivered K (h ++ [.wrote s.sink run batch]) := by
  have hof : ∀ {k t}, t ∈ ofKey K.ofSink h k → t ∈ openedSinks h := fun ht => List.mem_of_mem_filter ht
  have hmem : s ∈ openedSinks h := hof (List.mem_of_getLast? hlast)
  have hwritten : written (h ++ [.wrote s.sink run batch]) = written h ++ [(run, s.sink)] := by
    simp [Event.writtenRun]
  refine ⟨fun sink => ?_, fun p hp => ?_, fun k => ?_⟩
  · rw [contents_snoc, hd.contents sink, hwritten, Event.rowsFor, List.filter_append,
      List.flatMap_append]
    by_cases hs : s.sink = sink <;> simp [hs, hrows]
  · rw [openedSinks_snoc]
    rw [hwritten] at hp
    rcases List.mem_append.mp hp with hp | hp
    · obtain ⟨t, ht, hp⟩ := hd.keyed p hp
      exact ⟨t, List.mem_append_left _ ht, hp⟩
    · obtain rfl := List.mem_singleton.mp hp
      exact ⟨s, List.mem_append_left _ hmem, rfl, hkey⟩
  · rw [ofKey_other rfl, hwritten, List.map_append, List.filter_append, List.flatMap_append,
      ← hd.byKey k]
    by_cases hk : K.ofSink s = k
    · subst hk
      obtain ⟨before, hsplit⟩ : ∃ before, ofKey K.ofSink h (K.ofSink s) = before ++ [s] :=
        ⟨_, (List.dropLast_append_getLast? s hlast).symm⟩
      have hbefore : s ∉ before := by
        have hnodup : ((openedSinks h).map (·.sink)).Nodup := hl.ids ▸ List.nodup_range
        have : (ofKey K.ofSink h (K.ofSink s)).Nodup := (hnodup.of_map _).filter _
        rw [hsplit, List.nodup_append] at this
        exact fun hs => this.2.2 s hs s (by simp) rfl
      have hsub : ∀ t ∈ before, t ∈ openedSinks h := fun t ht => hof (hsplit ▸ List.mem_append_left _ ht)
      rw [hsplit, List.flatMap_append, List.flatMap_append,
        contents_wrote_others hl hmem hsub hbefore]
      simp [Event.rowsFor, hkey, hrows]
    · have hnot : s ∉ ofKey K.ofSink h k := fun hs => hk (by simpa using (List.mem_filter.mp hs).2)
      rw [contents_wrote_others hl hmem (fun _ ht => hof ht) hnot]
      simp [← hkey, hk]

/-- A policy that keeps one sink open for each key delivers every run. -/
theorem Legal.delivered (hx : policy.Exclusive) (hl : Legal policy h) :
    Delivered policy.keying h := by
  induction hl with
  | nil => exact .nil
  | @snoc h e hl he ih =>
    cases e with
    | opened s n => exact ih.opened hl he.1
    | wrote sink run batch =>
      obtain ⟨s, hs, rfl, hkey, hrows⟩ := he
      exact ih.wrote hl (hl.last_of_live hx hs) hkey hrows
    | finished | failed | aborted => exact ih.other rfl rfl fun _ => rfl

end SilkChiffon.FileOutput
