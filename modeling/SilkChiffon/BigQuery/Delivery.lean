import Mathlib.Data.List.Induction
import SilkChiffon.Lib.Fallible
import SilkChiffon.BigQuery.ReadStream

/-!
# Delivery of a partition's rows

The server's side of the contract is `Serving`: from the offset a stream was
opened at it serves one row sequence, in pieces of any size, and ends a stream
only behind the last row. `Faithful` is the reader's side. What ties them is
`Resumes`: the accepted offset counts the emitted rows, and an open stream is
served from there.
-/

namespace SilkChiffon.BigQuery

open Arrow

variable {α M : Type}

-- ---------------------------------------------------------------------------
-- What a trace has emitted and served
-- ---------------------------------------------------------------------------

def Event.rows : Event α → List (Row α)
  | .emitted batch => batch.rows
  | _ => []

def emittedRows (trace : List (Event α)) : List (Row α) := trace.flatMap Event.rows

/-- Where the server stands after an event: a stream starts at the offset of
its request. -/
def Event.advance (position : Nat) : Event α → Nat
  | .connected request => request.offset.toNat
  | .received response => position + response.rowCount.toNat
  | _ => position

def served (trace : List (Event α)) : Nat := trace.foldl Event.advance 0

def Event.Terminal : Event α → Prop
  | .finished => True
  | .failed _ => True
  | _ => False

theorem emittedRows_snoc (trace : List (Event α)) (e : Event α) :
    emittedRows (trace ++ [e]) = emittedRows trace ++ e.rows := by
  simp [emittedRows]

theorem served_snoc (trace : List (Event α)) (e : Event α) :
    served (trace ++ [e]) = e.advance (served trace) := by
  simp [served]

-- ---------------------------------------------------------------------------
-- The two sides of the contract
-- ---------------------------------------------------------------------------

/-- A response declares as many rows as it carries, and whatever it decodes to
is those rows. -/
def Carries (reader : Reader α M) (partition : ReadPartition) (response : ReadRowsResponse)
    (chunk : List (Row α)) : Prop :=
  response.rowCount = chunk.length ∧
    ∀ serialized decoded,
      fromResponse reader response partition.sessionSchema partition.codec partition.decodeLimit =
        .ok (some serialized) →
      serialized.decode reader partition.sessionSchema partition.decodeLimit = .ok decoded →
      decoded.batch.rows = chunk

def Serving (reader : Reader α M) (partition : ReadPartition) (rows : List (Row α))
    (before : List (Event α)) : Event α → Prop
  | .received response =>
    ∃ chunk, chunk <+: rows.drop (served before) ∧ Carries reader partition response chunk
  | .closed => rows.length ≤ served before
  | _ => True

def ReadPartition.outputRows (partition : ReadPartition) (rows : List (Row α)) : List (Row α) :=
  rows.map (Row.project partition.batchProjection)

def Faithful (partition : ReadPartition) (rows : List (Row α)) (before : List (Event α))
    (e : Event α) : Prop :=
  (∀ d ∈ before, ¬ d.Terminal) ∧
    match e with
    | .sent request _ _ _ => request.offset = (emittedRows before).length
    | .emitted batch => emittedRows before ++ batch.rows <+: partition.outputRows rows
    | .finished => emittedRows before = partition.outputRows rows
    | .failed error => error.acceptedOffset.value = (emittedRows before).length
    | _ => True

structure Resumes (partition : ReadPartition) (rows : List (Row α)) (s : ReadRowsStreamState)
    (trace : List (Event α)) : Prop where
  offset : s.acceptedOffset.value = (emittedRows trace).length
  rows : emittedRows trace <+: partition.outputRows rows
  position : ∀ stream, s.current = some stream → served trace = (emittedRows trace).length
  running : ∀ d ∈ trace, ¬ d.Terminal

variable {reader : Reader α M} {partition : ReadPartition} {rows : List (Row α)}

def Event.Quiet (e : Event α) : Prop := e.rows = [] ∧ ¬ e.Terminal

theorem Resumes.quiet (h : Resumes partition rows s trace) (e : Event α) (hq : e.Quiet)
    (hp : s.current = none ∨ e.advance (served trace) = served trace) :
    Resumes partition rows s (trace ++ [e]) := by
  have hrows : emittedRows (trace ++ [e]) = emittedRows trace := by
    rw [emittedRows_snoc, hq.1, List.append_nil]
  refine ⟨hrows ▸ h.offset, hrows ▸ h.rows, fun stream hs => ?_, fun d hd => ?_⟩
  · rcases hp with hnone | heq
    · rw [hnone] at hs
      cases hs
    · rw [served_snoc, heq, hrows]
      exact h.position stream hs
  · rcases List.mem_append.mp hd with hd | hd
    · exact h.running d hd
    · rw [List.mem_singleton.mp hd]
      exact hq.2

theorem Resumes.failing (h : Resumes partition rows s trace)
    (he : e.acceptedOffset = s.acceptedOffset) : Faithful partition rows trace (.failed e) := by
  refine ⟨h.running, ?_⟩
  show e.acceptedOffset.value = _
  rw [he]
  exact h.offset

/-- Updates that touch neither the offset nor an open stream. -/
theorem Resumes.update (h : Resumes partition rows s trace)
    (ho : s'.acceptedOffset = s.acceptedOffset) (hc : s'.current = s.current ∨ s'.current = none) :
    Resumes partition rows s' trace := by
  refine ⟨ho ▸ h.offset, h.rows, fun stream hs => ?_, h.running⟩
  rcases hc with hc | hc
  · exact h.position stream (hc ▸ hs)
  · rw [hc] at hs
    cases hs

theorem Resumes.dropped (h : Resumes partition rows s trace) :
    Resumes partition rows { s with current := none } trace := h.update rfl (.inr rfl)

-- ---------------------------------------------------------------------------
-- Retries
-- ---------------------------------------------------------------------------

theorem countProgress_some {s s' : ReadRowsStreamState} (h : s.countProgress now = some s') :
    s'.acceptedOffset = s.acceptedOffset := by
  unfold ReadRowsStreamState.countProgress at h
  split at h
  · obtain rfl := Option.some.inj h
    rfl
  · simp only [Option.bind_eq_bind, Option.bind_eq_some_iff] at h
    obtain ⟨elapsed, _, h⟩ := h
    split at h
    · obtain rfl := Option.some.inj h
      rfl
    · obtain rfl := Option.some.inj h
      rfl

theorem ensures_orFail {x : Option β} {Q : β → Prop} {E : StreamReadError → Prop}
    (hq : ∀ b, x = some b → Q b) (he : E e) : Fallible.Ensures (orFail e x) Q E := by
  cases x with
  | some b => exact hq b rfl
  | none => exact he

theorem ensures_planAttempt {s : ReadRowsStreamState} :
    Fallible.Ensures (s.planAttempt partition scope reason serverDelay now sample)
      (fun r => r.1.acceptedOffset = s.acceptedOffset)
      (fun e => e.acceptedOffset = s.acceptedOffset) := by
  have he : (s.error partition .retryBudgetExhausted).acceptedOffset = s.acceptedOffset := rfl
  apply Fallible.Ensures.bind (Q := fun s' => s'.acceptedOffset = s.acceptedOffset)
  · exact ensures_orFail (fun s' h => countProgress_some h) he
  intro s' hs'
  apply Fallible.Ensures.bind (Q := fun _ => True)
  · exact ensures_orFail (fun _ _ => trivial) he
  intro streak _
  apply Fallible.Ensures.bind (Q := fun _ => True)
  · exact Fallible.ensures_mapError (fun _ _ => trivial) he
  intro backoff _
  apply Fallible.Ensures.bind (Q := fun _ => True)
  · exact Fallible.ensures_mapError (fun _ _ => trivial) he
  exact fun plan _ => Fallible.ensures_pure hs'

variable {A : List (Event α) → Event α → Prop} {E : List (Event α) → StreamReadError → Prop}

theorem upholds_sleep (h : Resumes partition rows s trace)
    (hG : Throughout (Faithful partition rows) trace) :
    (ReadRowsStreamState.sleep delay : Reading α PUnit).Upholds A (Faithful partition rows) trace
      (fun after _ => Resumes partition rows s after) E := by
  unfold ReadRowsStreamState.sleep
  split
  · exact Emit.upholds_pure hG h
  · exact Emit.upholds_emit hG fun _ => ⟨⟨h.running, trivial⟩, h.quiet _ ⟨rfl, id⟩ (.inr rfl)⟩

theorem upholds_retryOrFail {failure : AttemptFailure} (h : Resumes partition rows s trace)
    (hG : Throughout (Faithful partition rows) trace) :
    (s.retryOrFail partition failure now sample : Reading α ReadRowsStreamState).Upholds A
      (Faithful partition rows) trace (fun after s' => Resumes partition rows s' after)
      (fun after e => Faithful partition rows after (.failed e)) := by
  unfold ReadRowsStreamState.retryOrFail
  split
  · exact Emit.upholds_throw hG (h.failing rfl)
  split
  · exact Emit.upholds_throw hG (h.failing rfl)
  split
  · exact Emit.upholds_throw hG (h.failing rfl)
  · apply Fallible.upholds_lift_bind hG (ensures_planAttempt.mono (fun r hr => hr) fun e => h.failing)
    rintro ⟨s', plan⟩ hs'
    apply Emit.upholds_emit_bind hG fun _ => ⟨h.running, trivial⟩
    intro _ hG'
    apply (upholds_sleep (h.quiet _ ⟨rfl, id⟩ (.inr rfl)) hG').bind
    intro after _ hG'' h'
    exact Emit.upholds_pure hG'' (h'.update hs' (.inr rfl))

-- ---------------------------------------------------------------------------
-- Opening and decoding
-- ---------------------------------------------------------------------------

theorem Resumes.connected (h : Resumes partition rows s trace) (hnone : s.current = none)
    (request : ReadRowsRequest) (hoffset : request.offset = (emittedRows trace).length) :
    Resumes partition rows { s with current := some ⟨request⟩ } (trace ++ [.connected request]) := by
  have hq := h.quiet (.connected request) ⟨rfl, id⟩ (.inl hnone)
  refine ⟨hq.offset, hq.rows, fun _ _ => ?_, hq.running⟩
  rw [served_snoc, emittedRows_snoc]
  simp [Event.advance, Event.rows, hoffset]

/-- The request asks for the first row that was not emitted, and a stream
opened with it is served from there. -/
theorem upholds_openStream (h : Resumes partition rows s trace)
    (hG : Throughout (Faithful partition rows) trace) (hnone : s.current = none) :
    (s.openStream partition turn : Reading α _).Upholds A (Faithful partition rows) trace
      (fun after r => match r with
        | .ok stream => Resumes partition rows { s with current := some stream } after
        | .error _ => Resumes partition rows s after)
      E := by
  unfold ReadRowsStreamState.openStream
  split
  · exact Emit.upholds_pure hG h
  · rename_i timeout sessionLimited _
    apply Emit.upholds_emit_bind hG fun _ => ⟨h.running, h.offset⟩
    intro _ hG'
    have h' := h.quiet (.sent (s.request partition) s.rpcAttempt turn.openClock timeout) ⟨rfl, id⟩
      (.inl hnone)
    split
    · apply Emit.upholds_emit_bind hG' fun _ => ⟨h'.running, trivial⟩
      intro _ hG''
      exact Emit.upholds_pure hG'' (h'.connected hnone _ h'.offset)
    · exact Emit.upholds_pure hG' h'
    · exact Emit.upholds_pure hG' h'

theorem withOutputSchema_some {projected output : RecordBatch α}
    (h : ReadRowsStreamState.withOutputSchema reader schema projected = some output) :
    output.rows = projected.rows := by
  unfold ReadRowsStreamState.withOutputSchema at h
  split at h
  · split at h
    · obtain rfl := Option.some.inj h
      rfl
    · cases h
  · cases h

theorem ensures_accept {s : ReadRowsStreamState} {decoded : DecodedBatch α} :
    Fallible.Ensures (s.accept reader partition decoded now)
      (fun r => r.1.rows = decoded.batch.rows.map (Row.project partition.batchProjection) ∧
        r.2.acceptedOffset.value = s.acceptedOffset.value + decoded.batch.rows.length ∧
        r.2.current = s.current)
      (fun e => e.acceptedOffset = s.acceptedOffset) := by
  have he : ∀ reason, (s.error partition reason).acceptedOffset = s.acceptedOffset := fun _ => rfl
  apply Fallible.Ensures.bind
    (Q := fun next => next.value = s.acceptedOffset.value + decoded.rowCount)
  · exact ensures_orFail (fun next h => AcceptedOffset.checkedAdvance_value h) (he _)
  intro next hnext
  apply Fallible.Ensures.bind
    (Q := fun b => b.rows = decoded.batch.rows.map (Row.project partition.batchProjection))
  · exact Fallible.ensures_mapError (fun b h => RecordBatch.project_ok h) (he _)
  intro projected hprojected
  apply Fallible.Ensures.bind (Q := fun b => b.rows = projected.rows)
  · exact ensures_orFail (fun b h => withOutputSchema_some h) (he _)
  intro output houtput
  rw [← decoded.counted] at hnext
  split
  · exact Fallible.ensures_pure ⟨houtput.trans hprojected, hnext, rfl⟩
  · exact Fallible.ensures_pure ⟨houtput.trans hprojected, hnext, rfl⟩

theorem prepare_some
    (h : ReadRowsStreamState.prepare reader partition response = .ok (some (serialized, bound))) :
    fromResponse reader response partition.sessionSchema partition.codec partition.decodeLimit =
      .ok (some serialized) := by
  obtain ⟨found, hfound, h⟩ := Lists.bind_eq_ok.mp h
  cases found with
  | none => cases h
  | some found =>
    obtain ⟨_, _, h⟩ := Lists.bind_eq_ok.mp h
    cases h
    exact hfound

theorem prepare_none (h : ReadRowsStreamState.prepare reader partition response = .ok none) :
    response.rowCount.toNat = 0 := by
  obtain ⟨found, hfound, h⟩ := Lists.bind_eq_ok.mp h
  cases found with
  | none => exact fromResponse_none hfound
  | some found =>
    obtain ⟨_, _, h⟩ := Lists.bind_eq_ok.mp h
    cases h

/-- What `decode` makes of a response: nothing of one without rows, or the
projected rows it decodes to. -/
def DecodedAs (reader : Reader α M) (partition : ReadPartition) (s : ReadRowsStreamState)
    (response : ReadRowsResponse) : Option (RecordBatch α) × ReadRowsStreamState → Prop
  | (none, s') => response.rowCount.toNat = 0 ∧ s'.acceptedOffset = s.acceptedOffset ∧
      s'.current = s.current
  | (some batch, s') => ∃ serialized decoded,
      fromResponse reader response partition.sessionSchema partition.codec partition.decodeLimit =
        .ok (some serialized) ∧
      serialized.decode reader partition.sessionSchema partition.decodeLimit = .ok decoded ∧
      batch.rows = decoded.batch.rows.map (Row.project partition.batchProjection) ∧
      s'.acceptedOffset.value = s.acceptedOffset.value + decoded.batch.rows.length ∧
      s'.current = s.current

theorem ensures_granted (he : e.acceptedOffset = offset) :
    Fallible.Ensures (orFail e (granted answer)) (fun _ => True) (fun e => e.acceptedOffset = offset) :=
  ensures_orFail (fun _ _ => trivial) he

theorem ensures_tryResize {s : ReadRowsStreamState} :
    Fallible.Ensures (s.tryResize partition answer bytes)
      (fun s' => s'.acceptedOffset = s.acceptedOffset ∧ s'.current = s.current)
      (fun e => e.acceptedOffset = s.acceptedOffset) := by
  apply Fallible.Ensures.bind (ensures_granted rfl)
  exact fun _ _ => Fallible.ensures_pure ⟨rfl, rfl⟩

theorem ensures_decode {s : ReadRowsStreamState} :
    Fallible.Ensures (s.decode reader partition response decoding)
      (DecodedAs reader partition s response) (fun e => e.acceptedOffset = s.acceptedOffset) := by
  apply Fallible.Ensures.bind ensures_tryResize
  rintro s₁ ⟨ho, hc⟩
  have he : ∀ reason, (s₁.error partition reason).acceptedOffset = s.acceptedOffset := fun _ => ho
  apply Fallible.Ensures.bind (ensures_granted (he _))
  rintro _ _
  apply Fallible.Ensures.bind (ensures_granted (he _))
  rintro _ _
  apply Fallible.Ensures.bind
    (Q := fun r => ReadRowsStreamState.prepare reader partition response = .ok r)
  · exact Fallible.ensures_mapError (fun _ h => h) (he _)
  intro prepared hprepared
  cases prepared with
  | none => exact Fallible.ensures_pure ⟨prepare_none hprepared, ho, hc⟩
  | some found =>
    obtain ⟨serialized, bound⟩ := found
    apply Fallible.Ensures.bind (ensures_tryResize.mono (fun _ h => h) fun e h => h.trans ho)
    rintro s₂ ⟨ho₂, hc₂⟩
    have ho₂ := ho₂.trans ho
    apply Fallible.Ensures.bind (ensures_granted ho₂)
    rintro _ _
    apply Fallible.Ensures.bind (Q := fun decoded =>
      serialized.decode reader partition.sessionSchema partition.decodeLimit = .ok decoded)
    · exact Fallible.ensures_mapError (fun _ h => h) ho₂
    intro decoded hdecoded
    apply Fallible.Ensures.bind (ensures_accept.mono (fun _ h => h) fun e h => h.trans ho₂)
    rintro ⟨batch, s₃⟩ ⟨hrows, hoffset, hc₃⟩
    exact Fallible.ensures_pure ⟨serialized, decoded, prepare_some hprepared, hdecoded, hrows,
      ho₂ ▸ hoffset, hc₃.trans (hc₂.trans hc)⟩

-- ---------------------------------------------------------------------------
-- A turn
-- ---------------------------------------------------------------------------

def TurnEnd (partition : ReadPartition) (rows : List (Row α)) (trace : List (Event α)) :
    ReadRowsStreamState.Progress α → Prop
  | .again s => Resumes partition rows s trace
  | .batch batch s => Faithful partition rows trace (.emitted batch) ∧
      Resumes partition rows s (trace ++ [.emitted batch])
  | .finished => Faithful partition rows trace .finished

theorem Resumes.empty (h : Resumes partition rows s trace) (hzero : response.rowCount.toNat = 0) :
    Resumes partition rows s (trace ++ [.received response]) :=
  h.quiet _ ⟨rfl, id⟩ (.inr (by simp [Event.advance, hzero]))

/-- Rows the server sends from the accepted offset on continue the emitted ones. -/
theorem Resumes.continues (h : Resumes partition rows s trace) (hstream : s.current = some stream)
    (hchunk : chunk <+: rows.drop (served trace)) :
    emittedRows trace ++ chunk.map (Row.project partition.batchProjection) <+:
      partition.outputRows rows := by
  have hmap := hchunk.map (Row.project partition.batchProjection)
  rw [List.map_drop, h.position stream hstream] at hmap
  have happend := (List.prefix_append_right_inj (emittedRows trace)).mpr hmap
  have htail := List.prefix_iff_eq_append.mp h.rows
  rw [ReadPartition.outputRows] at htail
  rwa [htail] at happend

theorem Resumes.emitted {batch : RecordBatch α} (h : Resumes partition rows s trace)
    (hstream : s.current = some stream)
    (hserving : Serving reader partition rows trace (.received response))
    (hdecoded : DecodedAs reader partition s response (some batch, s')) :
    TurnEnd partition rows (trace ++ [.received response]) (.batch batch s') := by
  obtain ⟨chunk, hchunk, hcount, hcarries⟩ := hserving
  obtain ⟨serialized, decoded, hfrom, hdecode, hrows, hoffset, hc⟩ := hdecoded
  rw [hcarries serialized decoded hfrom hdecode] at hrows hoffset
  have hbefore : emittedRows (trace ++ [.received response]) = emittedRows trace := by
    simp [emittedRows_snoc, Event.rows]
  have hlength : batch.rows.length = chunk.length := by rw [hrows, List.length_map]
  have hrunning : ∀ d ∈ trace ++ [Event.received response], ¬ d.Terminal := by
    intro d hd
    rcases List.mem_append.mp hd with hd | hd
    · exact h.running d hd
    · rw [List.mem_singleton.mp hd]
      exact id
  have hprefix : emittedRows (trace ++ [.received response]) ++ batch.rows <+:
      partition.outputRows rows := by
    rw [hbefore, hrows]
    exact h.continues hstream hchunk
  refine ⟨⟨hrunning, hprefix⟩, ?_, ?_, fun _ _ => ?_, fun d hd => ?_⟩
  · rw [emittedRows_snoc, hbefore, hoffset, h.offset, Event.rows, List.length_append, hlength,
      Int.natCast_add]
  · rw [emittedRows_snoc]
    exact hprefix
  · have hposition := h.position stream hstream
    rw [served_snoc, served_snoc, emittedRows_snoc, hbefore]
    simp [Event.rows, Event.advance, hposition, hlength, hcount]
  · rcases List.mem_append.mp hd with hd | hd
    · exact hrunning d hd
    · rw [List.mem_singleton.mp hd]
      exact id

theorem Resumes.closed (h : Resumes partition rows s trace) (hstream : s.current = some stream)
    (hserving : Serving reader partition rows trace .closed) :
    TurnEnd partition rows (trace ++ [.closed]) .finished := by
  have hq := h.quiet .closed ⟨rfl, id⟩ (.inr rfl)
  refine ⟨hq.running, hq.rows.eq_of_length_le ?_⟩
  have hserved : rows.length ≤ served trace := hserving
  rw [h.position stream hstream] at hserved
  simpa [emittedRows_snoc, Event.rows, ReadPartition.outputRows] using hserved

theorem upholds_awaitResponse (h : Resumes partition rows s trace)
    (hG : Throughout (Faithful partition rows) trace) (hstream : s.current = some stream) :
    (s.awaitResponse reader partition stream turn).Upholds (Serving reader partition rows)
      (Faithful partition rows) trace (TurnEnd partition rows)
      (fun after e => Faithful partition rows after (.failed e)) := by
  apply Fallible.upholds_lift_bind (Q := fun _ => True) hG
  · cases ReadRowsStreamState.waitTimeout partition s turn.waitClock with
    | ok _ => trivial
    | error reason => exact h.failing rfl
  rintro ⟨timeout, sessionLimited⟩ _
  apply Emit.upholds_emit_bind hG fun _ => ⟨h.running, trivial⟩
  intro _ hG'
  have h' := h.quiet (.awaited stream turn.waitClock timeout) ⟨rfl, id⟩ (.inr rfl)
  have hagain : ∀ failure after, Resumes partition rows s after →
      Throughout (Faithful partition rows) after →
      (({ s with current := none } : ReadRowsStreamState).retryOrFail partition failure
        turn.retryClock turn.sample >>= fun s => pure (.again s)).Upholds (Serving reader partition rows)
        (Faithful partition rows) after (TurnEnd partition rows)
        (fun after e => Faithful partition rows after (.failed e)) := by
    intro failure after hs hG
    apply (upholds_retryOrFail hs.dropped hG).bind
    exact fun after' s' hG' hs' => Emit.upholds_pure hG' hs'
  split
  · rename_i response _
    apply Emit.upholds_emit_bind hG' fun _ => ⟨h'.running, trivial⟩
    intro hserving hG''
    have hdropped := h'.dropped.quiet (.received response) ⟨rfl, id⟩ (.inl rfl)
    have hfailing : ∀ e, e.acceptedOffset = s.acceptedOffset →
        Faithful partition rows _ (.failed e) := fun e he => hdropped.failing he
    apply Fallible.upholds_lift_bind hG'' (ensures_decode.mono (fun _ h => h) hfailing)
    rintro ⟨_ | batch, s'⟩ hdecoded
    · obtain ⟨hzero, ho, hc⟩ := hdecoded
      exact Emit.upholds_pure hG'' ((h'.empty hzero).update ho (.inl hc))
    · exact Emit.upholds_pure hG'' (h'.emitted hstream hserving hdecoded)
  · exact hagain _ _ h' hG'
  · apply Emit.upholds_emit_bind hG' fun _ => ⟨h'.running, trivial⟩
    intro hserving hG''
    exact Emit.upholds_pure hG'' (h'.closed hstream hserving)
  · split
    · exact Emit.upholds_throw hG' (h'.failing rfl)
    · exact hagain _ _ h' hG'

theorem upholds_nextBatchTurn (h : Resumes partition rows s trace)
    (hG : Throughout (Faithful partition rows) trace) :
    (s.nextBatchTurn reader partition turn).Upholds (Serving reader partition rows)
      (Faithful partition rows) trace (TurnEnd partition rows)
      (fun after e => Faithful partition rows after (.failed e)) := by
  unfold ReadRowsStreamState.nextBatchTurn
  cases hstream : s.current with
  | some stream => exact upholds_awaitResponse h hG hstream
  | none =>
    apply (upholds_openStream h hG hstream).bind
    intro after opened hG' hopened
    cases opened with
    | ok stream => exact upholds_awaitResponse hopened hG' rfl
    | error failure =>
      apply (upholds_retryOrFail hopened hG').bind
      exact fun after' s' hG'' hs' => Emit.upholds_pure hG'' hs'

-- ---------------------------------------------------------------------------
-- A run
-- ---------------------------------------------------------------------------

def Fits (partition : ReadPartition) (rows : List (Row α)) (trace : List (Event α)) :
    ReadRowsStream → Prop
  | .ready s => Resumes partition rows s trace
  | .polling s => Resumes partition rows s trace
  | .done => True

theorem settle_fits {x : Reading α (ReadRowsStreamState.Progress α)}
    (h : x.Upholds (Serving reader partition rows) (Faithful partition rows) trace
      (TurnEnd partition rows) fun after e => Faithful partition rows after (.failed e))
    (hA : Throughout (Serving reader partition rows) (trace ++ (ReadRowsStream.settle x).1)) :
    Throughout (Faithful partition rows) (trace ++ (ReadRowsStream.settle x).1) ∧
      Fits partition rows (trace ++ (ReadRowsStream.settle x).1) (ReadRowsStream.settle x).2 := by
  obtain ⟨events, result⟩ := x
  cases result with
  | error e =>
    simp only [ReadRowsStream.settle, ← List.append_assoc] at hA ⊢
    obtain ⟨hG, he⟩ := h.error (hA.of_prefix (List.prefix_append ..))
    exact ⟨hG.snoc he, trivial⟩
  | ok progress =>
    cases progress with
    | again s => exact h.ok hA
    | batch batch s =>
      simp only [ReadRowsStream.settle, ← List.append_assoc] at hA ⊢
      obtain ⟨hG, hbatch, hs⟩ := h.ok (hA.of_prefix (List.prefix_append ..))
      exact ⟨hG.snoc hbatch, hs⟩
    | finished =>
      simp only [ReadRowsStream.settle, ← List.append_assoc] at hA ⊢
      obtain ⟨hG, hfinished⟩ := h.ok (hA.of_prefix (List.prefix_append ..))
      exact ⟨hG.snoc hfinished, trivial⟩

theorem step_fits {stream : ReadRowsStream} (h : Fits partition rows trace stream)
    (hG : Throughout (Faithful partition rows) trace)
    (hA : Throughout (Serving reader partition rows)
      (trace ++ (stream.step reader partition turn).1)) :
    Throughout (Faithful partition rows) (trace ++ (stream.step reader partition turn).1) ∧
      Fits partition rows (trace ++ (stream.step reader partition turn).1)
        (stream.step reader partition turn).2 := by
  cases stream with
  | ready s => exact settle_fits (upholds_nextBatchTurn (h.update rfl (.inl rfl)) hG) hA
  | polling s => exact settle_fits (upholds_nextBatchTurn h hG) hA
  | done =>
    rw [ReadRowsStream.step, ReadRowsStream.poll, List.append_nil]
    exact ⟨hG, trivial⟩

theorem runFrom_prefix {stream : ReadRowsStream} {turns : List Turn} :
    trace <+: stream.runFrom reader partition trace turns := by
  induction turns generalizing stream trace with
  | nil => exact List.prefix_refl _
  | cons turn turns ih => exact (List.prefix_append ..).trans ih

theorem runFrom_faithful {stream : ReadRowsStream} {turns : List Turn}
    (h : Fits partition rows trace stream) (hG : Throughout (Faithful partition rows) trace)
    (hA : Throughout (Serving reader partition rows) (stream.runFrom reader partition trace turns)) :
    Throughout (Faithful partition rows) (stream.runFrom reader partition trace turns) := by
  induction turns generalizing stream trace with
  | nil => exact hG
  | cons turn turns ih =>
    obtain ⟨hG', h'⟩ := step_fits h hG (hA.of_prefix runFrom_prefix)
    exact ih h' hG' hA

theorem new_offset (h : ReadRowsStream.new partition started = .ok s) :
    s.acceptedOffset = .default ∧ s.current = none := by
  obtain ⟨backoff, _, h⟩ := Lists.bind_eq_ok.mp h
  obtain ⟨budget, _, h⟩ := Lists.bind_eq_ok.mp h
  obtain rfl := Except.ok.inj h
  exact ⟨rfl, rfl⟩

theorem new_error (h : ReadRowsStream.new partition started = .error e) :
    e.acceptedOffset = .default := by
  have hnew : Fallible.Ensures (ReadRowsStream.new partition started) (fun _ => True)
      (fun e => e.acceptedOffset = .default) := by
    apply Fallible.Ensures.bind (Q := fun _ => True)
    · exact Fallible.ensures_mapError (fun _ _ => trivial) rfl
    intro backoff _
    apply Fallible.Ensures.bind (Q := fun _ => True)
    · exact Fallible.ensures_mapError (fun _ _ => trivial) rfl
    exact fun budget _ => Fallible.ensures_pure trivial
  rw [h] at hnew
  exact hnew

/-- A reader whose server keeps its side of the contract keeps its own. -/
theorem run_faithful {turns : List Turn}
    (hA : Throughout (Serving reader partition rows)
      (ReadRowsStream.run reader partition started turns)) :
    Throughout (Faithful partition rows) (ReadRowsStream.run reader partition started turns) := by
  unfold ReadRowsStream.run at hA ⊢
  cases hnew : ReadRowsStream.new partition started with
  | error e =>
    refine Throughout.nil.snoc ⟨by simp, ?_⟩
    show e.acceptedOffset.value = 0
    rw [new_error hnew]
    rfl
  | ok s =>
    simp only [hnew] at hA ⊢
    obtain ⟨ho, hc⟩ := new_offset hnew
    refine runFrom_faithful ⟨?_, ?_, ?_, by simp⟩ Throughout.nil hA
    · rw [ho]
      rfl
    · exact List.nil_prefix
    · intro stream hs
      rw [hc] at hs
      cases hs

-- ---------------------------------------------------------------------------
-- Exactly once
-- ---------------------------------------------------------------------------

theorem emittedRows_prefix (hG : Throughout (Faithful partition rows) trace) :
    emittedRows trace <+: partition.outputRows rows := by
  induction trace using List.reverseRecOn with
  | nil => exact List.nil_prefix
  | append_singleton trace e ih =>
    have hbefore := ih (hG.of_prefix (List.prefix_append ..))
    rw [emittedRows_snoc]
    cases e with
    | emitted batch => exact hG.last.2
    | _ => simpa [Event.rows] using hbefore

theorem nothing_after (hG : Throughout (Faithful partition rows) (before ++ e :: after))
    (he : e.Terminal) : after = [] := by
  cases after with
  | nil => rfl
  | cons d after =>
    have hd := hG (before ++ [e]) d ⟨after, by simp⟩
    exact absurd he (hd.1 e (by simp))

/-- For every server that serves one row sequence and every sequence of
failures, delays and clock readings: what was emitted is always a beginning of
that sequence, every request asks for the row behind it, a clean end comes
after all of it, and an error reports how far it got and is the last event. -/
theorem rows_read_exactly_once (reader : Reader α M) (partition : ReadPartition)
    (rows : List (Row α)) (started : Duration) (turns : List Turn)
    (hserver : Throughout (Serving reader partition rows)
      (ReadRowsStream.run reader partition started turns)) :
    (∀ moment, moment <+: ReadRowsStream.run reader partition started turns →
      emittedRows moment <+: partition.outputRows rows) ∧
    (∀ before (request : ReadRowsRequest) attempt now timeout,
      before ++ [.sent request attempt now timeout] <+:
        ReadRowsStream.run reader partition started turns →
      request.offset = (emittedRows before).length) ∧
    (∀ before after,
      ReadRowsStream.run reader partition started turns = before ++ .finished :: after →
      emittedRows before = partition.outputRows rows ∧ after = []) ∧
    ∀ before (error : StreamReadError) after,
      ReadRowsStream.run reader partition started turns = before ++ .failed error :: after →
      error.acceptedOffset.value = (emittedRows before).length ∧ after = [] := by
  have hG := run_faithful hserver
  refine ⟨fun moment hm => emittedRows_prefix (hG.of_prefix hm),
    fun before request attempt now timeout hsent => (hG _ _ hsent).2, ?_, ?_⟩
  · intro before after heq
    rw [heq] at hG
    exact ⟨(hG before .finished ⟨after, by simp⟩).2, nothing_after hG trivial⟩
  · intro before error after heq
    rw [heq] at hG
    exact ⟨(hG before (.failed error) ⟨after, by simp⟩).2, nothing_after hG trivial⟩

-- ---------------------------------------------------------------------------
-- A stream that breaks off
-- ---------------------------------------------------------------------------

theorem carries_of_decode {reader : Reader α M} {partition : ReadPartition}
    (hfrom : fromResponse reader response partition.sessionSchema partition.codec
      partition.decodeLimit = .ok (some serialized))
    (hdecode : (serialized.decode reader partition.sessionSchema partition.decodeLimit).map
      (·.batch.rows) = .ok chunk)
    (hcount : response.rowCount = chunk.length) : Carries reader partition response chunk := by
  refine ⟨hcount, fun serialized' decoded hfrom' hdecode' => ?_⟩
  obtain rfl := Option.some.inj (Except.ok.inj (hfrom.symm.trans hfrom'))
  rw [hdecode'] at hdecode
  exact Except.ok.inj hdecode

def byteReader : Reader Nat Unit where
  sessionSchema _ _ := .ok []
  sameSchema _ _ := true
  decompressRawLz4 payload _ _ := .ok payload
  parseEncapsulated payload _ := .ok ⟨.recordBatch, some ⟨false, ()⟩, payload⟩
  validateNativeBuffers _ _ _ := .ok 0
  readRecordBatch body _ schema :=
    if h : schema.length = 1 then
      some ⟨schema, body.map fun b => [some b.toNat], by simp [h]⟩
    else none
  allocated _ := 0
  accepts _ _ := true

def idPartition : ReadPartition where
  ordinal := 0
  streamName := "stream"
  sessionSchema := [.mk "id" .int64 false]
  sessionDeadline := secs 7200
  outputSchema := [.mk "id" .int64 false]
  batchProjection := [0]
  decodeLimit := ⟨1024, by decide⟩
  args := {
    responseCompression := .none
    readIdleTimeout := secs 60
    readRetryWindow := secs 3600
    readRetryInitialBackoff := millis 100
    readRetryMaxBackoff := secs 60 }

def idRows : List (Row Nat) := [[some 7], [some 8], [some 9]]

def quietTurn (message : Awaited (Option (Except Status ReadRowsResponse))) : Turn where
  openClock := secs 1
  opened := .ready (.ok ())
  waitClock := secs 1
  message
  decoding := ⟨true, true, true, true, true, secs 1⟩
  retryClock := secs 1
  sample := 0

def idResponse (payload : Bytes) : ReadRowsResponse :=
  ⟨payload.length, some (.arrowRecordBatch payload 0), none, none⟩

def idTurns : List Turn :=
  [quietTurn (.ready (some (.ok (idResponse [7, 8])))),
    quietTurn (.ready (some (.error ⟨.unavailable, some ⟨none, none⟩, none⟩))),
    quietTurn (.ready (some (.ok (idResponse [9])))),
    quietTurn (.ready none)]

def idTrace : List (Event Nat) :=
  let request : ReadRowsRequest := ⟨"stream", 0⟩
  let rest : ReadRowsRequest := ⟨"stream", 2⟩
  let plan : RetryPlan := ⟨.readRows, 2, .zero, secs 60, secs 61⟩
  [.sent request 1 (secs 1) (secs 60), .connected request, .awaited ⟨request⟩ (secs 1) (secs 60),
    .received (idResponse [7, 8]),
    .emitted ⟨idPartition.outputSchema, [[some 7], [some 8]], by decide⟩,
    .awaited ⟨request⟩ (secs 1) (secs 60), .retrying (secs 1) plan,
    .sent rest 2 (secs 1) (secs 60), .connected rest, .awaited ⟨rest⟩ (secs 1) (secs 60),
    .received (idResponse [9]), .emitted ⟨idPartition.outputSchema, [[some 9]], by decide⟩,
    .awaited ⟨rest⟩ (secs 1) (secs 60), .closed, .finished]

theorem run_idTurns : ReadRowsStream.run byteReader idPartition (secs 0) idTurns = idTrace := rfl

theorem idTrace_served : Throughout (Serving byteReader idPartition idRows) idTrace := by
  refine Throughout.of_from Throughout.nil ?_
  have hfirst : Carries byteReader idPartition (idResponse [7, 8]) [[some 7], [some 8]] :=
    carries_of_decode rfl rfl rfl
  have hrest : Carries byteReader idPartition (idResponse [9]) [[some 9]] :=
    carries_of_decode rfl rfl rfl
  simp only [Throughout.From, Serving, and_true, true_and]
  exact ⟨⟨_, by decide, hfirst⟩, ⟨_, by decide, hrest⟩, by decide⟩

theorem rows_read_exactly_once_reconnect :
    emittedRows (ReadRowsStream.run byteReader idPartition (secs 0) idTurns) <+:
      idPartition.outputRows idRows :=
  (rows_read_exactly_once byteReader idPartition idRows (secs 0) idTurns
    (run_idTurns ▸ idTrace_served)).1 _ (List.prefix_refl _)
end SilkChiffon.BigQuery
