import SilkChiffon.Arrow.ExactRows

/-!
# Walking a stream

Schema inference, sampling and inspection go from message to message by lengths
that the stream itself gives. Each message ends behind its start and within the
object, so every walk comes to an end, whatever the bytes are.
-/

namespace SilkChiffon.Arrow.Ipc

variable {α τ β γ : Type}

-- ---------------------------------------------------------------------------
-- Schema inference
-- ---------------------------------------------------------------------------

def inferMessages (codec : StreamCodec τ α) (object : StoredObject) (identity : String) :
    Nat → Nat → τ → Scan α Schema
  | 0, _, _ => Emit.throw .unfinished
  | messages + 1, offset, decoder => do
    match ← readStreamMessage codec object offset identity with
    | .done => Emit.throw (.execution ("Arrow IPC stream " ++ identity ++ " ended before its schema"))
    | .safetyBoundExceeded =>
      Emit.throw (.execution ("Arrow IPC message exceeds the 512 MiB safety bound for " ++ identity))
    | .message bytes offset =>
      let decoded ← Emit.lift (codec.decode decoder bytes)
      match codec.schema decoded.1 with
      | some schema => pure schema
      | none => inferMessages codec object identity messages offset decoded.1

def inferStreamSchema (codec : StreamCodec τ α) (object : StoredObject) (identity : String)
    (turns : Nat) : Scan α Schema :=
  inferMessages codec object identity turns 0 codec.new

-- ---------------------------------------------------------------------------
-- Inspection
-- ---------------------------------------------------------------------------

structure BatchSummary where
  index : Nat
  numRows : Nat

structure Inspector where
  schema : Schema
  fileSize : Nat
  numRows : Option Nat
  numBatches : Option Nat
  batches : Option (List BatchSummary)

def inspectBuffer (codec : StreamCodec τ α) :
    Nat → τ → List BatchSummary → Bytes → Except IpcError (τ × List BatchSummary)
  | _, decoder, batches, [] => .ok (decoder, batches)
  | 0, _, _, _ :: _ => .error .unfinished
  | turns + 1, decoder, batches, byte :: bytes => do
    let (decoder, buffer, batch) ← codec.decode decoder (byte :: bytes)
    match batch with
    | none => inspectBuffer codec turns decoder batches buffer
    | some batch => inspectBuffer codec turns decoder (batches ++ [⟨batches.length, batch.rows.length⟩]) buffer

/-- The loop over the messages: to the end for a row count, and otherwise until
the schema is known. -/
def inspectMessages (codec : StreamCodec τ α) (object : StoredObject) (identity : String) (countRows : Bool)
    (turns : Nat) : Nat → Nat → τ → List BatchSummary → Scan α (τ × List BatchSummary)
  | 0, _, _, _ => Emit.throw .unfinished
  | messages + 1, offset, decoder, batches =>
    if countRows || (codec.schema decoder).isNone then do
      match ← readStreamMessage codec object offset identity with
      | .done => pure (decoder, batches)
      | .safetyBoundExceeded =>
        Emit.throw (.execution "Arrow IPC message exceeds the 512 MiB inspection safety bound")
      | .message bytes offset =>
        let inspected ← Emit.lift (inspectBuffer codec turns decoder batches bytes)
        inspectMessages codec object identity countRows turns messages offset inspected.1 inspected.2
    else pure (decoder, batches)

def totalRows : Nat → List BatchSummary → Except IpcError Nat
  | total, [] => .ok total
  | total, batch :: batches => do
    let total ← checkedAdd total batch.numRows "Arrow row count overflow"
    totalRows total batches

def summarize (codec : StreamCodec τ α) (object : StoredObject) (countRows : Bool) (decoder : τ)
    (batches : List BatchSummary) : Except IpcError Inspector :=
  match codec.schema decoder with
  | none => .error (.execution "Arrow IPC stream ended before its schema")
  | some schema =>
    if countRows then
      (totalRows 0 batches).map fun rows => ⟨schema, object.size, some rows, some batches.length, some batches⟩
    else .ok ⟨schema, object.size, none, none, none⟩

def inspectStream (codec : StreamCodec τ α) (object : StoredObject) (identity : String) (countRows : Bool)
    (turns : Nat) : Scan α Inspector := do
  let inspected ← inspectMessages codec object identity countRows turns turns 0 codec.new []
  if countRows then Emit.lift (codec.finish inspected.1)
  Emit.lift (summarize codec object countRows inspected.1 inspected.2)

variable {object : StoredObject} {codec : StreamCodec τ α}

-- ---------------------------------------------------------------------------
-- Walks
-- ---------------------------------------------------------------------------

/-- Messages read one after another, each from where the one before ends. -/
inductive Walk (codec : StreamCodec τ α) (object : StoredObject) (identity : String) :
    Nat → List (Bytes × Nat) → Nat → Prop
  | start : Walk codec object identity offset [] offset
  | next : (readStreamMessage codec object offset identity).result = .ok (.message bytes stop) →
      Walk codec object identity stop messages final →
      Walk codec object identity offset ((bytes, stop) :: messages) final

/-- The messages lie one behind another, none is empty, and none goes past the
object. -/
def Tiles (size : Nat) : Nat → List (Bytes × Nat) → Nat → Prop
  | offset, [], final => offset = final
  | offset, message :: messages, final =>
    offset < message.2 ∧ message.2 ≤ size ∧ Tiles size message.2 messages final

structure StoredObject.Serves (object : StoredObject) (content : Bytes) : Prop where
  size : object.size = content.length
  getRange : ∀ start stop bytes, object.getRange start stop = .ok bytes →
    bytes = (content.drop start).take (stop - start)

theorem message_advances (h : (readStreamMessage codec object offset identity).result = .ok (.message bytes stop)) :
    offset < stop ∧ stop ≤ object.size ∧ object.getRange offset stop = .ok bytes :=
  ((readStreamMessage_keeps codec object offset identity).ok h).2

theorem Walk.tiles (h : Walk codec object identity offset messages final) :
    Tiles object.size offset messages final := by
  induction h with
  | start => exact rfl
  | next hread _ ih => exact ⟨(message_advances hread).1, (message_advances hread).2.1, ih⟩

theorem Tiles.length_le {messages : List (Bytes × Nat)} (h : Tiles size offset messages final)
    (hoffset : offset ≤ size) : offset + messages.length ≤ final ∧ final ≤ size := by
  induction messages generalizing offset with
  | nil =>
    obtain rfl : offset = final := h
    exact ⟨Nat.le_refl _, hoffset⟩
  | cons message messages ih =>
    obtain ⟨hlt, hle, hrest⟩ := h
    have ih := ih hrest hle
    rw [List.length_cons]
    omega

theorem Walk.content {content : Bytes} (h : Walk codec object identity offset messages final) (hobject : object.Serves content) :
    content.take offset ++ (messages.map Prod.fst).flatten = content.take final := by
  induction h with
  | start => exact List.append_nil _
  | @next offset bytes stop messages final hread _ ih =>
    obtain ⟨hlt, -, hbytes⟩ := message_advances hread
    have hsplit : content.take stop = content.take offset ++ bytes := by
      rw [hobject.getRange _ _ _ hbytes, ← List.take_add, Nat.add_sub_cancel' (Nat.le_of_lt hlt)]
    rw [List.map_cons, List.flatten_cons, ← List.append_assoc, ← hsplit, ih]

theorem exists_walk_to_end (codec : StreamCodec τ α) (object : StoredObject) (identity : String) (offset : Nat) :
    ∃ messages final, Walk codec object identity offset messages final ∧
      ∀ bytes stop, (readStreamMessage codec object final identity).result ≠ .ok (.message bytes stop) := by
  by_cases hnext : ∃ bytes stop, (readStreamMessage codec object offset identity).result = .ok (.message bytes stop)
  · obtain ⟨bytes, stop, hread⟩ := hnext
    have hadvances := message_advances hread
    obtain ⟨messages, final, hwalk, hend⟩ := exists_walk_to_end codec object identity stop
    exact ⟨(bytes, stop) :: messages, final, .next hread hwalk, hend⟩
  · exact ⟨[], offset, .start, fun bytes stop hread => hnext ⟨bytes, stop, hread⟩⟩
termination_by object.size - offset
decreasing_by omega

-- ---------------------------------------------------------------------------
-- Enough turns
-- ---------------------------------------------------------------------------

def Finishes (x : Scan α β) : Prop := x.result ≠ .error .unfinished

def StoredObject.Returns (object : StoredObject) : Prop :=
  ∀ start stop, object.getRange start stop ≠ .error .unfinished

def Pool.Returns (pool : Pool) : Prop := ∀ reservation bytes, pool reservation bytes ≠ .error .unfinished

/-- The decoder returns, and pushing it a buffer until that is empty ends. -/
structure StreamCodec.Returns (codec : StreamCodec τ α) : Prop where
  bodyLength : ∀ bytes, codec.bodyLength bytes ≠ .error .unfinished
  decode : ∀ decoder bytes, codec.decode decoder bytes ≠ .error .unfinished
  finish : ∀ decoder, codec.finish decoder ≠ .error .unfinished
  progress : ∃ measure : τ → Bytes → Nat, ∀ decoder byte bytes next rest batch,
    codec.decode decoder (byte :: bytes) = .ok (next, rest, batch) → measure next rest < measure decoder (byte :: bytes)

theorem bind_ne_error {x : Except IpcError β} {f : β → Except IpcError γ} (hx : x ≠ .error e)
    (hf : ∀ b, x = .ok b → f b ≠ .error e) : x >>= f ≠ .error e := by
  cases x with
  | error e' => exact fun h => hx (by rw [Except.error.inj h])
  | ok b => exact hf b rfl

theorem finishes_pure (b : β) : Finishes (pure b : Scan α β) := by
  intro h
  cases h

theorem finishes_throw {e : IpcError} (h : e ≠ .unfinished) : Finishes (Emit.throw e : Scan α β) :=
  fun heq => h (Except.error.inj heq)

theorem finishes_lift {x : Except IpcError β} (h : x ≠ .error .unfinished) : Finishes (Emit.lift x : Scan α β) := h

theorem Finishes.bind {x : Scan α β} {f : β → Scan α γ} (hx : Finishes x)
    (hf : ∀ b, x.result = .ok b → Finishes (f b)) : Finishes (x >>= f) := by
  show (Emit.bind x f).result ≠ _
  unfold Emit.bind
  split
  · exact hf _ ‹_›
  · rename_i e he
    intro h
    obtain rfl : e = .unfinished := Except.error.inj h
    exact hx he

theorem readStreamMessage_finishes (hcodec : codec.Returns) (hobject : object.Returns) (offset : Nat)
    (identity : String) : Finishes (readStreamMessage codec object offset identity) := by
  intro h
  obtain ⟨-, hown | ⟨start, stop, hget⟩ | ⟨bytes, hbody⟩⟩ := (readStreamMessage_keeps codec object offset identity).error h
  · exact hown rfl
  · exact hobject start stop hget
  · exact hcodec.bodyLength bytes hbody

-- ---------------------------------------------------------------------------
-- Loops that end
-- ---------------------------------------------------------------------------

theorem inferMessages_finishes (hcodec : codec.Returns) (hobject : object.Returns) (identity : String)
    (hoffset : offset ≤ object.size) (hmessages : object.size - offset < messages) (decoder : τ) :
    Finishes (inferMessages codec object identity messages offset decoder) := by
  induction messages generalizing offset decoder with
  | zero => exact absurd hmessages (Nat.not_lt_zero _)
  | succ messages ih =>
    rw [inferMessages]
    refine (readStreamMessage_finishes hcodec hobject _ _).bind fun read hread => ?_
    cases read with
    | done => exact finishes_throw IpcError.noConfusion
    | safetyBoundExceeded => exact finishes_throw IpcError.noConfusion
    | message bytes stop =>
      have hadvances := message_advances hread
      refine (finishes_lift (hcodec.decode _ _)).bind fun decoded _ => ?_
      split
      · exact finishes_pure _
      · exact ih hadvances.2.1 (by omega) decoded.1

/-- Each message that the walk comes to is drained in fewer turns than these. -/
inductive Enough (codec : StreamCodec τ α) (object : StoredObject) (identity : String)
    (measure : τ → Bytes → Nat) (turns : Nat) : Nat → τ → Prop
  | intro : (∀ bytes stop, (readStreamMessage codec object offset identity).result = .ok (.message bytes stop) →
        measure decoder bytes < turns) →
      (∀ bytes stop, (readStreamMessage codec object offset identity).result = .ok (.message bytes stop) →
        ∀ drained next, Drains codec decoder bytes drained next →
          Enough codec object identity measure turns stop next) →
      Enough codec object identity measure turns offset decoder

theorem Drains.final_unique (h : Drains codec decoder bytes drained final)
    (h' : Drains codec decoder bytes drained' final') : final = final' := by
  obtain ⟨turns, h⟩ := h
  obtain ⟨turns', h'⟩ := h'
  have hmore := drain_more h turns'
  rw [Nat.add_comm, drain_more h' turns] at hmore
  cases hmore
  rfl

theorem exists_enough (codec : StreamCodec τ α) (object : StoredObject) (identity : String)
    (measure : τ → Bytes → Nat) (offset : Nat) (decoder : τ) :
    ∃ enough, ∀ turns, enough ≤ turns → Enough codec object identity measure turns offset decoder := by
  by_cases hnext : ∃ bytes stop, (readStreamMessage codec object offset identity).result = .ok (.message bytes stop)
  · obtain ⟨bytes, stop, hread⟩ := hnext
    have hadvances := message_advances hread
    have hsame : ∀ bytes' stop',
        (readStreamMessage codec object offset identity).result = .ok (.message bytes' stop') →
        bytes' = bytes ∧ stop' = stop := by
      intro bytes' stop' hread'
      cases hread.symm.trans hread'
      exact ⟨rfl, rfl⟩
    by_cases hdrains : ∃ drained next, Drains codec decoder bytes drained next
    · obtain ⟨drained, next, hdrains⟩ := hdrains
      obtain ⟨enough, henough⟩ := exists_enough codec object identity measure stop next
      refine ⟨max enough (measure decoder bytes + 1), fun turns hturns => .intro (fun bytes' stop' hread' => ?_)
        fun bytes' stop' hread' drained' next' hdrains' => ?_⟩
      · obtain ⟨rfl, rfl⟩ := hsame bytes' stop' hread'
        omega
      · obtain ⟨rfl, rfl⟩ := hsame bytes' stop' hread'
        obtain rfl := hdrains.final_unique hdrains'
        exact henough turns (by omega)
    · refine ⟨measure decoder bytes + 1, fun turns hturns => .intro (fun bytes' stop' hread' => ?_)
        fun bytes' stop' hread' drained' next' hdrains' => ?_⟩
      · obtain ⟨rfl, rfl⟩ := hsame bytes' stop' hread'
        exact hturns
      · obtain ⟨rfl, rfl⟩ := hsame bytes' stop' hread'
        exact absurd ⟨drained', next', hdrains'⟩ hdrains
  · exact ⟨0, fun turns _ => .intro (fun bytes stop hread => absurd ⟨bytes, stop, hread⟩ hnext)
      fun bytes stop hread => absurd ⟨bytes, stop, hread⟩ hnext⟩
termination_by object.size - offset
decreasing_by omega

theorem recordSample_finishes (sizes : ColumnSizes α) (memorySize : RecordBatch α → Nat) (batch : RecordBatch α)
    (sample : Sample) : recordSample sizes memorySize batch sample ≠ .error .unfinished := by
  have hcolumns : ∀ totals bytes, addColumnBytes totals bytes ≠ .error .unfinished := by
    intro totals
    induction totals with
    | nil => exact fun bytes h => nomatch h
    | cons total totals ih =>
      intro bytes
      cases bytes with
      | nil => exact fun h => nomatch h
      | cons byte bytes =>
        refine bind_ne_error (checkedAdd_finishes _ _ _) fun _ _ => bind_ne_error (ih bytes) fun _ _ h => nomatch h
  refine bind_ne_error (checkedAdd_finishes _ _ _) fun _ _ => bind_ne_error (checkedAdd_finishes _ _ _) fun _ _ => ?_
  exact bind_ne_error (hcolumns _ _) fun _ _ h => nomatch h

section Buffers

variable {measure : τ → Bytes → Nat}

theorem sampleBuffer_finishes {sizes : ColumnSizes α} {pool : Pool} {sample : Sample} {message reserved : Nat}
    (hcodec : codec.Returns)
    (hprogress : ∀ decoder byte bytes next rest batch, codec.decode decoder (byte :: bytes) = .ok (next, rest, batch) →
      measure next rest < measure decoder (byte :: bytes))
    (hpool : pool.Returns) {turns : Nat} {decoder : τ} {buffer : Bytes} (hturns : measure decoder buffer < turns) :
    sampleBuffer codec sizes pool message turns decoder sample reserved buffer ≠ .error .unfinished := by
  induction turns generalizing decoder sample reserved buffer with
  | zero => exact absurd hturns (Nat.not_lt_zero _)
  | succ turns ih =>
    cases buffer with
    | nil =>
      rw [sampleBuffer]
      rintro ⟨⟩
    | cons byte bytes =>
      rw [sampleBuffer]
      refine bind_ne_error (hcodec.decode _ _) ?_
      rintro ⟨next, rest, batch⟩ hdecode
      have hless := hprogress _ _ _ _ _ _ hdecode
      cases batch with
      | none => exact ih (by omega)
      | some batch =>
        refine bind_ne_error (checkedAdd_finishes _ _ _) fun _ _ => bind_ne_error (hpool _ _) fun _ _ => ?_
        exact bind_ne_error (recordSample_finishes _ _ _ _) fun _ _ => ih (by omega)

theorem inspectBuffer_finishes {batches : List BatchSummary} (hcodec : codec.Returns)
    (hprogress : ∀ decoder byte bytes next rest batch, codec.decode decoder (byte :: bytes) = .ok (next, rest, batch) →
      measure next rest < measure decoder (byte :: bytes))
    {turns : Nat} {decoder : τ} {buffer : Bytes} (hturns : measure decoder buffer < turns) :
    inspectBuffer codec turns decoder batches buffer ≠ .error .unfinished := by
  induction turns generalizing decoder batches buffer with
  | zero => exact absurd hturns (Nat.not_lt_zero _)
  | succ turns ih =>
    cases buffer with
    | nil =>
      rw [inspectBuffer]
      exact fun h => nomatch h
    | cons byte bytes =>
      rw [inspectBuffer]
      refine bind_ne_error (hcodec.decode _ _) ?_
      rintro ⟨next, rest, batch⟩ hdecode
      have hless := hprogress _ _ _ _ _ _ hdecode
      cases batch with
      | none => exact ih (by omega)
      | some batch => exact ih (by omega)

theorem inspectBuffer_drains {batches : List BatchSummary}
    (h : inspectBuffer codec turns decoder batches buffer = .ok (final, batches')) :
    ∃ drained, Drains codec decoder buffer drained final := by
  induction turns generalizing decoder batches buffer with
  | zero =>
    cases buffer with
    | nil =>
      rw [inspectBuffer] at h
      cases h
      exact ⟨[], drains_nil _⟩
    | cons => cases h
  | succ turns ih =>
    cases buffer with
    | nil =>
      rw [inspectBuffer] at h
      cases h
      exact ⟨[], drains_nil _⟩
    | cons byte bytes =>
      obtain ⟨⟨next, rest, batch⟩, hdecode, h⟩ := Lists.bind_eq_ok.mp h
      cases batch with
      | none =>
        obtain ⟨drained, hdrained⟩ := ih h
        exact ⟨_, hdrained.step hdecode⟩
      | some batch =>
        obtain ⟨drained, hdrained⟩ := ih h
        exact ⟨_, hdrained.step hdecode⟩

end Buffers

theorem inspectMessages_finishes {measure : τ → Bytes → Nat} (hcodec : codec.Returns) (hobject : object.Returns)
    (hprogress : ∀ decoder byte bytes next rest batch, codec.decode decoder (byte :: bytes) = .ok (next, rest, batch) →
      measure next rest < measure decoder (byte :: bytes))
    (henough : Enough codec object identity measure turns offset decoder) (hoffset : offset ≤ object.size)
    (hmessages : object.size - offset < messages) (countRows : Bool) (batches : List BatchSummary) :
    Finishes (inspectMessages codec object identity countRows turns messages offset decoder batches) := by
  induction henough generalizing messages batches with
  | @intro offset decoder hdrained _ ih =>
    cases messages with
    | zero => exact absurd hmessages (Nat.not_lt_zero _)
    | succ messages =>
      rw [inspectMessages]
      split
      · refine (readStreamMessage_finishes hcodec hobject _ _).bind fun read hread => ?_
        cases read with
        | done => exact finishes_pure _
        | safetyBoundExceeded => exact finishes_throw IpcError.noConfusion
        | message bytes stop =>
          have hadvances := message_advances hread
          refine (finishes_lift (inspectBuffer_finishes hcodec hprogress (hdrained bytes stop hread))).bind ?_
          rintro ⟨next, batches'⟩ hinspected
          obtain ⟨drained, hdrains⟩ := inspectBuffer_drains hinspected
          exact ih bytes stop hread drained next hdrains hadvances.2.1 (by omega) batches'
      · exact finishes_pure _

theorem sampleMessages_finishes {measure : τ → Bytes → Nat} {sizes : ColumnSizes α} {pool : Pool}
    (hcodec : codec.Returns) (hobject : object.Returns) (hpool : pool.Returns)
    (hprogress : ∀ decoder byte bytes next rest batch, codec.decode decoder (byte :: bytes) = .ok (next, rest, batch) →
      measure next rest < measure decoder (byte :: bytes))
    (henough : Enough codec object identity measure turns offset decoder) (hoffset : offset ≤ object.size)
    (hmessages : object.size - offset < messages) (sample : Sample) (represented : Nat) :
    Finishes (sampleMessages codec sizes object pool identity turns messages offset decoder sample represented) := by
  induction henough generalizing messages sample represented with
  | @intro offset decoder hdrained _ ih =>
    cases messages with
    | zero => exact absurd hmessages (Nat.not_lt_zero _)
    | succ messages =>
      rw [sampleMessages]
      refine (readStreamMessage_finishes hcodec hobject _ _).bind fun read hread => ?_
      cases read with
      | done => exact finishes_pure _
      | safetyBoundExceeded => exact finishes_pure _
      | message bytes stop =>
        have hadvances := message_advances hread
        refine (finishes_lift (hpool _ _)).bind fun _ _ => ?_
        refine (finishes_lift (checkedAdd_finishes _ _ _)).bind fun represented _ => ?_
        refine (finishes_lift (sampleBuffer_finishes hcodec hprogress hpool (hdrained bytes stop hread))).bind ?_
        rintro ⟨next, sample'⟩ hsampled
        obtain ⟨drained, hdrains, -⟩ := sampleBuffer_ok hsampled
        dsimp only
        split
        · exact finishes_pure _
        · exact ih bytes stop hread drained next hdrains hadvances.2.1 (by omega) sample' represented

theorem totalRows_finishes (total : Nat) (batches : List BatchSummary) :
    totalRows total batches ≠ .error .unfinished := by
  induction batches generalizing total with
  | nil => exact fun h => nomatch h
  | cons batch batches ih => exact bind_ne_error (checkedAdd_finishes _ _ _) fun total _ => ih total

theorem summarize_finishes (object : StoredObject) (countRows : Bool) (decoder : τ) (batches : List BatchSummary) :
    summarize codec object countRows decoder batches ≠ .error .unfinished := by
  unfold summarize
  split
  · simp
  · split
    · intro h
      cases htotal : totalRows 0 batches with
      | ok rows =>
        rw [htotal] at h
        cases h
      | error e =>
        rw [htotal] at h
        exact totalRows_finishes 0 batches (htotal.trans (by rw [Except.error.inj h]))
    · exact fun h => nomatch h

theorem inspectStream_finishes (hcodec : codec.Returns)
    (h : Finishes (inspectMessages codec object identity countRows turns turns 0 codec.new [])) :
    Finishes (inspectStream codec object identity countRows turns) := by
  refine h.bind fun inspected _ => ?_
  dsimp only
  split
  · exact (finishes_lift (hcodec.finish _)).bind fun _ _ => finishes_lift (summarize_finishes _ _ _ _)
  · exact finishes_lift (summarize_finishes _ _ _ _)

theorem sampleStream_finishes {sizes : ColumnSizes α} {pool : Pool} (hcodec : codec.Returns)
    (h : Finishes (sampleMessages codec sizes object pool identity turns turns 0 codec.new sample 0)) :
    Finishes (sampleStream codec sizes object pool identity turns sample) := by
  refine h.bind fun sampled _ => ?_
  split
  · exact finishes_pure _
  · dsimp only
    split
    · exact (finishes_lift (hcodec.finish _)).bind fun _ _ => finishes_pure _
    · exact finishes_pure _

/-- A walk tiles the object as far as it goes and asks for nothing that is too
long or not there; some walk is the last; and the loops along it end. -/
theorem stream_walks_end (codec : StreamCodec τ α) (object : StoredObject) (identity : String) :
    (∀ messages final, Walk codec object identity 0 messages final →
      Tiles object.size 0 messages final ∧ messages.length ≤ object.size ∧
      (∀ content, object.Serves content → (messages.map Prod.fst).flatten = content.take final) ∧
      Bounded object (readStreamMessage codec object final identity).emitted) ∧
    (∃ messages final, Walk codec object identity 0 messages final ∧
      ∀ bytes stop, (readStreamMessage codec object final identity).result ≠ .ok (.message bytes stop)) ∧
    (codec.Returns → object.Returns → ∃ enough, ∀ turns, enough ≤ turns →
      Finishes (inferStreamSchema codec object identity turns) ∧
      (∀ countRows, Finishes (inspectStream codec object identity countRows turns)) ∧
      ∀ pool : Pool, pool.Returns → ∀ (sizes : ColumnSizes α) sample,
        Finishes (sampleStream codec sizes object pool identity turns sample)) := by
  refine ⟨fun messages final hwalk => ?_, exists_walk_to_end codec object identity 0, fun hcodec hobject => ?_⟩
  · have hlength := hwalk.tiles.length_le (Nat.zero_le _)
    refine ⟨hwalk.tiles, by omega, fun content hserves => by simpa using hwalk.content hserves, ?_⟩
    exact ((readStreamMessage_keeps codec object final identity).mono (fun _ _ h => h.1) fun _ _ h => h.1).emitted
  · obtain ⟨measure, hprogress⟩ := hcodec.progress
    obtain ⟨enough, henough⟩ := exists_enough codec object identity measure 0 codec.new
    refine ⟨max enough (object.size + 1), fun turns hturns => ?_⟩
    have henough := henough turns (by omega)
    have hmessages : object.size - 0 < turns := by omega
    refine ⟨inferMessages_finishes hcodec hobject identity (Nat.zero_le _) hmessages _, fun countRows => ?_,
      fun pool hpool sizes sample => ?_⟩
    · exact inspectStream_finishes hcodec (inspectMessages_finishes hcodec hobject hprogress henough
        (Nat.zero_le _) hmessages countRows [])
    · exact sampleStream_finishes hcodec (sampleMessages_finishes hcodec hobject hpool hprogress henough
        (Nat.zero_le _) hmessages sample 0)

theorem integersStreamCodec_decode_returns (rest : Rest) (bytes : Bytes) :
    integersStreamCodec.decode rest bytes ≠ .error .unfinished := by
  show decodeWith pushInteger rest bytes ≠ _
  induction bytes generalizing rest with
  | nil => exact fun h => nomatch h
  | cons byte bytes ih =>
    refine bind_ne_error ?_ fun pushed _ => ?_
    · cases rest with
      | nil => exact fun h => nomatch h
      | cons expected rest =>
        rw [pushInteger]
        split <;> exact fun h => nomatch h
    · split
      · exact ih _
      · exact fun h => nomatch h

theorem integersStreamCodec_returns : integersStreamCodec.Returns where
  bodyLength metadata := by
    simp only [integersStreamCodec]
    split <;> exact fun h => nomatch h
  decode := integersStreamCodec_decode_returns
  finish rest := by
    simp only [integersStreamCodec]
    split <;> exact fun h => nomatch h
  progress := ⟨fun _ bytes => bytes.length, fun _ _ _ _ _ _ h => Nat.lt_succ_of_le (decodeWith_shortens h)⟩

def integersMessages : List (Bytes × Nat) :=
  [(schemaMessage, 136), (firstMessage, 280), (secondMessage, 424), (endMarker, 432)]

set_option maxRecDepth 4000 in
theorem stream_walks_end_integers :
    Tiles 432 0 integersMessages 432 ∧ (integersMessages.map Prod.fst).flatten = integersStream.take 432 ∧
      ∃ enough, ∀ turns, enough ≤ turns →
        Finishes (inferStreamSchema integersStreamCodec integersStreamObject "integers.arrows" turns) ∧
        Finishes (inspectStream integersStreamCodec integersStreamObject "integers.arrows" true turns) ∧
        Finishes (sampleStream integersStreamCodec integersSizes integersStreamObject granting "integers.arrows" turns
          ⟨0, 0, [0]⟩) := by
  obtain ⟨hwalks, -, hloops⟩ := stream_walks_end integersStreamCodec integersStreamObject "integers.arrows"
  have hwalk : Walk integersStreamCodec integersStreamObject "integers.arrows" 0 integersMessages 432 :=
    .next (by rfl) (.next (by rfl) (.next (by rfl) (.next (by rfl) .start)))
  have hholds : integersStreamObject.Holds integersStream :=
    StoredObject.of_holds (by decide) (by simp)
  obtain ⟨htiles, -, hcontent, -⟩ := hwalks _ _ hwalk
  obtain ⟨enough, henough⟩ := hloops integersStreamCodec_returns fun start stop => by
    simp only [integersStreamObject, StoredObject.of]
    split <;> rintro ⟨⟩
  refine ⟨htiles, hcontent _ ⟨hholds.size, hholds.getRange⟩, enough, fun turns h => ?_⟩
  obtain ⟨hinfer, hinspect, hsample⟩ := henough turns h
  exact ⟨hinfer, hinspect true, hsample granting (fun _ _ h => by cases h) _ _⟩

end SilkChiffon.Arrow.Ipc
