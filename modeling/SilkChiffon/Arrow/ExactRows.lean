import SilkChiffon.Arrow.SampleStatistics
import SilkChiffon.Arrow.StreamMessages

/-!
# Exact row counts

A sample that went to the end of the only object has counted the rows a scan
emits: of a file whatever byte ranges it is split into, and of a stream
whatever chunks it comes in.
-/

namespace SilkChiffon.Arrow.Ipc

variable {α σ τ : Type}

def rowCount (batches : List (RecordBatch α)) : Nat := (batches.flatMap (·.rows)).length

@[simp] theorem rowCount_append (batches batches' : List (RecordBatch α)) :
    rowCount (batches ++ batches') = rowCount batches + rowCount batches' := by
  simp [rowCount]

@[simp] theorem rowCount_nil : rowCount ([] : List (RecordBatch α)) = 0 := rfl

@[simp] theorem rowCount_singleton (batch : RecordBatch α) : rowCount [batch] = batch.rows.length := by
  simp [rowCount]

theorem rowCount_perm {batches batches' : List (RecordBatch α)} (h : batches.Perm batches') :
    rowCount batches = rowCount batches' := (h.flatMap_right _).length_eq

theorem rowCount_flatMap_congr {l : List β} {f g : β → List (RecordBatch α)}
    (h : ∀ b ∈ l, rowCount (f b) = rowCount (g b)) : rowCount (l.flatMap f) = rowCount (l.flatMap g) := by
  induction l with
  | nil => rfl
  | cons b l ih =>
    rw [List.forall_mem_cons] at h
    simp [h.1, ih h.2]

theorem recordSample_ok {sizes : ColumnSizes α} {memorySize : RecordBatch α → Nat}
    (h : recordSample sizes memorySize batch sample = .ok (sample', targetReached)) :
    sample'.rows = sample.rows + batch.rows.length ∧ targetReached = decide (sampleRows ≤ sample'.rows) := by
  obtain ⟨rows, hrows, h⟩ := Lists.bind_eq_ok.mp h
  obtain ⟨decodedBytes, -, h⟩ := Lists.bind_eq_ok.mp h
  obtain ⟨columnBytes, -, h⟩ := Lists.bind_eq_ok.mp h
  cases h
  exact ⟨(checkedAdd_ok hrows).1, rfl⟩

-- ---------------------------------------------------------------------------
-- Pushed bytes
-- ---------------------------------------------------------------------------

/-- Bytes pushed until they are used up, and the batches that came of them. -/
def drain (codec : StreamCodec τ α) : Nat → τ → Bytes → Except IpcError (τ × List (RecordBatch α))
  | _, decoder, [] => .ok (decoder, [])
  | 0, _, _ :: _ => .error .unfinished
  | turns + 1, decoder, byte :: bytes => do
    let (decoder, buffer, batch) ← codec.decode decoder (byte :: bytes)
    let (decoder, batches) ← drain codec turns decoder buffer
    .ok (decoder, batch.toList ++ batches)

def Drains (codec : StreamCodec τ α) (decoder : τ) (bytes : Bytes) (batches : List (RecordBatch α))
    (final : τ) : Prop :=
  ∃ turns, drain codec turns decoder bytes = .ok (final, batches)

/-- Bytes can be pushed in any pieces. -/
def StreamCodec.Incremental (codec : StreamCodec τ α) : Prop :=
  ∀ decoder a b first mid second final, Drains codec decoder a first mid →
    Drains codec mid b second final → Drains codec decoder (a ++ b) (first ++ second) final

variable {streamCodec : StreamCodec τ α}

theorem drains_nil (decoder : τ) : Drains streamCodec decoder [] [] decoder := ⟨0, rfl⟩

theorem Drains.step (hdecode : streamCodec.decode decoder (byte :: bytes) = .ok (next, buffer, batch))
    (h : Drains streamCodec next buffer drained final) :
    Drains streamCodec decoder (byte :: bytes) (batch.toList ++ drained) final := by
  obtain ⟨turns, h⟩ := h
  refine ⟨turns + 1, ?_⟩
  exact Lists.bind_eq_ok.mpr ⟨_, hdecode, Lists.bind_eq_ok.mpr ⟨_, h, rfl⟩⟩

theorem drain_more (h : drain streamCodec turns decoder bytes = .ok drained) (more : Nat) :
    drain streamCodec (turns + more) decoder bytes = .ok drained := by
  induction turns generalizing decoder bytes drained with
  | zero =>
    cases bytes with
    | nil => simpa [drain] using h
    | cons => cases h
  | succ turns ih =>
    cases bytes with
    | nil => simpa [drain] using h
    | cons byte bytes =>
      obtain ⟨⟨next, buffer, batch⟩, hdecode, h⟩ := Lists.bind_eq_ok.mp h
      obtain ⟨rest, hrest, h⟩ := Lists.bind_eq_ok.mp h
      rw [Nat.add_right_comm]
      exact Lists.bind_eq_ok.mpr ⟨_, hdecode, Lists.bind_eq_ok.mpr ⟨_, ih hrest, h⟩⟩

theorem Drains.unique (h : Drains streamCodec decoder bytes drained final)
    (h' : Drains streamCodec decoder bytes drained' final') : drained = drained' := by
  obtain ⟨turns, h⟩ := h
  obtain ⟨turns', h'⟩ := h'
  have hmore := drain_more h turns'
  rw [Nat.add_comm, drain_more h' turns] at hmore
  cases hmore
  rfl

-- ---------------------------------------------------------------------------
-- Scans of a stream
-- ---------------------------------------------------------------------------

theorem projectBatch_rows (h : projectBatch batch projection = .ok projected) :
    projected.rows.length = batch.rows.length := by
  cases projection with
  | none =>
    cases h
    rfl
  | some projection =>
    have hrows := RecordBatch.project_ok (Lists.mapError_eq_ok.mp h)
    rw [hrows, List.length_map]

variable {pool : Pool} {projection : Option (List Nat)}

theorem scanBuffer_ensures (buffer : Bytes) (decoder : τ) :
    (scanBuffer streamCodec pool canonicalUrl projection expectedSchema chunk turns decoder
      schemaChecked reserved buffer).Ensures
      (fun events scanned => ∃ drained, Drains streamCodec decoder buffer drained scanned.1 ∧
        rowCount (batches events) = rowCount drained)
      fun _ _ => True := by
  induction turns generalizing buffer decoder schemaChecked reserved with
  | zero =>
    cases buffer with
    | nil =>
      rw [scanBuffer]
      exact Emit.ensures_pure ⟨[], drains_nil decoder, rfl⟩
    | cons byte bytes => exact Emit.ensures_throw trivial
  | succ turns ih =>
    cases buffer with
    | nil =>
      rw [scanBuffer]
      exact Emit.ensures_pure ⟨[], drains_nil decoder, rfl⟩
    | cons byte bytes =>
      rw [scanBuffer]
      refine Emit.ensures_lift_bind ?_ fun _ _ => trivial
      rintro ⟨next, buffer, batch⟩ hdecode
      refine Emit.ensures_lift_bind (fun schemaChecked _ => ?_) fun _ _ => trivial
      cases batch with
      | none =>
        refine (ih buffer next).mono (fun events scanned h => ?_) fun _ _ h => h
        obtain ⟨drained, hdrained, hrows⟩ := h
        exact ⟨drained, hdrained.step hdecode, hrows⟩
      | some batch =>
        refine Emit.ensures_lift_bind (fun projected hproject => ?_) fun _ _ => trivial
        refine Emit.ensures_lift_bind (fun size _ => ?_) fun _ _ => trivial
        refine Emit.ensures_lift_bind (fun _ _ => ?_) fun _ _ => trivial
        refine Emit.ensures_emit_bind (Emit.ensures_lift_bind (fun _ _ => ?_) fun _ _ => trivial)
        refine (ih buffer next).mono (fun events scanned h => ?_) fun _ _ h => h
        obtain ⟨drained, hdrained, hrows⟩ := h
        refine ⟨_, hdrained.step hdecode, ?_⟩
        have hevents : batches (.batch projected :: events) = [projected] ++ batches events := rfl
        rw [hevents, rowCount_append, rowCount_append, hrows, rowCount_singleton,
          projectBatch_rows hproject, Option.toList_some, rowCount_singleton]

theorem scanChunks_ensures (hcodec : streamCodec.Incremental) (decoder : τ) (index : Nat) :
    (scanChunks streamCodec pool canonicalUrl projection expectedSchema turns index decoder
      schemaChecked chunks).Ensures
      (fun events scanned => ∃ (contents : List Bytes) (drained : List (RecordBatch α)),
        chunks = contents.map Except.ok ∧
        Drains streamCodec decoder contents.flatten drained scanned ∧
        rowCount (batches events) = rowCount drained)
      fun _ _ => True := by
  induction chunks generalizing decoder index schemaChecked with
  | nil => exact Emit.ensures_pure ⟨[], [], rfl, drains_nil decoder, rfl⟩
  | cons chunk chunks ih =>
    rw [scanChunks]
    refine Emit.ensures_lift_bind (fun content hcontent => ?_) fun _ _ => trivial
    refine Emit.ensures_lift_bind (fun _ _ => ?_) fun _ _ => trivial
    refine (scanBuffer_ensures content decoder).bind ?_
    rintro events ⟨mid, schemaChecked⟩ ⟨first, hfirst, hrows⟩
    refine (ih mid (index + 1)).mono (fun events' scanned h => ?_) fun _ _ h => h
    obtain ⟨contents, second, rfl, hsecond, hrows'⟩ := h
    refine ⟨content :: contents, first ++ second, by simp [hcontent], ?_, by simp [hrows, hrows']⟩
    exact hcodec _ _ _ _ _ _ _ hfirst hsecond

-- ---------------------------------------------------------------------------
-- Samples of a stream
-- ---------------------------------------------------------------------------

structure StoredObject.Holds (object : StoredObject) (content : Bytes) : Prop where
  size : object.size = content.length
  getRange : ∀ start stop bytes, object.getRange start stop = .ok bytes →
    bytes = (content.drop start).take (stop - start)
  stream : ∀ chunks : List Bytes, object.stream = chunks.map .ok → chunks.flatten = content
  refusesEmpty : object.RefusesEmpty

variable {object : StoredObject} {content : Bytes}

theorem openStream_ensures (hcodec : streamCodec.Incremental) (hobject : object.Holds content) :
    (openStream streamCodec object pool range canonicalUrl projection expectedSchema turns).Ensures
      (fun events _ => ∃ drained final, Drains streamCodec streamCodec.new content drained final ∧
        rowCount (batches events) = rowCount drained)
      fun _ _ => True := by
  rw [openStream]
  split
  · exact Emit.ensures_throw trivial
  · refine (scanChunks_ensures hcodec streamCodec.new 0).bind fun events final h => ?_
    obtain ⟨contents, drained, hchunks, hdrained, hrows⟩ := h
    rw [hobject.stream contents hchunks] at hdrained
    exact Emit.ensures_lift (fun _ _ => ⟨drained, final, hdrained, by simpa using hrows⟩) fun _ _ => trivial

theorem sampleBuffer_ok {sizes : ColumnSizes α} {decoder : τ}
    (h : sampleBuffer streamCodec sizes pool message turns decoder sample reserved buffer =
      .ok (final, sample')) :
    ∃ drained, Drains streamCodec decoder buffer drained final ∧
      sample'.rows = sample.rows + rowCount drained := by
  induction turns generalizing decoder sample reserved buffer with
  | zero =>
    cases buffer with
    | nil =>
      rw [sampleBuffer] at h
      cases h
      exact ⟨[], drains_nil _, rfl⟩
    | cons => cases h
  | succ turns ih =>
    cases buffer with
    | nil =>
      rw [sampleBuffer] at h
      cases h
      exact ⟨[], drains_nil _, rfl⟩
    | cons byte bytes =>
      obtain ⟨⟨next, buffer, batch⟩, hdecode, h⟩ := Lists.bind_eq_ok.mp h
      cases batch with
      | none =>
        obtain ⟨drained, hdrained, hrows⟩ := ih h
        exact ⟨drained, hdrained.step hdecode, hrows⟩
      | some batch =>
        obtain ⟨reserved, -, h⟩ := Lists.bind_eq_ok.mp h
        obtain ⟨⟨⟩, -, h⟩ := Lists.bind_eq_ok.mp h
        obtain ⟨⟨recorded, targetReached⟩, hrecorded, h⟩ := Lists.bind_eq_ok.mp h
        obtain ⟨drained, hdrained, hrows⟩ := ih h
        refine ⟨_, hdrained.step hdecode, ?_⟩
        rw [hrows, (recordSample_ok hrecorded).1, rowCount_append, Option.toList_some,
          rowCount_singleton, Nat.add_assoc]

/-- What a run over the messages from `offset` on has counted, if it went to
the end: all rows of the bytes from there. -/
theorem sampleMessages_ensures {sizes : ColumnSizes α} (hcodec : streamCodec.Incremental)
    (hobject : object.Holds content) (identity : String) :
    (sampleMessages streamCodec sizes object pool identity turns messages offset decoder sample
      represented).Ensures
      (fun _ sampled => ∀ final run, sampled = some (final, run) → run.reachedEof = true →
        ∃ drained, Drains streamCodec decoder (content.drop offset) drained final ∧
          run.sample.rows = sample.rows + rowCount drained)
      fun _ _ => True := by
  induction messages generalizing offset decoder sample represented with
  | zero => exact Emit.ensures_throw trivial
  | succ messages ih =>
    rw [sampleMessages]
    refine ((readStreamMessage_keeps streamCodec object offset identity).mono (fun _ _ h => h.2)
      fun _ _ _ => trivial).bind fun _ read hread => ?_
    cases read with
    | done =>
      refine Emit.ensures_pure fun final run h _ => ?_
      cases h
      obtain rfl : offset = object.size := hread
      exact ⟨[], by simpa [hobject.size] using drains_nil decoder, rfl⟩
    | safetyBoundExceeded => exact Emit.ensures_pure fun _ _ h => nomatch h
    | message bytes stop =>
      obtain ⟨hlt, hstop, hbytes⟩ := hread
      obtain rfl := hobject.getRange _ _ _ hbytes
      refine Emit.ensures_lift_bind (fun _ _ => ?_) fun _ _ => trivial
      refine Emit.ensures_lift_bind (fun represented _ => ?_) fun _ _ => trivial
      refine Emit.ensures_lift_bind ?_ fun _ _ => trivial
      rintro ⟨next, sample'⟩ hsampled
      obtain ⟨first, hfirst, hrows⟩ := sampleBuffer_ok hsampled
      dsimp only
      split
      · refine Emit.ensures_pure fun final run h hend => ?_
        cases h
        have hend : object.size ≤ stop := of_decide_eq_true hend
        obtain rfl := Nat.le_antisymm hstop hend
        rw [hobject.size, ← List.length_drop, List.take_length] at hfirst
        exact ⟨first, hfirst, hrows⟩
      · refine ih.mono (fun _ sampled h final run hrun hend => ?_) fun _ _ h => h
        obtain ⟨second, hsecond, hrows'⟩ := h final run hrun hend
        refine ⟨first ++ second, ?_, by rw [hrows', hrows, rowCount_append, Nat.add_assoc]⟩
        have hall := hcodec _ _ _ _ _ _ _ hfirst hsecond
        have hdrop : content.drop stop = (content.drop offset).drop (stop - offset) := by
          rw [List.drop_drop, Nat.add_sub_cancel' (Nat.le_of_lt hlt)]
        rwa [hdrop, List.take_append_drop] at hall

-- ---------------------------------------------------------------------------
-- One object, one footer
-- ---------------------------------------------------------------------------

def storedFooter (codec : FileCodec σ α) (object : StoredObject) : Except IpcError Footer := do
  let trailer ← object.getRange (object.size - 10) object.size
  let footerLen ← codec.readFooterLength trailer
  let bytes ← object.getRange (object.size - 10 - footerLen.toNat) (object.size - 10)
  codec.rootAsFooter bytes

structure FileLayout.Of (layout : FileLayout size) (footer : Footer) : Prop where
  schema : footer.schema = some layout.schema
  version : layout.version = footer.version
  dictionaries : layout.dictionaries = footer.dictionaries.getD []
  recordBatches : layout.recordBatches = footer.recordBatches.getD []

theorem fileLayout_ok (h : fileLayout size identity footer = .ok layout) : layout.Of footer := by
  unfold fileLayout at h
  split at h
  · cases h
  · dsimp only at h
    split at h
    · cases h
    · obtain rfl := Except.ok.inj h
      exact ⟨‹_›, rfl, rfl, rfl⟩

variable {codec : FileCodec σ α}

theorem getRange_returns (start stop : Nat) :
    (getRange object start stop : Scan α Bytes).Ensures
      (fun events bytes => object.getRange start stop = .ok bytes ∧ batches events = [])
      fun _ _ => True := by
  rw [getRange]
  exact Emit.ensures_emit_bind (Emit.ensures_lift (fun _ h => ⟨h, rfl⟩) fun _ _ => trivial)

theorem readFileLayout_ensures (identity : String) :
    (readFileLayout codec object pool identity).Ensures
      (fun events layout => batches events = [] ∧
        ∃ footer, storedFooter codec object = .ok footer ∧ layout.Of footer)
      fun _ _ => True := by
  rw [readFileLayout]
  split
  · exact Emit.ensures_throw trivial
  · refine (getRange_returns _ _).bind ?_
    rintro _ trailer ⟨htrailer, hevents⟩
    split
    · exact Emit.ensures_throw trivial
    · refine Emit.ensures_lift_bind (fun footerLen hfooterLen => ?_) fun _ _ => trivial
      split
      · exact Emit.ensures_throw trivial
      · split
        · exact Emit.ensures_throw trivial
        · refine Emit.ensures_lift_bind (fun _ _ => ?_) fun _ _ => trivial
          refine (getRange_returns _ _).bind ?_
          rintro _ bytes ⟨hbytes, hevents'⟩
          refine Emit.ensures_lift_bind (fun footer hfooter => ?_) fun _ _ => trivial
          refine Emit.ensures_lift (fun layout hlayout =>
            ⟨by simp [hevents, hevents'], footer, ?_, fileLayout_ok hlayout⟩) fun _ _ => trivial
          exact Lists.bind_eq_ok.mpr ⟨_, htrailer, Lists.bind_eq_ok.mpr ⟨_, hfooterLen,
            Lists.bind_eq_ok.mpr ⟨_, hbytes, hfooter⟩⟩⟩

/-- The layout, if another scan has it, is one that was read from the object. -/
def Cached (codec : FileCodec σ α) (object : StoredObject) (cell : Option (FileLayout object.size)) : Prop :=
  ∀ layout ∈ cell, ∃ pool identity, (readFileLayout codec object pool identity).result = .ok layout

def loadDecoder (codec : FileCodec σ α) (object : StoredObject) : σ → List Block → Except IpcError σ
  | decoder, [] => .ok decoder
  | decoder, block :: blocks => do
    let data ← blockContent object block
    let decoder ← codec.readDictionary decoder block data
    loadDecoder codec object decoder blocks

theorem loadDictionaries_decoder
    (h : loadDictionaries codec object decoder dictionaryBytes blocks = .ok loaded) :
    loadDecoder codec object decoder blocks = .ok loaded.1 := by
  induction blocks generalizing decoder dictionaryBytes with
  | nil =>
    cases h
    rfl
  | cons block blocks ih =>
    obtain ⟨total, -, h⟩ := Lists.bind_eq_ok.mp h
    obtain ⟨data, hdata, h⟩ := Lists.bind_eq_ok.mp h
    obtain ⟨next, hnext, h⟩ := Lists.bind_eq_ok.mp h
    exact Lists.bind_eq_ok.mpr ⟨_, hdata, Lists.bind_eq_ok.mpr ⟨_, hnext, ih h⟩⟩

def footerDecoder (codec : FileCodec σ α) (footer : Footer) (projection : Option (List Nat)) : σ :=
  let decoder := codec.new (footer.schema.getD []) footer.version
  match projection with
  | none => decoder
  | some projection => codec.withProjection decoder projection

theorem FileLayout.Of.fileDecoder {layout : FileLayout size} (h : layout.Of footer)
    (projection : Option (List Nat)) :
    fileDecoder codec layout projection = footerDecoder codec footer projection := by
  unfold Ipc.fileDecoder footerDecoder
  rw [h.schema, h.version]
  rfl

/-- What a scan that went through did with the object's footer. -/
structure Scanned (codec : FileCodec σ α) (object : StoredObject) (footer : Footer) (decoder : σ)
    (projection : Option (List Nat)) (range : Option FileRange) (emitted : List (RecordBatch α)) :
    Prop where
  stored : storedFooter codec object = .ok footer
  within : ∀ block ∈ footer.recordBatches.getD [], block.Within object.size
  loads : loadDecoder codec object (footerDecoder codec footer projection)
    (footer.dictionaries.getD []) = .ok decoder
  decodes : ∀ block ∈ (footer.recordBatches.getD []).filter fun block => range.all (·.owns block),
    ∃ decoded, decodeBlock codec object decoder block = .ok decoded
  emits : emitted = ((footer.recordBatches.getD []).filter fun block => range.all (·.owns block)).flatMap
    (yielded codec object decoder)

theorem openFile_scanned {cell : Option (FileLayout object.size)} (hcell : Cached codec object cell) :
    (openFile codec object pool cell range canonicalUrl projection expectedSchema).Ensures
      (fun events _ => ∃ footer decoder,
        Scanned codec object footer decoder projection range (batches events))
      fun _ _ => True := by
  have hlayout : ∀ layout : FileLayout object.size,
      (∃ footer, storedFooter codec object = .ok footer ∧ layout.Of footer) →
      (openFile codec object pool (some layout) range canonicalUrl projection expectedSchema).Ensures
        (fun events _ => ∃ footer decoder,
          Scanned codec object footer decoder projection range (batches events))
        fun _ _ => True := by
    rintro layout ⟨footer, hfooter, hof⟩
    refine (openFile_ensures layout range canonicalUrl projection expectedSchema).mono
      (fun events _ h => ?_) fun _ _ _ => trivial
    obtain ⟨-, -, loaded, hload, hreadable, hbatches⟩ := h
    have hblocks := hof.recordBatches
    have hload := loadDictionaries_decoder hload
    rw [hof.fileDecoder, hof.dictionaries] at hload
    rw [ownedBlocks, hblocks] at hreadable hbatches
    refine ⟨footer, loaded.1, hfooter, fun block hblock => ?_, hload, fun block hblock => ?_, hbatches⟩
    · exact layout.within block (List.mem_append_right _ (hblocks ▸ hblock))
    · obtain ⟨decoded, hdecode, -⟩ := (hreadable block hblock).decodes
      exact ⟨decoded, hdecode⟩
  cases cell with
  | some layout =>
    obtain ⟨pool', identity, hread⟩ := hcell layout rfl
    exact hlayout layout ((readFileLayout_ensures identity).ok hread).2
  | none =>
    refine (readFileLayout_ensures canonicalUrl).bind ?_
    rintro events layout ⟨hevents, h⟩
    refine (hlayout layout h).mono (fun events' _ h => ?_) fun _ _ h => h
    simpa [hevents] using h

-- ---------------------------------------------------------------------------
-- Samples of a file
-- ---------------------------------------------------------------------------

theorem yielded_eq (h : decodeBlock codec object decoder block = .ok decoded) :
    yielded codec object decoder block = decoded.toList := by
  rw [yielded, h]
  cases decoded <;> rfl

theorem readBlock_returns (h : block.Within size) :
    (readBlock object block : Scan α Bytes).Ensures
      (fun _ bytes => blockContent object block = .ok bytes) fun _ _ => True := by
  rw [readBlock_within h]
  exact (getRange_returns _ _).mono (fun _ _ h => h.1) fun _ _ h => h

theorem sampleDictionaries_ensures (h : ∀ block ∈ blocks, block.Within size) (decoder : σ)
    (represented : Nat) (index : Nat) :
    (sampleDictionaries codec object pool index decoder represented blocks).Ensures
      (fun _ sampled => ∀ final bytes, sampled = some (final, bytes) →
        loadDecoder codec object decoder blocks = .ok final)
      fun _ _ => True := by
  induction blocks generalizing decoder represented index with
  | nil =>
    refine Emit.ensures_pure fun final bytes h => ?_
    cases h
    rfl
  | cons block blocks ih =>
    rw [List.forall_mem_cons] at h
    rw [sampleDictionaries]
    refine Emit.ensures_lift_bind (fun reserved _ => ?_) fun _ _ => trivial
    cases reserved with
    | safetyBoundExceeded => exact Emit.ensures_pure fun _ _ h => nomatch h
    | reserved size =>
      refine (readBlock_returns h.1).bind fun _ data hdata => ?_
      refine Emit.ensures_lift_bind (fun represented _ => ?_) fun _ _ => trivial
      refine Emit.ensures_lift_bind (fun next hnext => ?_) fun _ _ => trivial
      refine (ih h.2 next represented (index + 1)).mono (fun _ sampled h final bytes hsampled => ?_)
        fun _ _ h => h
      exact Lists.bind_eq_ok.mpr ⟨_, hdata, Lists.bind_eq_ok.mpr ⟨_, hnext, h final bytes hsampled⟩⟩

/-- A block's rows are counted, and the end stays in sight if this is the last
block or the target is still ahead. -/
theorem sampleBatch_ok {sizes : ColumnSizes α} (heof : run.reachedEof = true)
    (hrows : run.sample.rows < sampleRows)
    (h : sampleBatch codec sizes pool index count size run represented decoded = .ok run') :
    run'.sample.rows = run.sample.rows + rowCount decoded.toList ∧
    (run'.reachedEof = true ↔ run'.sample.rows < sampleRows ∨ index + 1 = count) := by
  cases decoded with
  | none =>
    cases h
    exact ⟨rfl, by simp [heof, hrows]⟩
  | some batch =>
    obtain ⟨reserved, -, h⟩ := Lists.bind_eq_ok.mp h
    obtain ⟨⟨⟩, -, h⟩ := Lists.bind_eq_ok.mp h
    obtain ⟨⟨sample, targetReached⟩, hrecord, h⟩ := Lists.bind_eq_ok.mp h
    obtain ⟨hsample, rfl⟩ := recordSample_ok hrecord
    cases h
    refine ⟨by simpa using hsample, ?_⟩
    by_cases htarget : sampleRows ≤ sample.rows
    · simp [htarget, Nat.not_lt.mpr htarget]
    · simp [htarget, heof, Nat.not_le.mp htarget]

/-- A loop that ends with the end reached has decoded all blocks and counted
their rows: the target stops it at the last block or not at all. -/
theorem sampleBlocks_ensures {sizes : ColumnSizes α} (h : ∀ block ∈ blocks, block.Within size)
    (hcount : index + blocks.length = count) (heof : run.reachedEof = true)
    (hrows : run.sample.rows < sampleRows) (decoder : σ) :
    (sampleBlocks codec sizes object pool decoder count index run blocks).Ensures
      (fun _ sampled => ∀ run', sampled = some run' → run'.reachedEof = true →
        (∀ block ∈ blocks, ∃ decoded, decodeBlock codec object decoder block = .ok decoded) ∧
        run'.sample.rows = run.sample.rows + rowCount (blocks.flatMap (yielded codec object decoder)))
      fun _ _ => True := by
  induction blocks generalizing index run with
  | nil =>
    refine Emit.ensures_pure fun run' h _ => ?_
    cases h
    exact ⟨by simp, rfl⟩
  | cons block blocks ih =>
    rw [List.forall_mem_cons] at h
    rw [sampleBlocks]
    refine Emit.ensures_lift_bind (fun reserved _ => ?_) fun _ _ => trivial
    cases reserved with
    | safetyBoundExceeded => exact Emit.ensures_pure fun _ h => nomatch h
    | reserved size =>
      refine (readBlock_returns h.1).bind fun _ data hdata => ?_
      refine Emit.ensures_lift_bind (fun represented _ => ?_) fun _ _ => trivial
      refine Emit.ensures_lift_bind (fun decoded hdecoded => ?_) fun _ _ => trivial
      refine Emit.ensures_lift_bind (fun next hnext => ?_) fun _ _ => trivial
      have hdecode : decodeBlock codec object decoder block = .ok decoded :=
        Lists.bind_eq_ok.mpr ⟨_, hdata, hdecoded⟩
      obtain ⟨hcounted, hreached⟩ := sampleBatch_ok heof hrows hnext
      rw [List.length_cons] at hcount
      split
      · refine Emit.ensures_pure fun run' h hend => ?_
        cases h
        have hlast : blocks = [] := by
          rw [← List.length_eq_zero_iff]
          have := hreached.mp hend
          omega
        subst hlast
        exact ⟨by simp [hdecode], by simp [hcounted, yielded_eq hdecode]⟩
      · rename_i hbelow
        have hrows' : next.sample.rows < sampleRows := Nat.not_le.mp hbelow
        have hcount' : index + 1 + blocks.length = count := by omega
        refine (ih h.2 hcount' (hreached.mpr (.inl hrows')) hrows').mono
          (fun _ sampled h run' hsampled hend => ?_) fun _ _ h => h
        obtain ⟨hdecodes, hrest⟩ := h run' hsampled hend
        refine ⟨List.forall_mem_cons.mpr ⟨⟨_, hdecode⟩, hdecodes⟩, ?_⟩
        rw [hrest, hcounted, List.flatMap_cons, rowCount_append, yielded_eq hdecode, Nat.add_assoc]

theorem sampleFile_ensures {sizes : ColumnSizes α} (identity : String)
    (hrows : sample.rows < sampleRows) :
    (sampleFile codec sizes object pool identity sample).Ensures
      (fun _ sampled => ∀ run, sampled = some run → run.reachedEof = true →
        ∃ footer decoder counted, Scanned codec object footer decoder none none counted ∧
          run.sample.rows = sample.rows + rowCount counted)
      fun _ _ => True := by
  rw [sampleFile]
  refine (readFileLayout_ensures identity).bind ?_
  rintro _ layout ⟨-, footer, hfooter, hof⟩
  have hdictionaries : ∀ block ∈ layout.dictionaries, block.Within object.size :=
    fun _ h => layout.within _ (List.mem_append_left _ h)
  have hblocks : ∀ block ∈ layout.recordBatches, block.Within object.size :=
    fun _ h => layout.within _ (List.mem_append_right _ h)
  refine (sampleDictionaries_ensures hdictionaries _ 0 0).bind fun _ sampled hsampled => ?_
  cases sampled with
  | none => exact Emit.ensures_pure fun _ h => nomatch h
  | some loaded =>
    obtain ⟨decoder, represented⟩ := loaded
    have hload := hsampled decoder represented rfl
    refine (sampleBlocks_ensures hblocks (Nat.zero_add _) rfl hrows decoder).mono
      (fun _ sampled h run hrun hend => ?_) fun _ _ h => h
    obtain ⟨hdecodes, hcounted⟩ := h run hrun hend
    have hdecoder : codec.new layout.schema layout.version = footerDecoder codec footer none :=
      hof.fileDecoder none
    rw [hdecoder, hof.dictionaries] at hload
    rw [hof.recordBatches] at hblocks hdecodes hcounted
    refine ⟨footer, decoder, _, ⟨hfooter, hblocks, hload, ?_, rfl⟩, ?_⟩
    · simpa using hdecodes
    · simpa using hcounted

-- ---------------------------------------------------------------------------
-- Full scans
-- ---------------------------------------------------------------------------

/-- One of the scans an object is read by. -/
structure Part (object : StoredObject) where
  range : Option FileRange
  pool : Pool
  cell : Option (FileLayout object.size)
  canonicalUrl : String

/-- Objects are read whole, and files also by byte ranges. -/
def FullScan (variant : IpcVariant) (object : StoredObject) (parts : List (Part object)) : Prop :=
  parts.map Part.range = [none] ∨ variant = .file ∧
    ∃ ranges : List FileRange, parts.map Part.range = ranges.map some ∧ Covering object.size ranges

def openPart (fileCodec : FileCodec σ α) (streamCodec : StreamCodec τ α) (variant : IpcVariant)
    (projection : Option (List Nat)) (expectedSchema : Schema) (turns : Nat)
    {object : StoredObject} (part : Part object) : Scan α Unit :=
  match variant with
  | .file => openFile fileCodec object part.pool part.cell part.range part.canonicalUrl projection
      expectedSchema
  | .stream => openStream streamCodec object part.pool part.range part.canonicalUrl projection
      expectedSchema turns

def FileCodec.ProjectionKeepsRows (codec : FileCodec σ α) : Prop :=
  ∀ object schema version projection dictionaries decoder decoder',
    loadDecoder codec object (codec.new schema version) dictionaries = .ok decoder →
    loadDecoder codec object (codec.withProjection (codec.new schema version) projection)
      dictionaries = .ok decoder' →
    ∀ block bytes decoded decoded', codec.readRecordBatch decoder block bytes = .ok decoded →
      codec.readRecordBatch decoder' block bytes = .ok decoded' →
      rowCount decoded.toList = rowCount decoded'.toList

theorem Scanned.rows_eq (hcodec : codec.ProjectionKeepsRows)
    (hwhole : Scanned codec object footer decoder none none counted)
    (hpart : Scanned codec object footer' decoder' projection range emitted) :
    rowCount emitted = rowCount
      (((footer.recordBatches.getD []).filter fun block => range.all (·.owns block)).flatMap
        (yielded codec object decoder)) := by
  cases hwhole.stored.symm.trans hpart.stored
  rw [hpart.emits]
  refine rowCount_flatMap_congr fun block hblock => ?_
  obtain ⟨decoded', hdecode'⟩ := hpart.decodes block hblock
  obtain ⟨decoded, hdecode⟩ := hwhole.decodes block (by simpa using List.mem_of_mem_filter hblock)
  rw [yielded_eq hdecode, yielded_eq hdecode']
  cases projection with
  | none =>
    cases hwhole.loads.symm.trans hpart.loads
    cases hdecode.symm.trans hdecode'
    rfl
  | some projection =>
    obtain ⟨bytes, hbytes, hdecode⟩ := Lists.bind_eq_ok.mp hdecode
    obtain ⟨bytes', hbytes', hdecode'⟩ := Lists.bind_eq_ok.mp hdecode'
    cases hbytes.symm.trans hbytes'
    exact (hcodec _ _ _ _ _ _ _ hwhole.loads hpart.loads _ _ _ _ hdecode hdecode').symm

theorem FullScan.owned_once {parts : List (Part object)} (h : FullScan variant object parts)
    (hblock : block.Within object.size) (hlength : 0 < block.length) :
    parts.countP (fun part => part.range.all (·.owns block)) = 1 := by
  have hmap : parts.countP (fun part => part.range.all (·.owns block)) =
      (parts.map Part.range).countP (fun range => range.all (·.owns block)) := by
    rw [List.countP_map]
    rfl
  rw [hmap]
  obtain hwhole | ⟨-, ranges, hranges, hcovering⟩ := h
  · rw [hwhole]
    rfl
  · rw [hranges, List.countP_map]
    exact hcovering.owned_once hblock hlength

theorem file_rows (hcodec : codec.ProjectionKeepsRows) (hobject : object.Holds content)
    (hwhole : Scanned codec object footer decoder none none counted) {parts : List (Part object)}
    (hparts : FullScan variant object parts) {emitted : Part object → List (RecordBatch α)}
    (hscans : ∀ part ∈ parts, ∃ footer' decoder',
      Scanned codec object footer' decoder' projection part.range (emitted part)) :
    rowCount (parts.flatMap emitted) = rowCount counted := by
  have honce : ∀ block ∈ footer.recordBatches.getD [],
      parts.countP (fun part => part.range.all (·.owns block)) = 1 := by
    intro block hblock
    obtain ⟨decoded, hdecode⟩ := hwhole.decodes block (by simpa using hblock)
    exact hparts.owned_once (hwhole.within block hblock)
      (length_pos_of_decodeBlock hobject.refusesEmpty hdecode)
  calc rowCount (parts.flatMap emitted)
      = rowCount (parts.flatMap fun part =>
          ((footer.recordBatches.getD []).filter fun block => part.range.all (·.owns block)).flatMap
            (yielded codec object decoder)) := by
        refine rowCount_flatMap_congr fun part hpart => ?_
        obtain ⟨footer', decoder', hscanned⟩ := hscans part hpart
        exact hwhole.rows_eq hcodec hscanned
    _ = rowCount ((footer.recordBatches.getD []).flatMap (yielded codec object decoder)) := by
        rw [← List.flatMap_assoc]
        exact rowCount_perm ((flatMap_filter_perm honce).flatMap_right _)
    _ = rowCount counted := by
        rw [hwhole.emits]
        simp

theorem statistics_exact (h : statistics selectedEncodedBytes singleObject run = .ok (some stats))
    (hexact : stats.numRows = .exact n) :
    singleObject = true ∧ run.reachedEof = true ∧ run.sample.rows = n := by
  unfold statistics at h
  split at h
  · cases h
  · obtain ⟨columnByteSizes, -, h⟩ := Lists.bind_eq_ok.mp h
    obtain ⟨numRows, hnumRows, h⟩ := Lists.bind_eq_ok.mp h
    obtain ⟨totalByteSize, -, h⟩ := Lists.bind_eq_ok.mp h
    cases h
    cases hboth : singleObject && run.reachedEof with
    | true =>
      simp only [hboth, precision, sampleEstimate, if_true] at hexact hnumRows
      cases hexact
      cases hnumRows
      simpa using hboth
    | false => simp [hboth, precision] at hexact

theorem sampleStream_ensures {sizes : ColumnSizes α} (hincremental : streamCodec.Incremental)
    (hobject : object.Holds content) (identity : String) (sample : Sample) :
    (sampleStream streamCodec sizes object pool identity turns sample).Ensures
      (fun _ sampled => ∀ run, sampled = some run → run.reachedEof = true →
        ∃ drained final, Drains streamCodec streamCodec.new content drained final ∧
          run.sample.rows = sample.rows + rowCount drained)
      fun _ _ => True := by
  rw [sampleStream]
  refine (sampleMessages_ensures hincremental hobject identity).bind
    fun _ sampled hsampled => ?_
  cases sampled with
  | none => exact Emit.ensures_pure fun _ h => nomatch h
  | some sampled =>
    obtain ⟨final, run⟩ := sampled
    have hrun : run.reachedEof = true → ∃ drained final,
        Drains streamCodec streamCodec.new content drained final ∧
          run.sample.rows = sample.rows + rowCount drained := by
      intro heof
      obtain ⟨drained, hdrained, hrows⟩ := hsampled final run rfl heof
      exact ⟨drained, final, hdrained, hrows⟩
    dsimp only
    split
    · refine Emit.ensures_lift_bind (fun _ _ => Emit.ensures_pure ?_) fun _ _ => trivial
      rintro _ ⟨⟩
      exact hrun
    · refine Emit.ensures_pure ?_
      rintro _ ⟨⟩
      exact hrun

theorem sampleStatistics_ensures {sizes : ColumnSizes α} (hincremental : streamCodec.Incremental)
    (hobject : object.Holds content) :
    (sampleStatistics codec streamCodec sizes variant object pool identity schema
      selectedEncodedBytes singleObject turns).Ensures
      (fun _ sampled => ∀ stats n, sampled = some stats → stats.numRows = .exact n →
        singleObject = true ∧ match variant with
          | .file => ∃ footer decoder counted,
              Scanned codec object footer decoder none none counted ∧ n = rowCount counted
          | .stream => ∃ drained final,
              Drains streamCodec streamCodec.new content drained final ∧ n = rowCount drained)
      fun _ _ => True := by
  have hrows : 0 < sampleRows := by decide
  rw [sampleStatistics]
  cases variant with
  | file =>
    refine (sampleFile_ensures identity hrows).bind fun _ sampled hsampled => ?_
    cases sampled with
    | none => exact Emit.ensures_pure fun _ _ h => nomatch h
    | some run =>
      refine Emit.ensures_lift (fun stats hstats stats' n h hexact => ?_) fun _ _ => trivial
      subst h
      obtain ⟨hsingle, heof, hcount⟩ := statistics_exact hstats hexact
      obtain ⟨footer, decoder, counted, hscanned, hrun⟩ := hsampled run rfl heof
      exact ⟨hsingle, footer, decoder, counted, hscanned, by simpa [hcount] using hrun⟩
  | stream =>
    refine (sampleStream_ensures hincremental hobject identity _).bind fun _ sampled hsampled => ?_
    cases sampled with
    | none => exact Emit.ensures_pure fun _ _ h => nomatch h
    | some run =>
      refine Emit.ensures_lift (fun stats hstats stats' n h hexact => ?_) fun _ _ => trivial
      subst h
      obtain ⟨hsingle, heof, hcount⟩ := statistics_exact hstats hexact
      obtain ⟨drained, final, hdrained, hrun⟩ := hsampled run rfl heof
      exact ⟨hsingle, drained, final, hdrained, by simpa [hcount] using hrun⟩

/-- Whenever a sample calls its number of rows exact, every scan of the whole
group that succeeds emits that many rows. -/
theorem exact_rows_true (fileCodec : FileCodec σ α) (streamCodec : StreamCodec τ α)
    (sizes : ColumnSizes α) (variant : IpcVariant) (representative : StoredObject)
    (files : List StoredObject) (pool : Pool) (identity : String) (schema expectedSchema : Schema)
    (selectedEncodedBytes turns : Nat) (projection : Option (List Nat))
    (parts : (object : StoredObject) → List (Part object))
    (hfiles : representative ∈ files) (hobject : representative.Holds content)
    (hprojection : fileCodec.ProjectionKeepsRows) (hincremental : streamCodec.Incremental)
    (hsample : (sampleStatistics fileCodec streamCodec sizes variant representative pool identity
      schema selectedEncodedBytes (files.length == 1) turns).result = .ok (some stats))
    (hexact : stats.numRows = .exact n)
    (hparts : ∀ object ∈ files, FullScan variant object (parts object))
    (hcached : ∀ object ∈ files, ∀ part ∈ parts object, Cached fileCodec object part.cell)
    (hscans : ∀ object ∈ files, ∀ part ∈ parts object,
      (openPart fileCodec streamCodec variant projection expectedSchema turns part).result = .ok ()) :
    rowCount (files.flatMap fun object => (parts object).flatMap fun part =>
      batches (openPart fileCodec streamCodec variant projection expectedSchema turns part).emitted) = n := by
  obtain ⟨hsingle, hcounted⟩ :=
    (sampleStatistics_ensures hincremental hobject).ok hsample stats n rfl hexact
  obtain ⟨object, rfl⟩ := List.length_eq_one_iff.mp (beq_iff_eq.mp hsingle)
  obtain rfl := List.mem_singleton.mp hfiles
  rw [List.flatMap_singleton]
  replace hparts := hparts _ List.mem_cons_self
  replace hcached := hcached _ List.mem_cons_self
  replace hscans := hscans _ List.mem_cons_self
  cases variant with
  | file =>
    obtain ⟨footer, decoder, counted, hwhole, rfl⟩ := hcounted
    exact file_rows hprojection hobject hwhole hparts fun part hpart =>
      (openFile_scanned (hcached part hpart)).ok (hscans part hpart)
  | stream =>
    obtain ⟨drained, final, hdrained, rfl⟩ := hcounted
    obtain hwhole | ⟨hvariant, -⟩ := hparts
    · obtain ⟨part, hpart⟩ := List.length_eq_one_iff.mp
        (by simpa using congrArg List.length hwhole : (parts representative).length = 1)
      rw [hpart, List.flatMap_singleton]
      have hscan := hscans part (by simp [hpart])
      obtain ⟨drained', final', hdrained', hrows⟩ := (openStream_ensures hincremental hobject).ok hscan
      exact hrows.trans (congrArg rowCount (hdrained'.unique hdrained))
    · cases hvariant

-- ---------------------------------------------------------------------------
-- Three integers, as a file and as a stream
-- ---------------------------------------------------------------------------

/-- Pushing bytes up to the next batch. -/
def decodeWith (push : τ → UInt8 → Except IpcError (τ × Option (RecordBatch α))) :
    τ → Bytes → Except IpcError (τ × Bytes × Option (RecordBatch α))
  | decoder, [] => .ok (decoder, [], none)
  | decoder, byte :: bytes => do
    let pushed ← push decoder byte
    match pushed.2 with
    | none => decodeWith push pushed.1 bytes
    | some batch => .ok (pushed.1, bytes, some batch)

def pushAll (push : τ → UInt8 → Except IpcError (τ × Option (RecordBatch α))) :
    τ → Bytes → Except IpcError (τ × List (RecordBatch α))
  | decoder, [] => .ok (decoder, [])
  | decoder, byte :: bytes => do
    let pushed ← push decoder byte
    let rest ← pushAll push pushed.1 bytes
    .ok (rest.1, pushed.2.toList ++ rest.2)

section Pushing

variable {push : τ → UInt8 → Except IpcError (τ × Option (RecordBatch α))}

theorem pushAll_append {a b : Bytes} (ha : pushAll push decoder a = .ok (mid, first))
    (hb : pushAll push mid b = .ok (final, second)) :
    pushAll push decoder (a ++ b) = .ok (final, first ++ second) := by
  induction a generalizing decoder first with
  | nil =>
    cases ha
    exact hb
  | cons byte bytes ih =>
    obtain ⟨pushed, hpush, ha⟩ := Lists.bind_eq_ok.mp ha
    obtain ⟨rest, hrest, ha⟩ := Lists.bind_eq_ok.mp ha
    cases ha
    refine Lists.bind_eq_ok.mpr ⟨pushed, hpush, Lists.bind_eq_ok.mpr ⟨_, ih hrest, ?_⟩⟩
    rw [List.append_assoc]

theorem decodeWith_shortens (h : decodeWith push decoder bytes = .ok (next, rest, batch)) :
    rest.length ≤ bytes.length - 1 := by
  induction bytes generalizing decoder with
  | nil =>
    cases h
    exact Nat.le_refl _
  | cons byte bytes ih =>
    obtain ⟨⟨pushed, found⟩, -, h⟩ := Lists.bind_eq_ok.mp h
    cases found with
    | none => exact (ih h).trans (Nat.sub_le _ _)
    | some found =>
      cases h
      exact Nat.le_refl _

theorem pushAll_of_decodeWith (h : decodeWith push decoder bytes = .ok (next, rest, batch))
    (hrest : pushAll push next rest = .ok (final, drained)) :
    pushAll push decoder bytes = .ok (final, batch.toList ++ drained) := by
  induction bytes generalizing decoder with
  | nil =>
    cases h
    exact hrest
  | cons byte bytes ih =>
    obtain ⟨⟨pushed, found⟩, hpush, h⟩ := Lists.bind_eq_ok.mp h
    cases found with
    | none => exact Lists.bind_eq_ok.mpr ⟨_, hpush, Lists.bind_eq_ok.mpr ⟨_, ih h, rfl⟩⟩
    | some found =>
      cases h
      exact Lists.bind_eq_ok.mpr ⟨_, hpush, Lists.bind_eq_ok.mpr ⟨_, hrest, rfl⟩⟩

theorem decodeWith_of_pushAll (h : pushAll push decoder bytes = .ok (final, drained)) :
    ∃ next rest batch drained', decodeWith push decoder bytes = .ok (next, rest, batch) ∧
      pushAll push next rest = .ok (final, drained') ∧ drained = batch.toList ++ drained' := by
  induction bytes generalizing decoder drained with
  | nil =>
    cases h
    exact ⟨_, _, none, [], rfl, rfl, rfl⟩
  | cons byte bytes ih =>
    obtain ⟨⟨pushed, found⟩, hpush, h⟩ := Lists.bind_eq_ok.mp h
    obtain ⟨⟨final', tail⟩, htail, h⟩ := Lists.bind_eq_ok.mp h
    cases h
    cases found with
    | none =>
      obtain ⟨next, rest, batch, drained', hdecode, hrest, rfl⟩ := ih htail
      exact ⟨next, rest, batch, drained', Lists.bind_eq_ok.mpr ⟨_, hpush, hdecode⟩, hrest, rfl⟩
    | some found => exact ⟨_, _, _, _, Lists.bind_eq_ok.mpr ⟨_, hpush, rfl⟩, htail, rfl⟩

theorem Drains.pushAll (hdecode : streamCodec.decode = decodeWith push)
    (h : Drains streamCodec decoder bytes drained final) : pushAll push decoder bytes = .ok (final, drained) := by
  obtain ⟨turns, h⟩ := h
  induction turns generalizing decoder bytes drained with
  | zero =>
    cases bytes with
    | nil =>
      cases h
      rfl
    | cons => cases h
  | succ turns ih =>
    cases bytes with
    | nil =>
      cases h
      rfl
    | cons byte bytes =>
      obtain ⟨⟨next, buffer, batch⟩, hstep, h⟩ := Lists.bind_eq_ok.mp h
      obtain ⟨rest, hrest, h⟩ := Lists.bind_eq_ok.mp h
      cases h
      rw [hdecode] at hstep
      exact pushAll_of_decodeWith hstep (ih hrest)

theorem drains_of_pushAll (hdecode : streamCodec.decode = decodeWith push) {bytes : Bytes}
    (h : pushAll push decoder bytes = .ok (final, drained)) : Drains streamCodec decoder bytes drained final := by
  match bytes, h with
  | [], h =>
    cases h
    exact drains_nil _
  | byte :: bytes, h =>
    obtain ⟨next, rest, batch, drained', hstep, hrest, rfl⟩ := decodeWith_of_pushAll h
    have hshorter : rest.length ≤ bytes.length := decodeWith_shortens hstep
    rw [← hdecode] at hstep
    exact (drains_of_pushAll hdecode hrest).step hstep
termination_by bytes.length
decreasing_by exact Nat.lt_succ_of_le hshorter

theorem incremental_of_decodeWith (hdecode : streamCodec.decode = decodeWith push) : streamCodec.Incremental :=
  fun _ _ _ _ _ _ _ hfirst hsecond =>
    drains_of_pushAll hdecode (pushAll_append (hfirst.pushAll hdecode) (hsecond.pushAll hdecode))

end Pushing

/-- What is to come of the stream, each byte with the batch it completes. -/
abbrev Rest := List (UInt8 × Option (RecordBatch Int))

def completing (message : Bytes) (batch : RecordBatch Int) : Rest :=
  message.dropLast.map (·, none) ++ message.getLast?.toList.map (·, some batch)

def integersRest : Rest :=
  schemaMessage.map (·, none) ++ completing firstMessage firstBatch ++ completing secondMessage secondBatch ++
    endMarker.map (·, none)

def pushInteger : Rest → UInt8 → Except IpcError (Rest × Option (RecordBatch Int))
  | [], _ => .error (.arrow "Unexpected EOS")
  | (expected, batch) :: rest, byte =>
    if byte = expected then .ok (rest, batch) else .error (.arrow "Unable to get root as message")

/-- What Arrow makes of this stream: after the schema's 136 bytes the schema is
known, and it can end between messages. -/
def integersStreamCodec : StreamCodec Rest Int where
  bodyLength metadata :=
    if metadata.length = 128 then .ok (.ofNat (natFromLe ((metadata.drop 24).take 8)))
    else .error (.arrow "Unable to get root as message")
  new := integersRest
  decode := decodeWith pushInteger
  schema rest := if rest.length ≤ 296 then some integers else none
  finish rest := if rest.length ∈ [432, 296, 152, 8, 0] then .ok () else .error (.arrow "Unexpected End of Stream")
  arrayMemorySize batch := 240 * batch.schema.length

def integersStream : Bytes := schemaMessage ++ firstMessage ++ secondMessage ++ endMarker

theorem StoredObject.of_holds {length : Nat} (hlength : length = content.length) (hchunks : chunks.flatten = content) :
    (StoredObject.of length content chunks).Holds content where
  size := hlength
  getRange start stop bytes h := by
    simp only [StoredObject.of] at h
    split at h
    · exact (Except.ok.inj h).symm
    · cases h
  stream chunks' h := by
    have hsame := List.map_injective_iff.mpr (fun _ _ => Except.ok.inj) h
    exact hsame ▸ hchunks
  refusesEmpty := StoredObject.of_refusesEmpty _ _ _

theorem projectInto_rows (h : projectInto batch projection = .ok decoded) :
    rowCount decoded.toList = batch.rows.length := by
  cases projection with
  | none =>
    cases h
    exact rowCount_singleton batch
  | some projection =>
    obtain ⟨projected, hproject, rfl⟩ := Lists.map_eq_ok.mp h
    rw [Option.toList_some, rowCount_singleton]
    exact projectBatch_rows (show projectBatch batch (some projection) = .ok projected from hproject)

theorem integersCodec_projectionKeepsRows : integersCodec.ProjectionKeepsRows := by
  intro _ _ _ _ _ decoder decoder' _ _ _ bytes decoded decoded' hread hread'
  simp only [integersCodec] at hread hread'
  split at hread
  · rw [if_pos ‹_›] at hread'
    rw [projectInto_rows hread, projectInto_rows hread']
  · rw [if_neg ‹_›] at hread'
    split at hread
    · rw [if_pos ‹_›] at hread'
      rw [projectInto_rows hread, projectInto_rows hread']
    · cases hread

def granting : Pool := fun _ _ => .ok ()

def integersFileObject : StoredObject := .of 642 integersFile [integersFile]

/-- The stream, delivered in two chunks that part within a message. -/
def integersStreamObject : StoredObject := .of 432 integersStream [integersStream.take 200, integersStream.drop 200]

def integersParts (object : StoredObject) : List (Part object) :=
  [⟨some ⟨0, 250⟩, granting, none, "integers.arrow"⟩, ⟨some ⟨250, 642⟩, granting, none, "integers.arrow"⟩]

def integersSizes : ColumnSizes Int := fun batch => [4 * batch.rows.length]

set_option maxRecDepth 8000 in
/-- The file by its two ranges, and the stream whole. -/
theorem exact_rows_true_integers :
    rowCount ([integersFileObject].flatMap fun object => (integersParts object).flatMap fun part =>
      batches (openPart integersCodec integersStreamCodec .file (some [0]) integers 5 part).emitted) = 3 ∧
    rowCount ([integersStreamObject].flatMap fun object =>
      [(⟨none, granting, none, "integers.arrows"⟩ : Part object)].flatMap fun part =>
        batches (openPart integersCodec integersStreamCodec .stream (some [0]) integers 5 part).emitted) = 3 := by
  have hfile : (sampleStatistics integersCodec integersStreamCodec integersSizes .file integersFileObject granting
      "integers.arrow" integers 272 true 5).result = .ok (some ⟨.exact 3, .exact 480, [.exact 12]⟩) := by rfl
  have hstream : (sampleStatistics integersCodec integersStreamCodec integersSizes .stream integersStreamObject granting
      "integers.arrows" integers 432 true 5).result = .ok (some ⟨.exact 3, .exact 480, [.exact 12]⟩) := by rfl
  have hranges : Covering 642 [⟨0, 250⟩, ⟨250, 642⟩] :=
    ⟨[⟨0, 250⟩, ⟨250, 642⟩], 642, List.Perm.refl _, .cons (by decide) (.cons (by decide) .nil), by decide⟩
  constructor
  · refine exact_rows_true integersCodec integersStreamCodec integersSizes .file integersFileObject [integersFileObject]
      granting "integers.arrow" integers integers 272 5 (some [0]) integersParts List.mem_cons_self
      (StoredObject.of_holds (by decide) (List.append_nil _)) integersCodec_projectionKeepsRows
      (incremental_of_decodeWith rfl) hfile rfl ?_ ?_ ?_
    · rintro _ (_ | ⟨_, ⟨⟩⟩)
      exact .inr ⟨rfl, _, rfl, hranges⟩
    · rintro _ (_ | ⟨_, ⟨⟩⟩) part hpart layout hlayout
      simp only [integersParts, List.mem_cons, List.not_mem_nil, or_false] at hpart
      obtain rfl | rfl := hpart <;> cases hlayout
    · rintro _ (_ | ⟨_, ⟨⟩⟩) part hpart
      simp only [integersParts, List.mem_cons, List.not_mem_nil, or_false] at hpart
      obtain rfl | rfl := hpart <;> rfl
  · refine exact_rows_true integersCodec integersStreamCodec integersSizes .stream integersStreamObject
      [integersStreamObject] granting "integers.arrows" integers integers 432 5 (some [0])
      (fun _ => [⟨none, granting, none, "integers.arrows"⟩]) List.mem_cons_self
      (StoredObject.of_holds (by decide) (by simp)) integersCodec_projectionKeepsRows
      (incremental_of_decodeWith rfl) hstream rfl ?_ ?_ ?_
    · exact fun _ _ => .inl rfl
    · rintro _ (_ | ⟨_, ⟨⟩⟩) part hpart layout hlayout
      obtain rfl := List.mem_singleton.mp hpart
      cases hlayout
    · rintro _ (_ | ⟨_, ⟨⟩⟩) part hpart
      obtain rfl := List.mem_singleton.mp hpart
      rfl

end SilkChiffon.Arrow.Ipc
