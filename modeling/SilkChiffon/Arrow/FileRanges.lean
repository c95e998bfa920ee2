import Mathlib.Data.Int.Order.Basic
import SilkChiffon.Arrow.FileLayout
import SilkChiffon.Lib.Intervals
import SilkChiffon.Lib.Lists

/-!
# Byte ranges of an Arrow file

Ranges that follow one another over the object own each block with content
once, by where it begins. A scan reads the dictionaries and then its own
blocks, and never past the object.
-/

namespace SilkChiffon.Arrow.Ipc

-- ---------------------------------------------------------------------------
-- Checked numbers
-- ---------------------------------------------------------------------------

theorem unsigned_ok (h : unsigned value message = .ok n) : value = n := by
  unfold unsigned at h
  split at h
  · cases h
  · obtain rfl := Except.ok.inj h
    omega

theorem unsigned_natCast (n : Nat) (message : String) : unsigned n message = .ok n := by
  simp [unsigned]

theorem checkedAdd_ok (h : checkedAdd a b message = .ok n) :
    n = a + b ∧ a + b < 18446744073709551616 := by
  unfold checkedAdd at h
  split at h
  · obtain rfl := Except.ok.inj h
    exact ⟨rfl, ‹_›⟩
  · cases h

theorem checkedAdd_fits (h : a + b < 18446744073709551616) (message : String) :
    checkedAdd a b message = .ok (a + b) := if_pos h

-- ---------------------------------------------------------------------------
-- Blocks within the object
-- ---------------------------------------------------------------------------

namespace Block

def start (block : Block) : Nat := block.offset.toInt.toNat

def length (block : Block) : Nat := block.metaDataLength.toInt.toNat + block.bodyLength.toInt.toNat

def range (block : Block) : Nat × Nat := (block.start, block.start + block.length)

structure Within (size : Nat) (block : Block) : Prop where
  offset : 0 ≤ block.offset.toInt
  metadata : 0 ≤ block.metaDataLength.toInt
  body : 0 ≤ block.bodyLength.toInt
  inside : block.start + block.length ≤ size
  fits : block.start + block.length < 18446744073709551616

end Block

theorem validateBlock_ok (h : validateBlock size identity block = .ok ()) : block.Within size := by
  obtain ⟨offset, hoffset, h⟩ := Lists.bind_eq_ok.mp h
  obtain ⟨metadata, hmetadata, h⟩ := Lists.bind_eq_ok.mp h
  obtain ⟨body, hbody, h⟩ := Lists.bind_eq_ok.mp h
  obtain ⟨stop, hstop, h⟩ := Lists.bind_eq_ok.mp h
  obtain ⟨stop', hstop', h⟩ := Lists.bind_eq_ok.mp h
  split at h
  · cases h
  · obtain ⟨rfl, -⟩ := checkedAdd_ok hstop
    obtain ⟨rfl, hfits⟩ := checkedAdd_ok hstop'
    have hoffset := unsigned_ok hoffset
    have hmetadata := unsigned_ok hmetadata
    have hbody := unsigned_ok hbody
    have hstart : block.start = offset := by simp [Block.start, hoffset]
    have hlength : block.length = metadata + body := by simp [Block.length, hmetadata, hbody]
    refine ⟨by omega, by omega, by omega, ?_, ?_⟩ <;> omega

theorem validateBlocks_ok {blocks : List Block} (h : validateBlocks size identity blocks = .ok ()) :
    ∀ block ∈ blocks, block.Within size := by
  induction blocks with
  | nil => simp
  | cons block blocks ih =>
    obtain ⟨⟨⟩, hblock, hrest⟩ := Lists.bind_eq_ok.mp h
    exact List.forall_mem_cons.mpr ⟨validateBlock_ok hblock, ih hrest⟩

theorem FileLayout.within (layout : FileLayout size) :
    ∀ block ∈ layout.dictionaries ++ layout.recordBatches, block.Within size :=
  validateBlocks_ok layout.accepted

theorem blockSize_within (h : block.Within size) : blockSize block = .ok block.length := by
  have hlength : block.length < 18446744073709551616 := Nat.lt_of_le_of_lt (Nat.le_add_left ..) h.fits
  rw [blockSize, ← Int.toNat_of_nonneg h.metadata, ← Int.toNat_of_nonneg h.body]
  simp only [unsigned_natCast]
  exact checkedAdd_fits hlength _

variable {α σ : Type} {codec : FileCodec σ α} {object : StoredObject} {pool : Pool}

theorem readBlock_within (h : block.Within size) :
    (readBlock object block : Scan α Bytes) = getRange object block.start (block.start + block.length) := by
  have hstart : unsigned block.offset.toInt "Arrow IPC block offset is negative" = .ok block.start := by
    rw [← Int.toNat_of_nonneg h.offset]
    exact unsigned_natCast _ _
  rw [readBlock, hstart, blockSize_within h, ← Nat.mod_eq_of_lt h.fits]
  rfl

-- ---------------------------------------------------------------------------
-- What a scan reads and yields
-- ---------------------------------------------------------------------------

def reads (events : List (ScanEvent α)) : List (Nat × Nat) :=
  events.filterMap fun
    | .read start stop => some (start, stop)
    | .batch _ => none

def batches (events : List (ScanEvent α)) : List (RecordBatch α) :=
  events.filterMap fun
    | .read _ _ => none
    | .batch batch => some batch

@[simp] theorem reads_append (events events' : List (ScanEvent α)) :
    reads (events ++ events') = reads events ++ reads events' := List.filterMap_append

@[simp] theorem batches_append (events events' : List (ScanEvent α)) :
    batches (events ++ events') = batches events ++ batches events' := List.filterMap_append

def blockContent (object : StoredObject) (block : Block) : Except IpcError Bytes :=
  object.getRange block.start (block.start + block.length)

def decodeBlock (codec : FileCodec σ α) (object : StoredObject) (decoder : σ) (block : Block) :
    Except IpcError (Option (RecordBatch α)) := do
  let bytes ← blockContent object block
  codec.readRecordBatch decoder block bytes

def yielded (codec : FileCodec σ α) (object : StoredObject) (decoder : σ) (block : Block) :
    List (RecordBatch α) :=
  match decodeBlock codec object decoder block with
  | .ok (some batch) => [batch]
  | _ => []

/-- The block decodes, and its sizes can be added to those of the dictionaries. -/
structure Readable (codec : FileCodec σ α) (object : StoredObject) (decoder : σ)
    (dictionaryBytes : Nat) (block : Block) : Prop where
  room : dictionaryBytes + block.length < 18446744073709551616
  decodes : ∃ batch, decodeBlock codec object decoder block = .ok batch ∧
    ∀ b ∈ batch, dictionaryBytes + codec.arrayMemorySize b < 18446744073709551616

def loadDictionaries (codec : FileCodec σ α) (object : StoredObject) :
    σ → Nat → List Block → Except IpcError (σ × Nat)
  | decoder, dictionaryBytes, [] => .ok (decoder, dictionaryBytes)
  | decoder, dictionaryBytes, block :: blocks => do
    let dictionaryBytes ← checkedAdd dictionaryBytes block.length "Arrow IPC dictionary size overflows"
    let data ← blockContent object block
    let decoder ← codec.readDictionary decoder block data
    loadDictionaries codec object decoder dictionaryBytes blocks

def Pool.Grants (pool : Pool) : Prop := ∀ reservation bytes, pool reservation bytes = .ok ()

theorem readRecordBatch_ensures (h : block.Within size) (index : Nat) :
    (readRecordBatch codec object pool index decoder dictionaryBytes block).Ensures
      (fun events _ => Readable codec object decoder dictionaryBytes block ∧
        reads events = [block.range] ∧ batches events = yielded codec object decoder block)
      (fun events _ => reads events <+: [block.range]) := by
  rw [readRecordBatch, blockSize_within h, readBlock_within h]
  refine Emit.ensures_lift_bind (fun _ hlength => ?_) fun _ _ => List.nil_prefix
  obtain rfl := Except.ok.inj hlength
  refine Emit.ensures_lift_bind (fun size hsize => ?_) fun _ _ => List.nil_prefix
  refine Emit.ensures_lift_bind (fun _ _ => ?_) fun _ _ => List.nil_prefix
  rw [getRange, bind_assoc]
  refine Emit.ensures_emit_bind (Emit.ensures_lift_bind (fun bytes hbytes => ?_) fun _ _ => ?_)
  · refine Emit.ensures_lift_bind (fun decoded hdecoded => ?_) fun _ _ => List.prefix_refl _
    have hdecode : decodeBlock codec object decoder block = .ok decoded :=
      Lists.bind_eq_ok.mpr ⟨bytes, hbytes, hdecoded⟩
    have hroom := (checkedAdd_ok hsize).2
    cases decoded with
    | none =>
      refine Emit.ensures_lift (fun _ _ => ?_) fun _ _ => List.prefix_refl _
      exact ⟨⟨hroom, none, hdecode, by simp⟩, rfl, by rw [yielded, hdecode]; rfl⟩
    | some batch =>
      refine Emit.ensures_lift_bind (fun size hsize => ?_) fun _ _ => List.prefix_refl _
      refine Emit.ensures_lift_bind (fun _ _ => ?_) fun _ _ => List.prefix_refl _
      refine Emit.ensures_emit_bind (Emit.ensures_lift (fun _ _ => ?_) fun _ _ => List.prefix_refl _)
      exact ⟨⟨hroom, some batch, hdecode, by simpa using (checkedAdd_ok hsize).2⟩, rfl,
        by rw [yielded, hdecode]; rfl⟩
  · exact List.prefix_refl _

theorem readRecordBatches_ensures (h : ∀ block ∈ blocks, block.Within size) (index : Nat) :
    (readRecordBatches codec object pool decoder dictionaryBytes index blocks).Ensures
      (fun events _ => (∀ block ∈ blocks, Readable codec object decoder dictionaryBytes block) ∧
        reads events = blocks.map Block.range ∧
        batches events = blocks.flatMap (yielded codec object decoder))
      (fun events _ => reads events <+: blocks.map Block.range) := by
  induction blocks generalizing index with
  | nil => exact Emit.ensures_pure ⟨by simp, rfl, rfl⟩
  | cons block blocks ih =>
    obtain ⟨hblock, hrest⟩ := List.forall_mem_cons.mp h
    refine Emit.Ensures.bind ((readRecordBatch_ensures hblock index).mono (fun _ _ h => h)
      fun events _ h => ?_) ?_
    · exact h.trans (List.prefix_append [block.range] _)
    · rintro events ⟨⟩ ⟨hreadable, hreads, hbatches⟩
      refine (ih hrest (index + 1)).mono (fun events' _ h => ?_) fun events' _ h => ?_
      · obtain ⟨hreadable', hreads', hbatches'⟩ := h
        exact ⟨List.forall_mem_cons.mpr ⟨hreadable, hreadable'⟩, by simp [hreads, hreads'],
          by simp [hbatches, hbatches']⟩
      · rw [reads_append, hreads]
        exact (List.prefix_append_right_inj _).mpr h

theorem readDictionaries_ensures (h : ∀ block ∈ blocks, block.Within size) (index : Nat) :
    (readDictionaries codec object pool index decoder dictionaryBytes blocks).Ensures
      (fun events loaded => loadDictionaries codec object decoder dictionaryBytes blocks = .ok loaded ∧
        reads events = blocks.map Block.range ∧ batches events = [])
      (fun events _ => reads events <+: blocks.map Block.range) := by
  induction blocks generalizing index decoder dictionaryBytes with
  | nil => exact Emit.ensures_pure ⟨rfl, rfl, rfl⟩
  | cons block blocks ih =>
    obtain ⟨hblock, hrest⟩ := List.forall_mem_cons.mp h
    rw [readDictionaries, blockSize_within hblock, readBlock_within hblock]
    refine Emit.ensures_lift_bind (fun _ hlength => ?_) fun _ _ => List.nil_prefix
    obtain rfl := Except.ok.inj hlength
    refine Emit.ensures_lift_bind (fun total htotal => ?_) fun _ _ => List.nil_prefix
    refine Emit.ensures_lift_bind (fun _ _ => ?_) fun _ _ => List.nil_prefix
    have hread : ∀ events : List (ScanEvent α), events = [] →
        reads (.read block.start (block.start + block.length) :: events) <+:
          (block :: blocks).map Block.range := by
      rintro _ rfl
      exact List.prefix_append [block.range] _
    rw [getRange, bind_assoc]
    refine Emit.ensures_emit_bind (Emit.ensures_lift_bind (fun data hdata => ?_) fun _ _ => hread _ rfl)
    refine Emit.ensures_lift_bind (fun next hnext => ?_) fun _ _ => hread _ rfl
    refine (ih hrest (index + 1)).mono (fun events loaded h => ?_) fun events _ h => ?_
    · obtain ⟨hload, hreads, hbatches⟩ := h
      refine ⟨?_, ?_, hbatches⟩
      · exact Lists.bind_eq_ok.mpr ⟨_, htotal, Lists.bind_eq_ok.mpr ⟨_, hdata,
          Lists.bind_eq_ok.mpr ⟨_, hnext, hload⟩⟩⟩
      · exact congrArg (block.range :: ·) hreads
    · exact (List.prefix_append_right_inj [block.range]).mpr h

-- ---------------------------------------------------------------------------
-- Whole scans
-- ---------------------------------------------------------------------------

/-- What a scan reads, in order: all dictionaries, then its own blocks. -/
def scanRanges (layout : FileLayout size) (range : Option FileRange) : List (Nat × Nat) :=
  (layout.dictionaries ++ ownedBlocks layout range).map Block.range

theorem ownedBlocks_within (layout : FileLayout size) (range : Option FileRange) :
    ∀ block ∈ ownedBlocks layout range, block.Within size :=
  fun _ h => layout.within _ (List.mem_append_right _ (List.mem_of_mem_filter h))

theorem openFile_ensures (layout : FileLayout object.size) (range : Option FileRange)
    (canonicalUrl : String) (projection : Option (List Nat)) (expectedSchema : Schema) :
    (openFile codec object pool (some layout) range canonicalUrl projection expectedSchema).Ensures
      (fun events _ => schemasMatchIgnoringMetadata expectedSchema layout.schema = true ∧
        reads events = scanRanges layout range ∧
        ∃ loaded, loadDictionaries codec object (fileDecoder codec layout projection) 0
            layout.dictionaries = .ok loaded ∧
          (∀ block ∈ ownedBlocks layout range, Readable codec object loaded.1 loaded.2 block) ∧
          batches events = (ownedBlocks layout range).flatMap (yielded codec object loaded.1))
      (fun events _ => reads events <+: scanRanges layout range) := by
  have hdictionaries : ∀ block ∈ layout.dictionaries, block.Within object.size :=
    fun _ h => layout.within _ (List.mem_append_left _ h)
  show (if _ then _ else _ : Scan α Unit).Ensures _ _
  split
  · rename_i hschema
    rw [scanRanges, List.map_append]
    refine Emit.Ensures.bind ((readDictionaries_ensures hdictionaries 0).mono
      (fun _ _ h => h) fun _ _ h => ?_) ?_
    · exact h.trans (List.prefix_append _ _)
    · rintro events loaded ⟨hload, hreads, hbatches⟩
      refine (readRecordBatches_ensures (ownedBlocks_within layout range) 0).mono
        (fun events' _ h => ?_) fun events' _ h => ?_
      · obtain ⟨hreadable, hreads', hbatches'⟩ := h
        exact ⟨hschema, by simp [hreads, hreads'], loaded, hload, hreadable, by simp [hbatches, hbatches']⟩
      · rw [reads_append, hreads]
        exact (List.prefix_append_right_inj _).mpr h
  · exact Emit.ensures_throw List.nil_prefix

-- ---------------------------------------------------------------------------
-- Completion
-- ---------------------------------------------------------------------------

theorem readRecordBatch_completes (hpool : pool.Grants) (h : block.Within size)
    (hreadable : Readable codec object decoder dictionaryBytes block) (index : Nat) :
    (readRecordBatch codec object pool index decoder dictionaryBytes block).result = .ok () := by
  obtain ⟨hroom, batch, hdecode, hsize⟩ := hreadable
  obtain ⟨bytes, hbytes, hbatch⟩ := Lists.bind_eq_ok.mp hdecode
  have hread : (readBlock object block : Scan α Bytes).result = .ok bytes := by
    rw [readBlock_within h]
    exact hbytes
  rw [readRecordBatch, Emit.lift_bind (blockSize_within h), Emit.lift_bind (checkedAdd_fits hroom _),
    Emit.lift_bind (hpool _ _), Emit.bind_result hread, Emit.lift_bind hbatch]
  cases batch with
  | none => exact hpool _ _
  | some batch =>
    have hfits := checkedAdd_fits (hsize batch rfl)
    dsimp only
    rw [Emit.lift_bind (hfits _), Emit.lift_bind (hpool _ _)]
    exact hpool _ _

theorem readRecordBatches_completes (hpool : pool.Grants) (h : ∀ block ∈ blocks, block.Within size)
    (hreadable : ∀ block ∈ blocks, Readable codec object decoder dictionaryBytes block) (index : Nat) :
    (readRecordBatches codec object pool decoder dictionaryBytes index blocks).result = .ok () := by
  induction blocks generalizing index with
  | nil => rfl
  | cons block blocks ih =>
    rw [List.forall_mem_cons] at h hreadable
    rw [readRecordBatches, Emit.bind_result (readRecordBatch_completes hpool h.1 hreadable.1 index)]
    exact ih h.2 hreadable.2 (index + 1)

theorem readDictionaries_completes (hpool : pool.Grants) (h : ∀ block ∈ blocks, block.Within size)
    (hload : loadDictionaries codec object decoder dictionaryBytes blocks = .ok loaded) (index : Nat) :
    (readDictionaries codec object pool index decoder dictionaryBytes blocks).result = .ok loaded := by
  induction blocks generalizing index decoder dictionaryBytes with
  | nil => exact hload
  | cons block blocks ih =>
    obtain ⟨hblock, hrest⟩ := List.forall_mem_cons.mp h
    obtain ⟨total, htotal, hload⟩ := Lists.bind_eq_ok.mp hload
    obtain ⟨data, hdata, hload⟩ := Lists.bind_eq_ok.mp hload
    obtain ⟨next, hnext, hload⟩ := Lists.bind_eq_ok.mp hload
    have hread : (readBlock object block : Scan α Bytes).result = .ok data := by
      rw [readBlock_within hblock]
      exact hdata
    rw [readDictionaries, Emit.lift_bind (blockSize_within hblock), Emit.lift_bind htotal,
      Emit.lift_bind (hpool _ _), Emit.bind_result hread, Emit.lift_bind hnext]
    exact ih hrest hload (index + 1)

theorem openFile_completes (hpool : pool.Grants) {layout : FileLayout object.size}
    (hschema : schemasMatchIgnoringMetadata expectedSchema layout.schema = true)
    (hload : loadDictionaries codec object (fileDecoder codec layout projection) 0
      layout.dictionaries = .ok loaded)
    (hreadable : ∀ block ∈ ownedBlocks layout range,
      Readable codec object loaded.1 loaded.2 block) (canonicalUrl : String) :
    (openFile codec object pool (some layout) range canonicalUrl projection expectedSchema).result =
      .ok () := by
  have hdictionaries : ∀ block ∈ layout.dictionaries, block.Within object.size :=
    fun _ h => layout.within _ (List.mem_append_left _ h)
  show (if _ then _ else _ : Scan α Unit).result = _
  rw [if_pos hschema, Emit.bind_result (readDictionaries_completes hpool hdictionaries hload 0)]
  exact readRecordBatches_completes hpool (ownedBlocks_within layout range) hreadable 0

def Inside (size : Nat) (events : List (ScanEvent α)) : Prop :=
  ∀ bytes ∈ reads events, bytes.2 ≤ size

theorem Inside.append {events : List (ScanEvent α)} (h : Inside size events)
    (h' : Inside size events') : Inside size (events ++ events') := by
  intro bytes hbytes
  rw [reads_append, List.mem_append] at hbytes
  exact hbytes.elim (h bytes) (h' bytes)

theorem inside_read (h : stop ≤ size) : Inside size [(.read start stop : ScanEvent α)] := by
  intro bytes hbytes
  obtain rfl := List.mem_singleton.mp hbytes
  exact h

theorem inside_nil : Inside size ([] : List (ScanEvent α)) := by simp [Inside, reads]

theorem getRange_inside (h : stop ≤ object.size) :
    (getRange object start stop : Scan α Bytes).Ensures (fun events _ => Inside object.size events)
      fun events _ => Inside object.size events := by
  rw [getRange]
  exact Emit.ensures_emit_bind (Emit.ensures_lift (fun _ _ => inside_read h) fun _ _ => inside_read h)

theorem readFileLayout_inside (identity : String) :
    (readFileLayout codec object pool identity).Ensures (fun events _ => Inside object.size events)
      fun events _ => Inside object.size events := by
  rw [readFileLayout]
  split
  · exact Emit.ensures_throw inside_nil
  · refine Emit.Ensures.bind (getRange_inside (Nat.le_refl _)) fun events trailer hevents => ?_
    have hthrow : ∀ e, (Emit.throw e : Scan α (FileLayout object.size)).Ensures
        (fun events' _ => Inside object.size (events ++ events'))
        fun events' _ => Inside object.size (events ++ events') := fun _ =>
      Emit.ensures_throw (hevents.append inside_nil)
    have hstop : ∀ e : IpcError, Inside object.size (events ++ []) := fun _ => hevents.append inside_nil
    split
    · exact hthrow _
    · refine Emit.ensures_lift_bind (fun footerLen _ => ?_) fun e _ => hstop e
      split
      · exact hthrow _
      · split
        · exact hthrow _
        · refine Emit.ensures_lift_bind (fun _ _ => ?_) fun e _ => hstop e
          refine Emit.Ensures.bind ((getRange_inside (Nat.sub_le ..)).mono (fun _ _ h => h)
            fun _ _ h => hevents.append h) fun events' footerBytes hevents' => ?_
          have hboth : Inside object.size (events ++ (events' ++ [])) :=
            hevents.append (hevents'.append inside_nil)
          exact Emit.ensures_lift_bind (fun footer _ =>
            Emit.ensures_lift (fun _ _ => hboth) fun _ _ => hboth) fun _ _ => hboth

-- ---------------------------------------------------------------------------
-- Ranges over the object
-- ---------------------------------------------------------------------------

theorem inside_of_prefix (layout : FileLayout size) (range : Option FileRange)
    {events : List (ScanEvent α)} (h : reads events <+: scanRanges layout range) :
    Inside size events := by
  intro bytes hbytes
  obtain ⟨block, hblock, rfl⟩ := List.mem_map.mp (h.subset hbytes)
  cases List.mem_append.mp hblock with
  | inl hblock => exact (layout.within block (List.mem_append_left _ hblock)).inside
  | inr hblock => exact (ownedBlocks_within layout range block hblock).inside

/-- Ranges, in any order, that follow one another from the object's beginning
to its end or further. -/
def Covering (size : Nat) (ranges : List FileRange) : Prop :=
  ∃ (ordered : List FileRange) (stop : Int), ordered.Perm ranges ∧
    Contiguous 0 (ordered.map fun range => (range.start.toInt, range.stop.toInt)) stop ∧ (size : Int) ≤ stop

theorem Covering.owned_once {ranges : List FileRange} (h : Covering size ranges)
    (hblock : block.Within size) (hlength : 0 < block.length) :
    ranges.countP (·.owns block) = 1 := by
  obtain ⟨ordered, stop, hperm, hcontiguous, hsize⟩ := h
  have hstart : block.offset.toInt = block.start := (Int.toNat_of_nonneg hblock.offset).symm
  have hinside := hblock.inside
  have hstop : block.offset.toInt < stop := by omega
  have honce := hcontiguous.countP_between hblock.offset hstop
  rw [List.countP_map] at honce
  rw [← hperm.countP_eq]
  exact honce

def StoredObject.RefusesEmpty (object : StoredObject) : Prop :=
  ∀ start bytes, object.getRange start start ≠ .ok bytes

theorem length_pos_of_decodeBlock (hobject : object.RefusesEmpty)
    (h : decodeBlock codec object decoder block = .ok decoded) : 0 < block.length := by
  obtain ⟨bytes, hbytes, -⟩ := Lists.bind_eq_ok.mp h
  refine Nat.pos_of_ne_zero fun hzero => hobject block.start bytes ?_
  rwa [blockContent, hzero] at hbytes

/-- The ranges of a covering read each block with content once, in one scan.
Every scan reads the dictionaries and then its blocks in the footer's order,
within the object. If the scan of the whole object succeeds, so do those of the
ranges, and together they emit the same batches. -/
theorem file_ranges_read_once (codec : FileCodec σ α) (object : StoredObject)
    (layout : FileLayout object.size) (canonicalUrl : String) (projection : Option (List Nat))
    (expectedSchema : Schema) (parts : List (FileRange × Pool)) (hobject : object.RefusesEmpty)
    (hcovering : Covering object.size (parts.map Prod.fst)) :
    let scan pool cell range :=
      openFile codec object pool cell range canonicalUrl projection expectedSchema
    let part (p : FileRange × Pool) := scan p.2 (some layout) (some p.1)
    (∀ block ∈ layout.recordBatches, 0 < block.length →
      (parts.map Prod.fst).countP (·.owns block) = 1) ∧
    (∀ pool range, reads (scan pool (some layout) range).emitted <+: scanRanges layout range ∧
      ((scan pool (some layout) range).result = .ok () →
        reads (scan pool (some layout) range).emitted = scanRanges layout range)) ∧
    (∀ pool cell range, ∀ bytes ∈ reads (scan pool cell range).emitted, bytes.2 ≤ object.size) ∧
    ∀ pool, (scan pool (some layout) none).result = .ok () →
      (∀ p ∈ parts, p.2.Grants → (part p).result = .ok ()) ∧
      ((∀ p ∈ parts, (part p).result = .ok ()) →
        (parts.flatMap fun p => batches (part p).emitted).Perm
          (batches (scan pool (some layout) none).emitted)) := by
  intro scan part
  have hensures := fun pool range => @openFile_ensures α σ codec object pool layout range
    canonicalUrl projection expectedSchema
  have hfront : ∀ pool range,
      reads (scan pool (some layout) range).emitted <+: scanRanges layout range := fun pool range =>
    ((hensures pool range).mono (fun _ _ h => h.2.1 ▸ List.prefix_refl _) fun _ _ h => h).emitted
  refine ⟨fun block hblock => hcovering.owned_once ?_, fun pool range => ⟨hfront pool range, ?_⟩, ?_, ?_⟩
  · exact layout.within block (List.mem_append_right _ hblock)
  · exact fun hok => ((hensures pool range).ok hok).2.1
  · intro pool cell range
    have hinside : ∀ layout, (scan pool (some layout) range).Ensures
        (fun events _ => Inside object.size events) fun events _ => Inside object.size events := by
      intro layout
      refine (openFile_ensures layout range canonicalUrl projection expectedSchema).mono
        (fun events _ h => ?_) fun events _ h => ?_
      · exact inside_of_prefix layout range (h.2.1 ▸ List.prefix_refl _)
      · exact inside_of_prefix layout range h
    cases cell with
    | some layout => exact (hinside layout).emitted
    | none =>
      exact ((readFileLayout_inside canonicalUrl).bind fun events layout hevents =>
        (hinside layout).mono (fun _ _ h => hevents.append h) fun _ _ h => hevents.append h).emitted
  · intro pool hwhole
    obtain ⟨hschema, -, loaded, hload, hreadable, hbatches⟩ := (hensures pool none).ok hwhole
    have hall : ownedBlocks layout none = layout.recordBatches := by simp [ownedBlocks]
    rw [hall] at hreadable hbatches
    refine ⟨fun p _ hgrants => openFile_completes hgrants hschema hload (fun block hblock =>
      hreadable block (List.mem_of_mem_filter hblock)) canonicalUrl, fun hparts => ?_⟩
    have hpart : ∀ p ∈ parts, batches (part p).emitted =
        (ownedBlocks layout (some p.1)).flatMap (yielded codec object loaded.1) := by
      intro p hp
      obtain ⟨-, -, loaded', hload', -, hbatches'⟩ := (hensures p.2 (some p.1)).ok (hparts p hp)
      cases hload.symm.trans hload'
      exact hbatches'
    have honce : ∀ block ∈ layout.recordBatches, parts.countP (fun p => p.1.owns block) = 1 := by
      intro block hblock
      obtain ⟨_, hdecode, -⟩ := (hreadable block hblock).decodes
      have howned := hcovering.owned_once (layout.within block (List.mem_append_right _ hblock))
        (length_pos_of_decodeBlock hobject hdecode)
      rwa [List.countP_map] at howned
    have hperm : (parts.flatMap fun p => ownedBlocks layout (some p.1)).Perm layout.recordBatches :=
      flatMap_filter_perm honce
    rw [List.flatMap_congr hpart, ← List.flatMap_assoc, hbatches]
    exact hperm.flatMap_right _

-- ---------------------------------------------------------------------------
-- A file of two batches
-- ---------------------------------------------------------------------------

def StoredObject.of (size : Nat) (content : Bytes) (chunks : List Bytes) : StoredObject where
  size
  getRange start stop :=
    if start < stop ∧ stop ≤ size then .ok ((content.drop start).take (stop - start))
    else .error (.objectStore "invalid range")
  stream := chunks.map .ok

theorem StoredObject.of_refusesEmpty (size : Nat) (content : Bytes) (chunks : List Bytes) :
    (StoredObject.of size content chunks).RefusesEmpty := by
  intro start bytes
  simp [StoredObject.of]

/-- The prefix of a message and its root table, up to the header. -/
def messageRoot (kind header body : UInt8) : Bytes :=
  [255, 255, 255, 255, 128, 0, 0, 0, 16, 0, 0, 0, 12, 0, 20, 0, 16, 0, 18, 0, 4, 0, 8, 0, 12, 0, 0, 0, header, 0, 0, 0,
    body, 0, 0, 0, 0, 0, 0, 0, 4, 0, kind, 0]

/-- A schema of one nullable `Int32` field "x". -/
def schemaTable : Bytes :=
  [8, 0, 8, 0, 0, 0, 4, 0, 8, 0, 0, 0, 4, 0, 0, 0, 1, 0, 0, 0, 20, 0, 0, 0, 16, 0, 18, 0, 4, 0, 16, 0, 17, 0, 8, 0,
    0, 0, 12, 0, 16, 0, 0, 0, 16, 0, 0, 0, 28, 0, 0, 0, 36, 0, 0, 0, 1, 2, 0, 0, 1, 0, 0, 0, 120, 0, 0, 0, 8, 0, 9, 0,
    4, 0, 8, 0, 8, 0, 0, 0, 32, 0, 0, 0, 1, 0, 0, 0, 0, 0, 0, 0]

def schemaMessage : Bytes := messageRoot 1 24 0 ++ schemaTable

/-- A record batch of so many rows, in a body of eight bytes. -/
def batchMessage (rows : UInt8) (body : Bytes) : Bytes :=
  messageRoot 3 28 8 ++ [10, 0, 20, 0, 8, 0, 4, 0, 16, 0, 0, 0, 12, 0, 0, 0, 16, 0, 0, 0, rows, 0, 0, 0, 0, 0, 0, 0,
    28, 0, 0, 0, 1, 0, 0, 0, rows, 0, 0, 0, 0, 0, 0, 0, 0, 0, 0, 0, 0, 0, 0, 0, 0, 0, 0, 0, 2, 0, 0, 0] ++
    List.replicate 24 0 ++ [4 * rows, 0, 0, 0, 0, 0, 0, 0] ++ body

def firstMessage : Bytes := batchMessage 2 [1, 0, 0, 0, 2, 0, 0, 0]

def secondMessage : Bytes := batchMessage 1 [3, 0, 0, 0, 0, 0, 0, 0]

def endMarker : Bytes := [255, 255, 255, 255, 0, 0, 0, 0]

def magic : Bytes := [65, 82, 82, 79, 87, 49]

def footerBytes : Bytes :=
  [16, 0, 0, 0, 12, 0, 18, 0, 16, 0, 4, 0, 8, 0, 12, 0, 12, 0, 0, 0, 24, 0, 0, 0, 108, 0, 0, 0, 112, 0, 0, 0, 4, 0, 0, 0] ++
    schemaTable ++ [0, 0, 0, 0, 0, 0, 0, 0, 0, 0, 0, 0, 2, 0, 0, 0, 144, 0, 0, 0, 0, 0, 0, 0, 136, 0, 0, 0, 0, 0, 0, 0,
      8, 0, 0, 0, 0, 0, 0, 0, 32, 1, 0, 0, 0, 0, 0, 0, 136, 0, 0, 0, 0, 0, 0, 0, 8, 0, 0, 0, 0, 0, 0, 0]

def integersFile : Bytes :=
  magic ++ [0, 0] ++ schemaMessage ++ firstMessage ++ secondMessage ++ endMarker ++ footerBytes ++ [192, 0, 0, 0] ++ magic

def integers : Schema := [.mk "x" .int32 true]

def firstBatch : RecordBatch Int := ⟨integers, [[some 1], [some 2]], by decide⟩

def secondBatch : RecordBatch Int := ⟨integers, [[some 3]], by decide⟩

def projectInto (batch : RecordBatch Int) : Option (List Nat) → Except IpcError (Option (RecordBatch Int))
  | none => .ok (some batch)
  | some projection =>
    ((batch.project projection).mapError fun _ => .arrow "project index out of bounds").map some

def integersCodec : FileCodec (Option (List Nat)) Int where
  readFooterLength trailer :=
    if trailer.drop 4 = magic then .ok ((trailer.take 4).foldr (fun byte length => byte.toUInt32 + 256 * length) 0)
    else .error (.arrow "Arrow file does not contain correct footer")
  rootAsFooter bytes :=
    if bytes = footerBytes then .ok ⟨some integers, 4, some [], some [⟨144, 136, 8⟩, ⟨288, 136, 8⟩]⟩
    else .error (.arrow "Unable to get root as footer")
  new _ _ := none
  withProjection _ projection := some projection
  readDictionary _ _ _ := .error (.arrow "Unable to read IPC message as dictionary batch")
  readRecordBatch projection _ bytes :=
    if bytes = firstMessage then projectInto firstBatch projection
    else if bytes = secondMessage then projectInto secondBatch projection
    else .error (.arrow "Unable to get root as message")
  arrayMemorySize batch := 240 * batch.schema.length

def integersLayout : FileLayout 642 where
  schema := integers
  version := 4
  dictionaries := []
  recordBatches := [⟨144, 136, 8⟩, ⟨288, 136, 8⟩]
  identity := "integers.arrow"
  accepted := by rfl

/-- Both parts of the file, the second in front. -/
theorem file_ranges_read_once_integers :
    let scan range := openFile integersCodec (.of 642 integersFile [integersFile]) (fun _ _ => .ok ()) (some integersLayout)
      range "integers.arrow" none integers
    (batches (scan (some ⟨250, 642⟩)).emitted ++ batches (scan (some ⟨0, 250⟩)).emitted).Perm
        (batches (scan none).emitted) ∧
      (batches (scan none).emitted).map RecordBatch.rows = [[[some 1], [some 2]], [[some 3]]] := by
  have hcovering : Covering 642 [⟨250, 642⟩, ⟨0, 250⟩] :=
    ⟨[⟨0, 250⟩, ⟨250, 642⟩], 642, List.Perm.swap .., .cons (by decide) (.cons (by decide) .nil), by decide⟩
  have h := (file_ranges_read_once integersCodec (.of 642 integersFile [integersFile]) integersLayout "integers.arrow" none
    integers [(⟨250, 642⟩, fun _ _ => .ok ()), (⟨0, 250⟩, fun _ _ => .ok ())] (StoredObject.of_refusesEmpty _ _ _)
    hcovering).2.2.2 (fun _ _ => .ok ()) rfl
  have hparts := h.2 fun p hp => h.1 p hp fun _ _ => by
    simp only [List.mem_cons, List.not_mem_nil, or_false] at hp
    obtain rfl | rfl := hp <;> rfl
  exact ⟨by simpa using hparts, rfl⟩

end SilkChiffon.Arrow.Ipc
