import SilkChiffon.Arrow.StreamScan

/-!
# Sampled statistics

The statistics of an input group are those of its representative, read up to
the sample limit. They are exact if the representative is the only object and
was read to its end, and are scaled to the encoded bytes of the group
otherwise.
-/

namespace SilkChiffon.Arrow.Ipc

def sampleRows : Nat := 100000

inductive IpcVariant
  | file | stream
  deriving DecidableEq

inductive Precision
  | exact (value : Nat)
  | inexact (value : Nat)
  deriving DecidableEq

structure Statistics where
  numRows : Precision
  totalByteSize : Precision
  columnByteSizes : List Precision
  deriving DecidableEq

structure Sample where
  rows : Nat
  decodedBytes : Nat
  columnBytes : List Nat
  deriving DecidableEq

variable {α σ τ : Type}

abbrev ColumnSizes (α : Type) := RecordBatch α → List Nat

def addColumnBytes : List Nat → List Nat → Except IpcError (List Nat)
  | total :: totals, bytes :: rest => do
    let total ← checkedAdd total bytes "Arrow sample column byte count overflow"
    let totals ← addColumnBytes totals rest
    .ok (total :: totals)
  | totals, _ => .ok totals

def recordSample (sizes : ColumnSizes α) (memorySize : RecordBatch α → Nat) (batch : RecordBatch α)
    (sample : Sample) : Except IpcError (Sample × Bool) := do
  let rows ← checkedAdd sample.rows batch.rows.length "Arrow sample row count overflow"
  let decodedBytes ← checkedAdd sample.decodedBytes (memorySize batch)
    "Arrow sample decoded byte count overflow"
  let columnBytes ← addColumnBytes sample.columnBytes (sizes batch)
  .ok (⟨rows, decodedBytes, columnBytes⟩, sampleRows ≤ rows)

inductive SampleReservation
  | reserved (bytes : Nat)
  | safetyBoundExceeded

def reserveSampleBlock (pool : Pool) (reservation : Reservation) (block : Block) :
    Except IpcError SampleReservation := do
  let metadata ← unsigned block.metaDataLength.toInt "Arrow IPC metadata length is negative"
  let body ← unsigned block.bodyLength.toInt "Arrow IPC body length is negative"
  let size ← checkedAdd metadata body "Arrow IPC sample block size overflow"
  if maxIpcSafetyBytes < size then .ok .safetyBoundExceeded
  else do
    pool reservation size
    .ok (.reserved size)

-- ---------------------------------------------------------------------------
-- Files
-- ---------------------------------------------------------------------------

/-- The decoder that knows the dictionaries, and how many bytes were read;
nothing if one is too large. -/
def sampleDictionaries (codec : FileCodec σ α) (object : StoredObject) (pool : Pool) :
    Nat → σ → Nat → List Block → Scan α (Option (σ × Nat))
  | _, decoder, represented, [] => pure (some (decoder, represented))
  | index, decoder, represented, block :: blocks => do
    match ← Emit.lift (reserveSampleBlock pool (.dictionary index) block) with
    | .safetyBoundExceeded => pure none
    | .reserved _ =>
      let data ← readBlock object block
      let represented ← Emit.lift
        (checkedAdd represented data.length "Arrow sample byte count overflow")
      let decoder ← Emit.lift (codec.readDictionary decoder block data)
      sampleDictionaries codec object pool (index + 1) decoder represented blocks

/-- A sample, how many bytes it stands for, and whether it goes to the end. -/
structure SampleRun where
  sample : Sample
  represented : Nat
  reachedEof : Bool

def sampleBatch (codec : FileCodec σ α) (sizes : ColumnSizes α) (pool : Pool) (index count size : Nat)
    (run : SampleRun) (represented : Nat) : Option (RecordBatch α) → Except IpcError SampleRun
  | none => .ok { run with represented }
  | some batch => do
    let reserved ← checkedAdd size (codec.arrayMemorySize batch) "Arrow sample reservation size overflow"
    pool (.batch index) reserved
    let (sample, targetReached) ← recordSample sizes codec.arrayMemorySize batch run.sample
    let reachedEof := if targetReached then decide (index + 1 = count) else run.reachedEof
    .ok { sample, represented, reachedEof }

def sampleBlocks (codec : FileCodec σ α) (sizes : ColumnSizes α) (object : StoredObject) (pool : Pool)
    (decoder : σ) (count : Nat) : Nat → SampleRun → List Block → Scan α (Option SampleRun)
  | _, run, [] => pure (some run)
  | index, run, block :: blocks => do
    match ← Emit.lift (reserveSampleBlock pool (.block index) block) with
    | .safetyBoundExceeded => pure none
    | .reserved size =>
      let data ← readBlock object block
      let represented ← Emit.lift
        (checkedAdd run.represented data.length "Arrow sample byte count overflow")
      let decoded ← Emit.lift (codec.readRecordBatch decoder block data)
      let run ← Emit.lift (sampleBatch codec sizes pool index count size run represented decoded)
      if sampleRows ≤ run.sample.rows then pure (some run)
      else sampleBlocks codec sizes object pool decoder count (index + 1) run blocks

def sampleFile (codec : FileCodec σ α) (sizes : ColumnSizes α) (object : StoredObject) (pool : Pool)
    (identity : String) (sample : Sample) : Scan α (Option SampleRun) := do
  let layout ← readFileLayout codec object pool identity
  let decoder := codec.new layout.schema layout.version
  match ← sampleDictionaries codec object pool 0 decoder 0 layout.dictionaries with
  | none => pure none
  | some (decoder, represented) =>
    sampleBlocks codec sizes object pool decoder layout.recordBatches.length 0
      ⟨sample, represented, true⟩ layout.recordBatches

-- ---------------------------------------------------------------------------
-- Streams
-- ---------------------------------------------------------------------------

/-- The `while` over one message's buffer, with `reserved` bytes held. -/
def sampleBuffer (codec : StreamCodec τ α) (sizes : ColumnSizes α) (pool : Pool) (message : Nat) :
    Nat → τ → Sample → Nat → Bytes → Except IpcError (τ × Sample)
  | _, decoder, sample, _, [] => .ok (decoder, sample)
  | 0, _, _, _, _ :: _ => .error .unfinished
  | turns + 1, decoder, sample, reserved, byte :: bytes => do
    let (decoder, buffer, batch) ← codec.decode decoder (byte :: bytes)
    match batch with
    | none => sampleBuffer codec sizes pool message turns decoder sample reserved buffer
    | some batch =>
      let reserved ← checkedAdd reserved (codec.arrayMemorySize batch)
        "Arrow sample reservation size overflow"
      pool (.decoded message turns) reserved
      let (sample, _) ← recordSample sizes codec.arrayMemorySize batch sample
      sampleBuffer codec sizes pool message turns decoder sample reserved buffer

/-- The loop over the messages from `offset` on, with up to `turns` turns of
this loop and of the one over each message. -/
def sampleMessages (codec : StreamCodec τ α) (sizes : ColumnSizes α) (object : StoredObject)
    (pool : Pool) (identity : String) (turns : Nat) :
    Nat → Nat → τ → Sample → Nat → Scan α (Option (τ × SampleRun))
  | 0, _, _, _, _ => Emit.throw .unfinished
  | messages + 1, offset, decoder, sample, represented => do
    match ← readStreamMessage codec object offset identity with
    | .done => pure (some (decoder, ⟨sample, represented, true⟩))
    | .safetyBoundExceeded => pure none
    | .message bytes offset =>
      Emit.lift (pool (.message messages) bytes.length)
      let represented ← Emit.lift
        (checkedAdd represented bytes.length "Arrow sample byte count overflow")
      let (decoder, sample) ← Emit.lift
        (sampleBuffer codec sizes pool messages turns decoder sample bytes.length bytes)
      if sampleRows ≤ sample.rows then
        pure (some (decoder, ⟨sample, represented, object.size ≤ offset⟩))
      else sampleMessages codec sizes object pool identity turns messages offset decoder sample represented

def sampleStream (codec : StreamCodec τ α) (sizes : ColumnSizes α) (object : StoredObject)
    (pool : Pool) (identity : String) (turns : Nat) (sample : Sample) : Scan α (Option SampleRun) := do
  match ← sampleMessages codec sizes object pool identity turns turns 0 codec.new sample 0 with
  | none => pure none
  | some (decoder, run) =>
    if run.reachedEof then Emit.lift (codec.finish decoder) else pure ()
    pure (some run)

-- ---------------------------------------------------------------------------
-- Statistics
-- ---------------------------------------------------------------------------

/-- A sample scaled to the whole, rounded up. -/
def scale (sample total represented : Nat) : Except IpcError Nat :=
  if sample * total < 340282366920938463463374607431768211456 then
    let estimate := (sample * total + represented - 1) / represented
    if estimate < 18446744073709551616 then .ok estimate
    else .error (.internal "Arrow statistics estimate exceeds usize")
  else .error (.internal "Arrow statistics scaling overflow")

def sampleEstimate (sample total represented : Nat) (exact : Bool) : Except IpcError Nat :=
  if exact then .ok sample else scale sample total represented

def precision (exact : Bool) (value : Nat) : Precision :=
  if exact then .exact value else .inexact value

def statistics (selectedEncodedBytes : Nat) (singleObject : Bool) (run : SampleRun) :
    Except IpcError (Option Statistics) :=
  if run.sample.rows = 0 ∨ run.represented = 0 then .ok none
  else do
    let exact := singleObject && run.reachedEof
    let estimate sample := sampleEstimate sample selectedEncodedBytes run.represented exact
    let columnByteSizes ← run.sample.columnBytes.mapM fun bytes =>
      (estimate bytes).map (precision exact)
    let numRows ← estimate run.sample.rows
    let totalByteSize ← estimate run.sample.decodedBytes
    .ok (some ⟨precision exact numRows, precision exact totalByteSize, columnByteSizes⟩)

def sampleVariant (fileCodec : FileCodec σ α) (streamCodec : StreamCodec τ α)
    (sizes : ColumnSizes α) (object : StoredObject) (pool : Pool) (identity : String) (turns : Nat)
    (sample : Sample) : IpcVariant → Scan α (Option SampleRun)
  | .file => sampleFile fileCodec sizes object pool identity sample
  | .stream => sampleStream streamCodec sizes object pool identity turns sample

def sampleStatistics (fileCodec : FileCodec σ α) (streamCodec : StreamCodec τ α)
    (sizes : ColumnSizes α) (variant : IpcVariant) (object : StoredObject) (pool : Pool)
    (identity : String) (schema : Schema) (selectedEncodedBytes : Nat) (singleObject : Bool)
    (turns : Nat) : Scan α (Option Statistics) := do
  match ← sampleVariant fileCodec streamCodec sizes object pool identity turns
      ⟨0, 0, List.replicate schema.length 0⟩ variant with
  | none => pure none
  | some run => Emit.lift (statistics selectedEncodedBytes singleObject run)

end SilkChiffon.Arrow.Ipc
