import SilkChiffon.Arrow.FieldEquality
import SilkChiffon.Arrow.RecordBatch
import SilkChiffon.Lib.Emit

/-!
# Arrow IPC files

A file ends in a footer that says where its dictionaries and record batches
are. The footer's numbers are signed and nobody's word: the blocks are checked
against the object before any of them is read. A scan reads all dictionaries
and then the record batches its byte range owns.
-/

namespace SilkChiffon.Arrow.Ipc

abbrev Bytes := List UInt8

inductive IpcError
  | internal (message : String)
  | execution (message : String)
  | schemaMismatch (canonicalUrl : String) (expected got : Schema)
  | objectStore (message : String)
  | arrow (message : String)
  | resourcesExhausted
  | unfinished  -- a loop was not given enough turns

def maxIpcSafetyBytes : Nat := 512 * 1024 * 1024

/-- `checked_add` of unsigned 64 bit numbers. -/
def checkedAdd (a b : Nat) (message : String) : Except IpcError Nat :=
  if a + b < 18446744073709551616 then .ok (a + b) else .error (.internal message)

def unsigned (value : Int) (message : String) : Except IpcError Nat :=
  if value < 0 then .error (.internal message) else .ok value.toNat

-- ---------------------------------------------------------------------------
-- Blocks
-- ---------------------------------------------------------------------------

structure Block where
  offset : Int64
  metaDataLength : Int32
  bodyLength : Int64
  deriving DecidableEq

def validateBlock (size : Nat) (identity : String) (block : Block) : Except IpcError Unit := do
  let offset ← unsigned block.offset.toInt "Arrow IPC block offset is negative"
  let metadata ← unsigned block.metaDataLength.toInt "Arrow IPC metadata length is negative"
  let body ← unsigned block.bodyLength.toInt "Arrow IPC body length is negative"
  let stop ← checkedAdd offset metadata "Arrow IPC block range overflows"
  let stop ← checkedAdd stop body "Arrow IPC block range overflows"
  if size < stop then
    .error (.internal ("Arrow IPC block range " ++ toString offset ++ ".." ++ toString stop ++
      " exceeds object size " ++ toString size ++ " for " ++ identity))
  else .ok ()

def validateBlocks (size : Nat) (identity : String) : List Block → Except IpcError Unit
  | [] => .ok ()
  | block :: blocks => do
    validateBlock size identity block
    validateBlocks size identity blocks

def blockSize (block : Block) : Except IpcError Nat := do
  let metadata ← unsigned block.metaDataLength.toInt "Arrow IPC metadata length is negative"
  let body ← unsigned block.bodyLength.toInt "Arrow IPC body length is negative"
  checkedAdd metadata body "Arrow IPC block length overflows"

/-- Byte ranges are half open. -/
structure FileRange where
  start : Int64
  stop : Int64
  deriving DecidableEq

def FileRange.owns (range : FileRange) (block : Block) : Bool :=
  range.start.toInt ≤ block.offset.toInt ∧ block.offset.toInt < range.stop.toInt

-- ---------------------------------------------------------------------------
-- The environment
-- ---------------------------------------------------------------------------

abbrev MetadataVersion := Int16

structure Footer where
  schema : Option Schema
  version : MetadataVersion
  dictionaries : Option (List Block)
  recordBatches : Option (List Block)

/-- Arrow's file format: the trailer's four byte length, the footer, and a
decoder that is given the blocks. -/
structure FileCodec (σ α : Type) where
  readFooterLength : Bytes → Except IpcError UInt32
  rootAsFooter : Bytes → Except IpcError Footer
  new : Schema → MetadataVersion → σ
  withProjection : σ → List Nat → σ
  readDictionary : σ → Block → Bytes → Except IpcError σ
  readRecordBatch : σ → Block → Bytes → Except IpcError (Option (RecordBatch α))
  arrayMemorySize : RecordBatch α → Nat

/-- The object: how long its metadata says it is, its ranges, and the chunks
it is delivered in. -/
structure StoredObject where
  size : Nat
  getRange : Nat → Nat → Except IpcError Bytes
  stream : List (Except IpcError Bytes)

/-- The points at which memory is asked for. -/
inductive Reservation
  | footer
  | dictionary (index : Nat)
  | block (index : Nat)
  | batch (index : Nat)
  | release (index : Nat)
  | message (index : Nat)
  | decoded (index turns : Nat)
  | remaining (index turns : Nat)
  deriving DecidableEq

abbrev Pool := Reservation → Nat → Except IpcError Unit

inductive ScanEvent (α : Type)
  | read (start stop : Nat)
  | batch (batch : RecordBatch α)

abbrev Scan (α β : Type) := Emit (ScanEvent α) IpcError β

variable {α σ : Type}

def getRange (object : StoredObject) (start stop : Nat) : Scan α Bytes := do
  Emit.emit (.read start stop)
  Emit.lift (object.getRange start stop)

def readBlock (object : StoredObject) (block : Block) : Scan α Bytes := do
  let start ← Emit.lift (unsigned block.offset.toInt "Arrow IPC block offset is negative")
  let length ← Emit.lift (blockSize block)
  getRange object start ((start + length) % 18446744073709551616)

-- ---------------------------------------------------------------------------
-- Layouts
-- ---------------------------------------------------------------------------

/-- The blocks of a footer that were found to lie within the object. -/
structure FileLayout (size : Nat) where
  schema : Schema
  version : MetadataVersion
  dictionaries : List Block
  recordBatches : List Block
  identity : String
  accepted : validateBlocks size identity (dictionaries ++ recordBatches) = .ok ()

def fileLayout (size : Nat) (identity : String) (footer : Footer) : Except IpcError (FileLayout size) :=
  match footer.schema with
  | none => .error (.internal "Arrow IPC footer has no schema")
  | some schema =>
    let dictionaries := footer.dictionaries.getD []
    let recordBatches := footer.recordBatches.getD []
    match h : validateBlocks size identity (dictionaries ++ recordBatches) with
    | .error e => .error e
    | .ok () => .ok { schema, version := footer.version, dictionaries, recordBatches, identity, accepted := h }

def readFileLayout (codec : FileCodec σ α) (object : StoredObject) (pool : Pool)
    (identity : String) : Scan α (FileLayout object.size) :=
  if object.size < 10 then
    Emit.throw (.execution ("Arrow IPC file " ++ identity ++ " is shorter than its trailer"))
  else do
    let trailer ← getRange object (object.size - 10) object.size
    if trailer.length ≠ 10 then
      Emit.throw (.internal "Arrow IPC trailer has the wrong length")
    else
      let footerLen ← Emit.lift (codec.readFooterLength trailer)
      if object.size < footerLen.toNat + 10 then
        Emit.throw (.execution ("Arrow IPC footer length " ++ toString footerLen ++
          " is invalid for " ++ identity))
      else if maxIpcSafetyBytes < footerLen.toNat then
        Emit.throw (.execution ("Arrow IPC footer exceeds the 512 MiB safety bound for " ++ identity))
      else
        Emit.lift (pool .footer footerLen.toNat)
        let footerBytes ← getRange object (object.size - 10 - footerLen.toNat) (object.size - 10)
        let footer ← Emit.lift (codec.rootAsFooter footerBytes)
        Emit.lift (fileLayout object.size identity footer)

-- ---------------------------------------------------------------------------
-- Scans
-- ---------------------------------------------------------------------------

/-- Schemas have no metadata here, so that all of them is compared. -/
def schemasMatchIgnoringMetadata (left right : Schema) : Bool := sameFields left right

/-- The dictionaries from the `index`-th on: the decoder that knows them, and
how long they are together. -/
def readDictionaries (codec : FileCodec σ α) (object : StoredObject) (pool : Pool) :
    Nat → σ → Nat → List Block → Scan α (σ × Nat)
  | _, decoder, dictionaryBytes, [] => pure (decoder, dictionaryBytes)
  | index, decoder, dictionaryBytes, block :: blocks => do
    let length ← Emit.lift (blockSize block)
    let dictionaryBytes ← Emit.lift
      (checkedAdd dictionaryBytes length "Arrow IPC dictionary size overflows")
    Emit.lift (pool (.dictionary index) dictionaryBytes)
    let data ← readBlock object block
    let decoder ← Emit.lift (codec.readDictionary decoder block data)
    readDictionaries codec object pool (index + 1) decoder dictionaryBytes blocks

def readRecordBatch (codec : FileCodec σ α) (object : StoredObject) (pool : Pool) (index : Nat)
    (decoder : σ) (dictionaryBytes : Nat) (block : Block) : Scan α Unit := do
  let blockBytes ← Emit.lift (blockSize block)
  let size ← Emit.lift (checkedAdd dictionaryBytes blockBytes "Arrow IPC reader size overflows")
  Emit.lift (pool (.block index) size)
  let bytes ← readBlock object block
  match ← Emit.lift (codec.readRecordBatch decoder block bytes) with
  | none => Emit.lift (pool (.release index) dictionaryBytes)
  | some batch =>
    let size ← Emit.lift
      (checkedAdd dictionaryBytes (codec.arrayMemorySize batch) "Arrow IPC batch size overflows")
    Emit.lift (pool (.batch index) size)
    Emit.emit (.batch batch)
    Emit.lift (pool (.release index) dictionaryBytes)

def readRecordBatches (codec : FileCodec σ α) (object : StoredObject) (pool : Pool) (decoder : σ)
    (dictionaryBytes : Nat) : Nat → List Block → Scan α Unit
  | _, [] => pure ()
  | index, block :: blocks => do
    readRecordBatch codec object pool index decoder dictionaryBytes block
    readRecordBatches codec object pool decoder dictionaryBytes (index + 1) blocks

def fileDecoder (codec : FileCodec σ α) (layout : FileLayout size) (projection : Option (List Nat)) : σ :=
  let decoder := codec.new layout.schema layout.version
  match projection with
  | none => decoder
  | some projection => codec.withProjection decoder projection

def ownedBlocks (layout : FileLayout size) (range : Option FileRange) : List Block :=
  layout.recordBatches.filter fun block => range.all (·.owns block)

/-- A scan to its end. The layout is read unless another scan of the object
has it already. -/
def openFile (codec : FileCodec σ α) (object : StoredObject) (pool : Pool)
    (cell : Option (FileLayout object.size)) (range : Option FileRange) (canonicalUrl : String)
    (projection : Option (List Nat)) (expectedSchema : Schema) : Scan α Unit := do
  let layout ← match cell with
    | some layout => pure layout
    | none => readFileLayout codec object pool canonicalUrl
  if schemasMatchIgnoringMetadata expectedSchema layout.schema then
    let (decoder, dictionaryBytes) ← readDictionaries codec object pool 0
      (fileDecoder codec layout projection) 0 layout.dictionaries
    readRecordBatches codec object pool decoder dictionaryBytes 0 (ownedBlocks layout range)
  else Emit.throw (.schemaMismatch canonicalUrl expectedSchema layout.schema)

end SilkChiffon.Arrow.Ipc
