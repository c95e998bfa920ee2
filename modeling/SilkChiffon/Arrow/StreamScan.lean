import SilkChiffon.Arrow.FileLayout

/-!
# Arrow IPC streams

A stream is messages one after another. Sampling reads it message by message,
by the lengths the messages declare; a scan gives the decoder the chunks the
object happens to be delivered in.
-/

namespace SilkChiffon.Arrow.Ipc

/-- Arrow's stream format: the length of a message's body, and a decoder that
is pushed bytes and gives a batch as soon as it has one. -/
structure StreamCodec (τ α : Type) where
  bodyLength : Bytes → Except IpcError Int64
  new : τ
  decode : τ → Bytes → Except IpcError (τ × Bytes × Option (RecordBatch α))
  schema : τ → Option Schema
  finish : τ → Except IpcError Unit
  arrayMemorySize : RecordBatch α → Nat

variable {α τ : Type}

-- ---------------------------------------------------------------------------
-- Messages
-- ---------------------------------------------------------------------------

/-- `from_le_bytes` of an unsigned number. -/
def natFromLe : Bytes → Nat
  | [] => 0
  | byte :: bytes => byte.toNat + 256 * natFromLe bytes

inductive StreamMessageRead
  | done
  | message (bytes : Bytes) (stop : Nat)
  | safetyBoundExceeded

def messageHeader (object : StoredObject) (offset : Nat) (identity : String) : Scan α (Nat × Nat) := do
  let first ← getRange object offset (offset + 4)
  if first.length ≠ 4 then
    Emit.throw (.internal "Arrow IPC stream message header has the wrong length")
  else if natFromLe first ≠ 4294967295 then pure (4, natFromLe first)
  else if object.size - offset < 8 then
    Emit.throw (.internal ("Arrow IPC stream " ++ identity ++ " ends after a continuation marker"))
  else do
    let length ← getRange object (offset + 4) (offset + 8)
    if length.length ≠ 4 then
      Emit.throw (.internal "Arrow IPC stream message length is malformed")
    else pure (8, natFromLe length)

def readStreamMessage (codec : StreamCodec τ α) (object : StoredObject) (offset : Nat)
    (identity : String) : Scan α StreamMessageRead :=
  if offset = object.size then pure .done
  else if object.size - offset < 4 then
    Emit.throw (.internal ("Arrow IPC stream " ++ identity ++ " ends inside a message header"))
  else do
    let (headerLen, metadataLen) ← messageHeader object offset identity
    if metadataLen = 0 then
      let bytes ← getRange object offset (offset + headerLen)
      pure (.message bytes (offset + headerLen))
    else
      let metadataStart ← Emit.lift (checkedAdd offset headerLen "Arrow IPC stream range overflows")
      let metadataEnd ← Emit.lift
        (checkedAdd metadataStart metadataLen "Arrow IPC stream range overflows")
      if object.size < metadataEnd then
        Emit.throw (.internal ("Arrow IPC stream " ++ identity ++ " ends inside message metadata"))
      else if maxIpcSafetyBytes < metadataLen then pure .safetyBoundExceeded
      else
        let metadata ← getRange object metadataStart metadataEnd
        let bodyLength ← Emit.lift (codec.bodyLength metadata)
        let bodyLen ← Emit.lift
          (unsigned bodyLength.toInt "Arrow IPC stream body length is negative")
        let stop ← Emit.lift (checkedAdd metadataEnd bodyLen "Arrow IPC stream range overflows")
        if object.size < stop then
          Emit.throw (.internal ("Arrow IPC stream " ++ identity ++ " ends inside a message body"))
        else if maxIpcSafetyBytes < stop - offset then pure .safetyBoundExceeded
        else
          let bytes ← getRange object offset stop
          pure (.message bytes stop)

-- ---------------------------------------------------------------------------
-- Scans
-- ---------------------------------------------------------------------------

def projectBatch (batch : RecordBatch α) : Option (List Nat) → Except IpcError (RecordBatch α)
  | none => .ok batch
  | some projection => (batch.project projection).mapError fun _ =>
      .arrow "project index out of bounds"

/-- The schema is compared once, as soon as the decoder knows it. -/
def checkSchema (codec : StreamCodec τ α) (canonicalUrl : String) (expectedSchema : Schema)
    (decoder : τ) (schemaChecked : Bool) : Except IpcError Bool :=
  match schemaChecked, codec.schema decoder with
  | false, some schema =>
    if schemasMatchIgnoringMetadata expectedSchema schema then .ok true
    else .error (.schemaMismatch canonicalUrl expectedSchema schema)
  | schemaChecked, _ => .ok schemaChecked

/-- The `while` over one chunk's buffer, with `reserved` bytes held. -/
def scanBuffer (codec : StreamCodec τ α) (pool : Pool) (canonicalUrl : String)
    (projection : Option (List Nat)) (expectedSchema : Schema) (chunk : Nat) :
    Nat → τ → Bool → Nat → Bytes → Scan α (τ × Bool)
  | _, decoder, schemaChecked, _, [] => pure (decoder, schemaChecked)
  | 0, _, _, _, _ :: _ => Emit.throw .unfinished
  | turns + 1, decoder, schemaChecked, reserved, byte :: bytes => do
    let (decoder, buffer, batch) ← Emit.lift (codec.decode decoder (byte :: bytes))
    let schemaChecked ← Emit.lift
      (checkSchema codec canonicalUrl expectedSchema decoder schemaChecked)
    match batch with
    | none =>
      scanBuffer codec pool canonicalUrl projection expectedSchema chunk turns decoder schemaChecked
        reserved buffer
    | some batch =>
      let batch ← Emit.lift (projectBatch batch projection)
      let size ← Emit.lift
        (checkedAdd reserved (codec.arrayMemorySize batch) "Arrow IPC stream batch size overflows")
      Emit.lift (pool (.decoded chunk turns) size)
      Emit.emit (.batch batch)
      Emit.lift (pool (.remaining chunk turns) buffer.length)
      scanBuffer codec pool canonicalUrl projection expectedSchema chunk turns decoder schemaChecked
        buffer.length buffer

def scanChunks (codec : StreamCodec τ α) (pool : Pool) (canonicalUrl : String)
    (projection : Option (List Nat)) (expectedSchema : Schema) (turns : Nat) :
    Nat → τ → Bool → List (Except IpcError Bytes) → Scan α τ
  | _, decoder, _, [] => pure decoder
  | index, decoder, schemaChecked, chunk :: chunks => do
    let chunk ← Emit.lift chunk
    Emit.lift (pool (.message index) chunk.length)
    let (decoder, schemaChecked) ← scanBuffer codec pool canonicalUrl projection expectedSchema index
      turns decoder schemaChecked chunk.length chunk
    scanChunks codec pool canonicalUrl projection expectedSchema turns (index + 1) decoder
      schemaChecked chunks

/-- A scan to its end, with up to `turns` turns for each chunk. -/
def openStream (codec : StreamCodec τ α) (object : StoredObject) (pool : Pool)
    (range : Option FileRange) (canonicalUrl : String) (projection : Option (List Nat))
    (expectedSchema : Schema) (turns : Nat) : Scan α Unit :=
  if range.isSome then
    Emit.throw (.internal "Arrow IPC streams do not support byte-range partitions")
  else do
    let decoder ← scanChunks codec pool canonicalUrl projection expectedSchema turns 0 codec.new false
      object.stream
    Emit.lift (codec.finish decoder)

end SilkChiffon.Arrow.Ipc
