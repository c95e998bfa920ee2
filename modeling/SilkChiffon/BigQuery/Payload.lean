import SilkChiffon.Lib.Lists
import SilkChiffon.Arrow.RecordBatch

/-!
# ReadRows payloads

A response is checked against the session before its bytes are decoded, and
the decoded batch against the response's row count. What reads Arrow IPC and
LZ4 is a parameter, the `Reader`.
-/

namespace SilkChiffon.BigQuery

open Arrow

abbrev Bytes := List UInt8

abbrev DecodeLimit := { bytes : Nat // 0 < bytes }

inductive DecodeErrorKind
  | serializedPayloadLimit
  | decodedPayloadLimit
  | invalidIpcFraming
  | invalidFlatbuffer
  | wrongSchemaMessageHeader
  | wrongRecordBatchMessageHeader
  | dictionaryBatchUnsupported
  | invalidArrowSchema
  | repeatedSchemaMismatch
  | avroSchema
  | missingRows
  | avroRows
  | negativeResponseRowCount
  | deprecatedRowCountMismatch
  | decodedRowCountMismatch
  | positiveSizeWithoutRows
  | compressionNotRequested
  | unknownCompressionState
  | rawLz4Decompression
  | nativeCompression
  | invalidRecordBatch
  | batchSchemaMismatch
  deriving DecidableEq

inductive ResponseRows
  | arrowRecordBatch (serializedRecordBatch : Bytes) (rowCount : Int)
  | avroRows (serializedBinaryRows : Bytes)
  deriving DecidableEq

inductive ResponseSchema
  | arrowSchema (serializedSchema : Bytes)
  | avroSchema
  deriving DecidableEq

structure ReadRowsResponse where
  rowCount : Int
  rows : Option ResponseRows
  schema : Option ResponseSchema
  uncompressedByteSize : Option Int
  deriving DecidableEq

def serializedPayloadLen (response : ReadRowsResponse) : Nat :=
  match response.rows with
  | some (.arrowRecordBatch serialized _) => serialized.length
  | some (.avroRows serialized) => serialized.length
  | none => 0

inductive RowPayloadCodec
  | none | rawLz4
  deriving DecidableEq

inductive MessageHeader
  | dictionaryBatch | recordBatch | other
  deriving DecidableEq

/-- The metadata of a record batch message: whether its buffers are compressed,
and the rest, which only the reader looks at. -/
structure BatchMetadata (M : Type) where
  compressed : Bool
  rest : M

structure EncapsulatedMessage (M : Type) where
  headerType : MessageHeader
  headerAsRecordBatch : Option (BatchMetadata M)
  body : Bytes

structure Reader (α M : Type) where
  sessionSchema : Bytes → DecodeLimit → Except DecodeErrorKind Schema
  sameSchema : Schema → Schema → Bool
  decompressRawLz4 : Bytes → Nat → DecodeLimit → Except DecodeErrorKind Bytes
  parseEncapsulated : Bytes → DecodeLimit → Except DecodeErrorKind (EncapsulatedMessage M)
  validateNativeBuffers : BatchMetadata M → Bytes → DecodeLimit → Except DecodeErrorKind Nat
  readRecordBatch : Bytes → BatchMetadata M → Schema → Option (RecordBatch α)
  allocated : RecordBatch α → Nat
  accepts : Schema → RecordBatch α → Bool

variable {α M : Type}

def validateRepeatedSchema (reader : Reader α M) (repeated : Option ResponseSchema)
    (canonical : Schema) (limit : DecodeLimit) : Except DecodeErrorKind Unit :=
  match repeated with
  | none => .ok ()
  | some .avroSchema => .error .avroSchema
  | some (.arrowSchema serialized) =>
    match reader.sessionSchema serialized limit with
    | .error _ => .error .repeatedSchemaMismatch
    | .ok repeated =>
      if reader.sameSchema repeated canonical then .ok () else .error .repeatedSchemaMismatch

def validateCompressionState (declared : Option Int) (hasRows : Bool) (codec : RowPayloadCodec)
    (limit : DecodeLimit) : Except DecodeErrorKind (Option Nat) :=
  match codec, declared with
  | .none, none => .ok none
  | .none, some _ => .error .compressionNotRequested
  | .rawLz4, none => .ok none
  | .rawLz4, some value =>
    if value = 0 ∨ value = -1 then .ok none
    else if value < -1 then .error .unknownCompressionState
    else if !hasRows then .error .positiveSizeWithoutRows
    else if limit.1 < value.toNat then .error .decodedPayloadLimit
    else .ok (some value.toNat)

structure SerializedRows where
  payload : Bytes
  responseRowCount : Nat
  declaredUncompressed : Option Nat
  deriving DecidableEq

structure DecodedBatch (α : Type) where
  batch : RecordBatch α
  rowCount : Nat
  arrowBufferMemory : Nat
  counted : batch.rows.length = rowCount

/-- The response's rows as checked bytes, or nothing for a response without
rows. A row count is a 64 bit size once it is not negative. -/
def fromResponse (reader : Reader α M) (response : ReadRowsResponse) (canonical : Schema)
    (codec : RowPayloadCodec) (limit : DecodeLimit) :
    Except DecodeErrorKind (Option SerializedRows) :=
  if response.rowCount < 0 then .error .negativeResponseRowCount
  else do
    let responseRowCount := response.rowCount.toNat
    validateRepeatedSchema reader response.schema canonical limit
    let declaredUncompressed ←
      validateCompressionState response.uncompressedByteSize response.rows.isSome codec limit
    match response.rows with
    | some (.arrowRecordBatch serialized rowCount) =>
      if rowCount ≠ 0 ∧ rowCount ≠ response.rowCount then .error .deprecatedRowCountMismatch
      else if limit.1 < serialized.length then .error .serializedPayloadLimit
      else .ok (some { payload := serialized, responseRowCount, declaredUncompressed })
    | some (.avroRows _) => .error .avroRows
    | none => if responseRowCount = 0 then .ok none else .error .missingRows

theorem fromResponse_none {reader : Reader α M}
    (h : fromResponse reader response canonical codec limit = .ok none) :
    response.rowCount.toNat = 0 := by
  unfold fromResponse at h
  split at h
  · cases h
  · obtain ⟨_, _, h⟩ := Lists.bind_eq_ok.mp h
    obtain ⟨declared, _, h⟩ := Lists.bind_eq_ok.mp h
    split at h
    · split at h
      · cases h
      · split at h <;> cases h
    · cases h
    · split at h
      · assumption
      · cases h

namespace SerializedRows

/-- What decoding may add to the payload: `checked_add` on a 64 bit size. -/
def memoryUpperBound (reader : Reader α M) (rows : SerializedRows) (limit : DecodeLimit) :
    Except DecodeErrorKind Nat := do
  let additional ← match rows.declaredUncompressed with
    | some declared => pure declared
    | none => do
      let envelope ← reader.parseEncapsulated rows.payload limit
      match envelope.headerAsRecordBatch with
      | none => throw .wrongRecordBatchMessageHeader
      | some metadata =>
        if metadata.compressed then reader.validateNativeBuffers metadata envelope.body limit
        else pure 0
  if rows.payload.length + additional < 18446744073709551616 then
    pure (rows.payload.length + additional)
  else throw .decodedPayloadLimit

def decodeIpc (reader : Reader α M) (ipc : Bytes) (responseRowCount : Nat) (canonical : Schema)
    (limit : DecodeLimit) : Except DecodeErrorKind (DecodedBatch α) := do
  let envelope ← reader.parseEncapsulated ipc limit
  match envelope.headerType with
  | .dictionaryBatch => throw .dictionaryBatchUnsupported
  | .other => throw .wrongRecordBatchMessageHeader
  | .recordBatch =>
    match envelope.headerAsRecordBatch with
    | none => throw .invalidFlatbuffer
    | some metadata =>
      let _ ← reader.validateNativeBuffers metadata envelope.body limit
      match reader.readRecordBatch envelope.body metadata canonical with
      | none => throw .invalidRecordBatch
      | some batch =>
        if !reader.sameSchema batch.schema canonical then throw .batchSchemaMismatch
        else if h : batch.rows.length = responseRowCount then
          if limit.1 < reader.allocated batch then throw .decodedPayloadLimit
          else pure ⟨batch, responseRowCount, reader.allocated batch, h⟩
        else throw .decodedRowCountMismatch

def decode (reader : Reader α M) (rows : SerializedRows) (canonical : Schema)
    (limit : DecodeLimit) : Except DecodeErrorKind (DecodedBatch α) := do
  let ipc ← match rows.declaredUncompressed with
    | some length => reader.decompressRawLz4 rows.payload length limit
    | none => pure rows.payload
  decodeIpc reader ipc rows.responseRowCount canonical limit

end SerializedRows

end SilkChiffon.BigQuery
