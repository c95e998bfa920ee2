import SilkChiffon.BigQuery.Framing

/-!
# Decoding record batches

How a serialized record batch is taken apart before Arrow reads it: the framing
is checked, a raw LZ4 payload is decompressed to its declared length, and the
buffers of a batch are checked one by one against what they declare.
-/

namespace SilkChiffon.BigQuery

open Arrow

/-- Arrow, Flatbuffers and LZ4. `lz4Block` gives the bytes written into an output
of a given length, `lz4Frame` how many bytes a frame yields of at most so many. -/
structure Library (α N : Type) where
  sessionSchema : Bytes → DecodeLimit → Except DecodeErrorKind Schema
  sameSchema : Schema → Schema → Bool
  flatbuffers : Framing.Flatbuffers N
  lz4Block : Bytes → Nat → Option Bytes
  lz4Frame : Bytes → Nat → Option Nat
  readRecordBatch : Bytes → RecordBatchHeader N → Schema → Option (RecordBatch α)
  allocated : RecordBatch α → Nat
  accepts : Schema → RecordBatch α → Bool

variable {α N : Type}

-- ---------------------------------------------------------------------------
-- Messages
-- ---------------------------------------------------------------------------

def Message.envelope (message : Message N) (body : Bytes) : EncapsulatedMessage (RecordBatchHeader N) where
  headerType := message.headerType
  headerAsRecordBatch := message.headerAsRecordBatch.map fun header =>
    { compressed := header.compression.isSome, rest := header }
  body := body

/-- `parse_encapsulated`, which never indexes out of bounds. -/
def parseEncapsulated (library : Library α N) (bytes : Bytes) (limit : DecodeLimit) :
    Except DecodeErrorKind (EncapsulatedMessage (RecordBatchHeader N)) :=
  match h : Framing.parseEncapsulated library.flatbuffers bytes limit with
  | .ok parsed => .ok (parsed.message.envelope parsed.body)
  | .error (.refused kind) => .error kind
  | .error (.overflowed kind) => .error kind
  | .error .outOfBounds => ((Framing.parseEncapsulated_ensures library.flatbuffers bytes limit).error h).elim

-- ---------------------------------------------------------------------------
-- Compression
-- ---------------------------------------------------------------------------

def decompressRawLz4 (library : Library α N) (input : Bytes) (outputLength : Nat)
    (limit : DecodeLimit) : Except DecodeErrorKind Bytes :=
  if limit.1 < outputLength then .error .decodedPayloadLimit
  else match library.lz4Block input outputLength with
    | none => .error .rawLz4Decompression
    | some output =>
      if output.length ≠ outputLength then .error .rawLz4Decompression else .ok output

def validateLz4Frame (library : Library α N) (input : Bytes) (declared : Nat) :
    Except DecodeErrorKind Unit :=
  match checkedAddSize declared 1 with
  | none => .error .decodedPayloadLimit
  | some cap =>
    match library.lz4Frame input cap with
    | none => .error .nativeCompression
    | some outputBytes =>
      if outputBytes ≠ declared then .error .nativeCompression else .ok ()

def validateNativeBuffer (library : Library α N) (codec : CompressionType) (encoded : Bytes)
    (limit : DecodeLimit) : Except DecodeErrorKind Nat :=
  if encoded = [] then .ok 0
  else if encoded.length < 8 then .error .nativeCompression
  else
    let declared := intFromLe (encoded.take 8)
    if declared = -1 then .ok (encoded.length - 8)
    else if declared < 0 then .error .nativeCompression
    else if limit.1 < declared.toNat then .error .decodedPayloadLimit
    else match codec with
      | .lz4Frame => do
        validateLz4Frame library (encoded.drop 8) declared.toNat
        pure declared.toNat
      | .zstd => .ok declared.toNat
      | .other => .error .nativeCompression

def BufferSpec.encoded (buffer : BufferSpec) (body : Bytes) : Bytes :=
  (body.drop buffer.offset.toNat).take buffer.length.toNat

def decodedLength (library : Library α N) (compression : Option BodyCompression) (body : Bytes)
    (limit : DecodeLimit) (buffer : BufferSpec) : Except DecodeErrorKind Nat :=
  if buffer.offset < 0 ∨ buffer.length < 0 then .error .invalidRecordBatch
  else match checkedAddSize buffer.offset.toNat buffer.length.toNat with
    | none => .error .invalidRecordBatch
    | some bufferEnd =>
      if body.length < bufferEnd then .error .invalidRecordBatch
      else match compression with
        | none => .ok buffer.length.toNat
        | some compression =>
          if compression.method ≠ .buffer then .error .nativeCompression
          else validateNativeBuffer library compression.codec (buffer.encoded body) limit

/-- The loop of `validate_native_buffers`. -/
def addBuffers (library : Library α N) (compression : Option BodyCompression) (body : Bytes)
    (limit : DecodeLimit) : List BufferSpec → Nat → Except DecodeErrorKind Nat
  | [], decodedBytes => .ok decodedBytes
  | buffer :: buffers, decodedBytes => do
    let length ← decodedLength library compression body limit buffer
    match checkedAddSize decodedBytes length with
    | none => throw .decodedPayloadLimit
    | some decodedBytes =>
      if limit.1 < decodedBytes then throw .decodedPayloadLimit
      else addBuffers library compression body limit buffers decodedBytes

def validateNativeBuffers (library : Library α N) (batch : RecordBatchHeader N) (body : Bytes)
    (limit : DecodeLimit) : Except DecodeErrorKind Nat :=
  match batch.buffers with
  | none => .error .invalidRecordBatch
  | some buffers => addBuffers library batch.compression body limit buffers 0

/-- The reader of Arrow IPC that `from_response` and `decode` use. -/
def Library.reader (library : Library α N) : Reader α (RecordBatchHeader N) where
  sessionSchema := library.sessionSchema
  sameSchema := library.sameSchema
  decompressRawLz4 := decompressRawLz4 library
  parseEncapsulated := parseEncapsulated library
  validateNativeBuffers metadata body limit :=
    validateNativeBuffers library metadata.rest body limit
  readRecordBatch body metadata schema := library.readRecordBatch body metadata.rest schema
  allocated := library.allocated
  accepts := library.accepts

-- ---------------------------------------------------------------------------
-- What was checked
-- ---------------------------------------------------------------------------

theorem parseEncapsulated_ok {library : Library α N} :
    parseEncapsulated library bytes limit = .ok envelope ↔
      bytes.length ≤ limit.1 ∧ ∃ message body,
        Framing.Framed library.flatbuffers bytes message body ∧ message.envelope body = envelope := by
  constructor
  · intro h
    unfold parseEncapsulated at h
    split at h
    · rename_i parsed hparsed
      obtain ⟨hlimit, hframed⟩ := Framing.parseEncapsulated_ok.mp hparsed
      exact ⟨hlimit, _, _, hframed, Except.ok.inj h⟩
    · cases h
    · cases h
    · rename_i hstop
      exact ((Framing.parseEncapsulated_ensures library.flatbuffers bytes limit).error hstop).elim
  · rintro ⟨hlimit, message, body, hframed, rfl⟩
    have hparsed : Framing.parseEncapsulated library.flatbuffers bytes limit = .ok ⟨message, body⟩ :=
      Framing.parseEncapsulated_ok.mpr ⟨hlimit, hframed⟩
    unfold parseEncapsulated
    split
    · rename_i parsed h
      obtain rfl := Except.ok.inj (hparsed.symm.trans h)
      rfl
    all_goals
      rename_i h
      cases hparsed.symm.trans h

theorem decompressRawLz4_length {library : Library α N}
    (h : decompressRawLz4 library input length limit = .ok output) : output.length = length := by
  unfold decompressRawLz4 at h
  split at h
  · cases h
  split at h
  · cases h
  split at h
  · cases h
  · rename_i hlength
    obtain rfl := Except.ok.inj h
    exact not_not.mp hlength

theorem addBuffers_ok {library : Library α N} {buffers : List BufferSpec}
    (h : addBuffers library compression body limit buffers start = .ok total) :
    ∃ lengths, List.Forall₂
        (fun buffer length => decodedLength library compression body limit buffer = .ok length)
        buffers lengths ∧ total = start + lengths.foldr (· + ·) 0 := by
  induction buffers generalizing start with
  | nil => exact ⟨[], .nil, (Except.ok.inj h).symm⟩
  | cons buffer buffers ih =>
    obtain ⟨length, hlength, h⟩ := Lists.bind_eq_ok.mp h
    split at h
    · cases h
    · rename_i sum hsum
      split at h
      · cases h
      · obtain ⟨lengths, hlengths, rfl⟩ := ih h
        unfold checkedAddSize at hsum
        split at hsum
        · obtain rfl := Option.some.inj hsum
          exact ⟨length :: lengths, .cons hlength hlengths, Nat.add_assoc ..⟩
        · cases hsum

end SilkChiffon.BigQuery
