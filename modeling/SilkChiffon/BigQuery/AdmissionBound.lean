import Mathlib.Algebra.GroupWithZero.Nat
import Mathlib.Algebra.Order.BigOperators.Group.List
import Mathlib.Algebra.Order.Group.Nat
import SilkChiffon.BigQuery.Decoding

/-!
# The bound that decoding is admitted by

Before a response is decoded memory is reserved for its serialized bytes and
for what one of the two layers of compression declares. What Arrow then holds
is the message itself, once, where an array is a slice of it, and what had to
be decompressed or copied.
-/

namespace SilkChiffon.BigQuery

open Arrow

variable {α N : Type}

-- ---------------------------------------------------------------------------
-- What Arrow holds
-- ---------------------------------------------------------------------------

/-- A buffer of the message that an array needs. It is aligned when it lies in
memory as the array's type asks for. -/
structure BufferUse where
  buffer : BufferSpec
  aligned : Bool

inductive Held
  | slice
  | copied (bytes : Nat)
  | decompressed (bytes : Nat)
  deriving DecidableEq

/-- Bytes in the message are held in place when they are aligned. -/
def BufferUse.inPlace (use : BufferUse) (bytes : Nat) : Held :=
  if use.aligned then .slice else .copied bytes

/-- Compressed bytes are decompressed to their declared length, unless there are
none or they are marked as not compressed. -/
def BufferUse.held (compression : Option BodyCompression) (body : Bytes) (use : BufferUse) :
    Held :=
  let encoded := use.buffer.encoded body
  match compression with
  | none => use.inPlace encoded.length
  | some _ =>
    if encoded = [] then use.inPlace 0
    else
      let declared := intFromLe (encoded.take 8)
      if declared = -1 then use.inPlace (encoded.length - 8) else .decompressed declared.toNat

def roundUptoMultipleOf64 (bytes : Nat) : Nat := (bytes + 63) / 64 * 64

def Held.bytes : Held → Nat
  | .slice => 0
  | .copied bytes => roundUptoMultipleOf64 bytes
  | .decompressed bytes => bytes

def extraBytes (held : List Held) : Nat := (held.map Held.bytes).sum

/-- A message that an array is a slice of is counted once. -/
def heldMemory (message : Bytes) (held : List Held) : Nat :=
  (if .slice ∈ held then message.length else 0) + extraBytes held

def BufferSpec.declaredLength (body : Bytes) (buffer : BufferSpec) : Nat :=
  let encoded := buffer.encoded body
  if encoded = [] then 0
  else
    let declared := intFromLe (encoded.take 8)
    if declared = -1 then encoded.length - 8 else declared.toNat

def RecordBatchHeader.declaredBytes (header : RecordBatchHeader N) (body : Bytes) : Nat :=
  ((header.buffers.getD []).map (BufferSpec.declaredLength body)).sum

/-- What is known of the batch Arrow reads from a message: its arrays take some
of the buffers, in order, and the memory pool accounts for what they hold. -/
structure ReadsBuffers (library : Library α N) (canonical : Schema) (ipc body : Bytes)
    (header : RecordBatchHeader N) (uses : List BufferUse) : Prop where
  buffers : (uses.map BufferUse.buffer).Sublist (header.buffers.getD [])
  allocated : ∀ batch, library.readRecordBatch body header canonical = some batch →
    library.allocated batch = heldMemory ipc (uses.map (BufferUse.held header.compression body))

namespace SerializedRows

def ipc (library : Library α N) (rows : SerializedRows) (limit : DecodeLimit) :
    Except DecodeErrorKind Bytes :=
  match rows.declaredUncompressed with
  | some length => decompressRawLz4 library rows.payload length limit
  | none => .ok rows.payload

structure Decodes (library : Library α N) (rows : SerializedRows) (limit : DecodeLimit)
    (ipc body : Bytes) (header : RecordBatchHeader N) : Prop where
  message : rows.ipc library limit = .ok ipc
  within : ipc.length ≤ limit.1
  framed : ∃ message, Framing.Framed library.flatbuffers ipc message body ∧
    message.headerAsRecordBatch = some header

/-- Where nothing is compressed, nothing is copied as long as a slice is held.
Where the buffers are compressed, what is decompressed and copied is no more
than they all declare, and where the whole response is, no more than the
payload. The message is one more allowance where no slice of it is held. -/
def Covered (rows : SerializedRows) (header : RecordBatchHeader N) (body : Bytes) (held : List Held) :
    Prop :=
  match rows.declaredUncompressed, header.compression with
  | none, none =>
    if .slice ∈ held then extraBytes held = 0 else extraBytes held ≤ rows.payload.length
  | none, some _ =>
    extraBytes held ≤ header.declaredBytes body + if .slice ∈ held then 0 else rows.payload.length
  | some declared, _ =>
    extraBytes held ≤ rows.payload.length + if .slice ∈ held then 0 else declared

variable {library : Library α N} {rows : SerializedRows} {limit : DecodeLimit}
  {canonical : Schema} {ipc body : Bytes}

theorem decode_eq : rows.decode library.reader canonical limit =
    rows.ipc library limit >>= fun ipc =>
      decodeIpc library.reader ipc rows.responseRowCount canonical limit := by
  unfold decode SerializedRows.ipc
  cases rows.declaredUncompressed <;> rfl

theorem Decodes.envelope (h : rows.Decodes library limit ipc body header) :
    ∃ headerType, parseEncapsulated library ipc limit =
      .ok ⟨headerType, some ⟨header.compression.isSome, header⟩, body⟩ := by
  obtain ⟨message, hframed, hheader⟩ := h.framed
  refine ⟨message.headerType, parseEncapsulated_ok.mpr ⟨h.within, message, body, hframed, ?_⟩⟩
  rw [Message.envelope, hheader]
  rfl

theorem decode_ok (h : rows.decode library.reader canonical limit = .ok decoded) :
    ∃ ipc body header, rows.Decodes library limit ipc body header ∧
      (∃ total, validateNativeBuffers library header body limit = .ok total) ∧
      ∃ batch, library.readRecordBatch body header canonical = some batch ∧
        decoded.arrowBufferMemory = library.allocated batch := by
  rw [decode_eq] at h
  obtain ⟨ipc, hipc, h⟩ := Lists.bind_eq_ok.mp h
  obtain ⟨envelope, henvelope, h⟩ := Lists.bind_eq_ok.mp h
  obtain ⟨hwithin, message, body, hframed, rfl⟩ := parseEncapsulated_ok.mp henvelope
  simp only [Message.envelope] at h
  cases hheaderType : message.headerType with
  | dictionaryBatch =>
    rw [hheaderType] at h
    cases h
  | other =>
    rw [hheaderType] at h
    cases h
  | recordBatch =>
    rw [hheaderType] at h
    cases hheader : message.headerAsRecordBatch with
    | none =>
      rw [hheader] at h
      cases h
    | some header =>
      rw [hheader] at h
      obtain ⟨total, htotal, h⟩ := Lists.bind_eq_ok.mp h
      split at h
      · cases h
      · rename_i batch hbatch
        split at h
        · cases h
        split at h
        · split at h
          · cases h
          · obtain rfl := Except.ok.inj h
            exact ⟨ipc, body, header, ⟨hipc, hwithin, message, hframed, hheader⟩,
              ⟨total, htotal⟩, batch, hbatch, rfl⟩
        · cases h

/-- The bound adds what the outer layer of compression declares to the payload,
or else what the inner one does. -/
theorem memoryUpperBound_ok (h : rows.memoryUpperBound library.reader limit = .ok bound)
    (hdecodes : rows.Decodes library limit ipc body header)
    (htotal : validateNativeBuffers library header body limit = .ok total) :
    bound = rows.payload.length +
      match rows.declaredUncompressed, header.compression with
      | some declared, _ => declared
      | none, some _ => total
      | none, none => 0 := by
  obtain ⟨headerType, henvelope⟩ := hdecodes.envelope
  have hipc := hdecodes.message
  have hadd : ∀ additional, (if rows.payload.length + additional < 18446744073709551616 then
      (pure (rows.payload.length + additional) : Except DecodeErrorKind Nat)
      else throw .decodedPayloadLimit) = .ok bound → bound = rows.payload.length + additional := by
    intro additional h
    split at h
    · exact (Except.ok.inj h).symm
    · cases h
  unfold memoryUpperBound at h
  unfold SerializedRows.ipc at hipc
  cases hdeclared : rows.declaredUncompressed with
  | some declared =>
    rw [hdeclared] at h
    exact hadd declared h
  | none =>
    rw [hdeclared] at h hipc
    obtain rfl := Except.ok.inj hipc
    obtain ⟨envelope', henvelope', h⟩ := Lists.bind_eq_ok.mp h
    obtain rfl := Except.ok.inj (henvelope.symm.trans henvelope')
    cases hcompression : header.compression with
    | none =>
      rw [hcompression] at h
      exact hadd 0 h
    | some compression =>
      rw [hcompression] at h
      obtain ⟨total', htotal', h⟩ := Lists.bind_eq_ok.mp h
      obtain rfl := Except.ok.inj (htotal.symm.trans htotal')
      exact hadd total h

end SerializedRows

-- ---------------------------------------------------------------------------
-- What is held against what is declared
-- ---------------------------------------------------------------------------

variable {library : Library α N} {rows : SerializedRows} {limit : DecodeLimit}
  {canonical : Schema} {ipc body : Bytes} {header : RecordBatchHeader N}

/-- The check of a compressed buffer takes the buffer's word. -/
theorem decodedLength_ok
    (h : decodedLength library (some method) body limit buffer = .ok length) :
    length = buffer.declaredLength body := by
  unfold decodedLength at h
  split at h
  · cases h
  split at h
  · cases h
  split at h
  · cases h
  simp only at h
  split at h
  · cases h
  unfold validateNativeBuffer at h
  unfold BufferSpec.declaredLength
  split at h
  · rename_i hempty
    rw [if_pos hempty]
    exact (Except.ok.inj h).symm
  rename_i hempty
  rw [if_neg hempty]
  split at h
  · cases h
  simp only at h ⊢
  split at h
  · rename_i hplain
    rw [if_pos hplain]
    exact (Except.ok.inj h).symm
  rename_i hplain
  rw [if_neg hplain]
  split at h
  · cases h
  split at h
  · cases h
  split at h
  · obtain ⟨_, _, h⟩ := Lists.bind_eq_ok.mp h
    exact (Except.ok.inj h).symm
  · exact (Except.ok.inj h).symm
  · cases h

theorem validateNativeBuffers_ok
    (h : validateNativeBuffers library header body limit = .ok total)
    (hcompression : header.compression = some method) : total = header.declaredBytes body := by
  unfold validateNativeBuffers at h
  unfold RecordBatchHeader.declaredBytes
  split at h
  · cases h
  · rename_i buffers hbuffers
    obtain ⟨lengths, hlengths, rfl⟩ := addBuffers_ok h
    rw [hbuffers, Nat.zero_add, Option.getD_some]
    rw [hcompression] at hlengths
    clear hbuffers h
    induction hlengths with
    | nil => rfl
    | cons hlength _ ih => rw [List.map_cons, List.sum_cons, List.foldr_cons, ih, decodedLength_ok hlength]

/-- A buffer that is decompressed holds what it declares, and one in place
nothing, unless it has to be copied. -/
theorem BufferUse.held_bytes_le (use : BufferUse)
    (h : ∀ bytes, use.held (some method) body = .copied bytes → bytes = 0) :
    (use.held (some method) body).bytes ≤ use.buffer.declaredLength body := by
  have hplace : ∀ bytes, (∀ copied, use.inPlace bytes = .copied copied → copied = 0) →
      (use.inPlace bytes).bytes = 0 := by
    intro bytes hcopied
    unfold BufferUse.inPlace at hcopied ⊢
    split
    · rfl
    · rename_i haligned
      rw [if_neg haligned] at hcopied
      rw [hcopied bytes rfl]
      rfl
  unfold BufferUse.held BufferSpec.declaredLength at *
  simp only at h ⊢
  split
  · rename_i hempty
    rw [if_pos hempty] at h
    exact Nat.le_of_eq (hplace 0 h)
  · rename_i hempty
    rw [if_neg hempty] at h
    split
    · rename_i hplain
      rw [if_pos hplain] at h
      rw [hplace _ h]
      exact Nat.zero_le _
    · exact Nat.le_refl _

theorem covered_of_uncopied {uses : List BufferUse} (hrows : rows.declaredUncompressed = none)
    (hcompression : header.compression = some method)
    (huses : (uses.map BufferUse.buffer).Sublist (header.buffers.getD []))
    (hcopied : ∀ use ∈ uses, ∀ bytes, use.held (some method) body = .copied bytes → bytes = 0) :
    rows.Covered header body (uses.map (BufferUse.held header.compression body)) := by
  have hextra : extraBytes (uses.map (BufferUse.held (some method) body)) ≤ header.declaredBytes body := by
    refine Nat.le_trans ?_ ((huses.map (BufferSpec.declaredLength body)).sum_le_sum fun _ _ => Nat.zero_le _)
    rw [extraBytes, List.map_map, List.map_map]
    exact List.sum_le_sum fun use hmem => use.held_bytes_le (hcopied use hmem)
  rw [SerializedRows.Covered, hrows, hcompression]
  exact Nat.le_trans hextra (Nat.le_add_right ..)

/-- For every response the decoded batch stays within the bound exactly when
what has to be decompressed or copied is covered. -/
theorem admission_bound_iff (library : Library α N) (canonical : Schema) (limit : DecodeLimit) :
    ∀ response codec rows bound decoded,
      fromResponse library.reader response canonical codec limit = .ok (some rows) →
      rows.memoryUpperBound library.reader limit = .ok bound →
      rows.decode library.reader canonical limit = .ok decoded →
      ∃ ipc body header, rows.Decodes library limit ipc body header ∧
        ∀ uses, ReadsBuffers library canonical ipc body header uses →
          (decoded.arrowBufferMemory ≤ bound ↔
            rows.Covered header body (uses.map (BufferUse.held header.compression body))) := by
  intro _ _ rows bound decoded _ hbound hdecode
  obtain ⟨ipc, body, header, hdecodes, ⟨total, htotal⟩, batch, hbatch, hmemory⟩ :=
    SerializedRows.decode_ok hdecode
  refine ⟨ipc, body, header, hdecodes, fun uses hreads => ?_⟩
  have hbound := SerializedRows.memoryUpperBound_ok hbound hdecodes htotal
  have hipc := hdecodes.message
  rw [hmemory, hreads.allocated batch hbatch, heldMemory, hbound]
  generalize uses.map (BufferUse.held header.compression body) = held
  unfold SerializedRows.ipc at hipc
  unfold SerializedRows.Covered
  cases hdeclared : rows.declaredUncompressed with
  | some declared =>
    rw [hdeclared] at hipc
    have hlength := decompressRawLz4_length hipc
    simp only
    split <;> omega
  | none =>
    rw [hdeclared] at hipc
    obtain rfl := Except.ok.inj hipc
    cases hcompression : header.compression with
    | none =>
      simp only
      split <;> omega
    | some method =>
      obtain rfl := validateNativeBuffers_ok htotal hcompression
      simp only
      split <;> omega

-- ---------------------------------------------------------------------------
-- A decimal that is copied
-- ---------------------------------------------------------------------------

/-- One row of a decimal and an integer, with a body that starts at byte 184. -/
def decimalMessage : Bytes :=
  [255, 255, 255, 255, 176, 0, 0, 0, 16, 0, 0, 0, 12, 0, 20, 0, 16, 0, 18, 0, 4, 0, 8, 0, 12, 0,
    0, 0, 28, 0, 0, 0, 24, 0, 0, 0, 0, 0, 0, 0, 4, 0, 3, 0, 10, 0, 20, 0, 8, 0, 4, 0,
    16, 0, 0, 0, 12, 0, 0, 0, 16, 0, 0, 0, 1, 0, 0, 0, 0, 0, 0, 0, 44, 0, 0, 0, 2, 0,
    0, 0, 1, 0, 0, 0, 0, 0, 0, 0, 0, 0, 0, 0, 0, 0, 0, 0, 1, 0, 0, 0, 0, 0, 0, 0,
    0, 0, 0, 0, 0, 0, 0, 0, 0, 0, 0, 0, 4, 0, 0, 0, 0, 0, 0, 0, 0, 0, 0, 0, 0, 0,
    0, 0, 0, 0, 0, 0, 0, 0, 0, 0, 0, 0, 0, 0, 16, 0, 0, 0, 0, 0, 0, 0, 16, 0, 0, 0,
    0, 0, 0, 0, 0, 0, 0, 0, 0, 0, 0, 0, 16, 0, 0, 0, 0, 0, 0, 0, 8, 0, 0, 0, 0, 0,
    0, 0, 1, 0, 0, 0, 0, 0, 0, 0, 0, 0, 0, 0, 0, 0, 0, 0, 7, 0, 0, 0, 0, 0, 0, 0]

def decimalHeader : RecordBatchHeader Unit :=
  ⟨some [⟨0, 0⟩, ⟨0, 16⟩, ⟨16, 0⟩, ⟨16, 8⟩], none, ()⟩

def decimalSchema : Schema := [.mk "amount" (.decimal128 38 9) false, .mk "id" .int64 false]

theorem decimal_width : ∀ row ∈ ([[some 1, some 7]] : List (Row Nat)),
    row.length = decimalSchema.length := by decide

/-- A decimal has to lie at a multiple of 16 bytes, an integer of 8. -/
def decimalUses : List BufferUse := [⟨⟨0, 16⟩, false⟩, ⟨⟨16, 8⟩, true⟩]

def decimalFlatbuffers : Framing.Flatbuffers Unit where
  rootAsMessage metadata :=
    if metadata = (decimalMessage.take 184).drop 8 then some ⟨.v5, .recordBatch, some decimalHeader, 24⟩ else none
  bodyLength_lt h := by
    split at h
    · obtain rfl := Option.some.inj h
      decide
    · cases h

def decimalLibrary : Library Nat Unit where
  sessionSchema _ _ := .ok decimalSchema
  sameSchema _ _ := true
  flatbuffers := decimalFlatbuffers
  lz4Block _ _ := none
  lz4Frame _ _ := none
  readRecordBatch _ _ _ := some ⟨decimalSchema, [[some 1, some 7]], decimal_width⟩
  allocated _ := heldMemory decimalMessage [.copied 16, .slice]
  accepts _ _ := true

def decimalLimit : DecodeLimit := ⟨1024, Nat.zero_lt_succ 1023⟩

set_option maxRecDepth 4000 in
/-- The integers are a slice of the message, the decimals are copied. -/
theorem admission_bound_breaks :
    ∃ rows decoded,
      fromResponse decimalLibrary.reader
        ⟨1, some (.arrowRecordBatch decimalMessage 0), none, none⟩ decimalSchema .none
        decimalLimit = .ok (some rows) ∧
      rows.memoryUpperBound decimalLibrary.reader decimalLimit = .ok 208 ∧
      rows.decode decimalLibrary.reader decimalSchema decimalLimit = .ok decoded ∧
      decoded.arrowBufferMemory = 272 ∧
      ReadsBuffers decimalLibrary decimalSchema decimalMessage (decimalMessage.drop 184)
        decimalHeader decimalUses := by
  exact ⟨⟨decimalMessage, 1, none⟩, _, rfl, rfl, rfl, rfl, ⟨by decide, fun _ _ => rfl⟩⟩

set_option maxRecDepth 4000 in
theorem admission_bound_iff_decimal : ∃ (rows : SerializedRows) (decoded : DecodedBatch Nat),
    rows.decode decimalLibrary.reader decimalSchema decimalLimit = .ok decoded ∧
    ∃ ipc body header, rows.Decodes decimalLibrary decimalLimit ipc body header ∧
      ∀ uses, ReadsBuffers decimalLibrary decimalSchema ipc body header uses →
        (decoded.arrowBufferMemory ≤ 208 ↔
          rows.Covered header body (uses.map (BufferUse.held header.compression body))) :=
  ⟨⟨decimalMessage, 1, none⟩, _, rfl, admission_bound_iff decimalLibrary decimalSchema decimalLimit
    ⟨1, some (.arrowRecordBatch decimalMessage 0), none, none⟩ .none _ 208 _ rfl rfl rfl⟩

end SilkChiffon.BigQuery
