import SilkChiffon.BigQuery.Payload

/-!
# Arrow IPC messages

The numbers in a serialized message, and what Flatbuffers finds in its metadata.
-/

namespace SilkChiffon.BigQuery

-- ---------------------------------------------------------------------------
-- Numbers
-- ---------------------------------------------------------------------------

def natFromLe : Bytes → Nat
  | [] => 0
  | b :: bs => b.toNat + 256 * natFromLe bs

/-- `from_le_bytes` of a signed number as wide as the bytes. -/
def intFromLe (bs : Bytes) : Int :=
  let n := natFromLe bs
  if 2 * n < 256 ^ bs.length then n else n - 256 ^ bs.length

def checkedAddSize (a b : Nat) : Option Nat :=
  if a + b < 18446744073709551616 then some (a + b) else none

-- ---------------------------------------------------------------------------
-- Messages
-- ---------------------------------------------------------------------------

structure BufferSpec where
  offset : Int
  length : Int
  deriving DecidableEq

inductive BodyCompressionMethod
  | buffer | other
  deriving DecidableEq

inductive CompressionType
  | lz4Frame | zstd | other
  deriving DecidableEq

structure BodyCompression where
  codec : CompressionType
  method : BodyCompressionMethod
  deriving DecidableEq

/-- A record batch's metadata; `nodes` is what only Arrow reads. -/
structure RecordBatchHeader (N : Type) where
  buffers : Option (List BufferSpec)
  compression : Option BodyCompression
  nodes : N

inductive MetadataVersion
  | v1 | v2 | v3 | v4 | v5 | unknown
  deriving DecidableEq

structure Message (N : Type) where
  version : MetadataVersion
  headerType : MessageHeader
  headerAsRecordBatch : Option (RecordBatchHeader N)
  bodyLength : Int

def continuationMarker : Bytes := [0xff, 0xff, 0xff, 0xff]

end SilkChiffon.BigQuery
