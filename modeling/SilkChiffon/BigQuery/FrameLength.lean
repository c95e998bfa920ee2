import SilkChiffon.BigQuery.ArrowIpc

/-!
# The length of an LZ4 frame

A frame is read once, into a scratch buffer, before Arrow decodes it: it has to
yield as many bytes as its prefix declares. The pass stops one byte behind
them, however much the frame would yield.
-/

namespace SilkChiffon.BigQuery

def scratchLength : Nat := 64 * 1024

inductive Left
  | ends (bytes : Bytes)
  | fails (bytes : Bytes)  -- an error somewhere behind some of them
  | endless

def Left.after (chunk : Bytes) : Left → Left
  | ends bytes => ends (chunk ++ bytes)
  | fails bytes => fails (chunk ++ bytes)
  | endless => endless

/-- A decoder in the state `σ` fills a part of a buffer of some length with the
bytes that come next. A chunk may be shorter than the buffer; it is empty only
at the end or for an empty buffer. -/
structure FrameDecoder (σ : Type) where
  new : Bytes → σ
  read : σ → Nat → Except Unit (Bytes × σ)
  left : σ → Left
  read_fits : read s length = .ok (chunk, s') → chunk.length ≤ length
  read_left : read s length = .ok (chunk, s') → left s = (left s').after chunk
  read_end : read s length = .ok ([], s') → 0 < length → left s = .ends []
  read_error : read s length = .error e → ∃ bytes, left s = .fails bytes

/-- Where the loop stops: the bytes it was given, whether a read failed, and
the decoder. -/
structure FrameScan (σ : Type) where
  outputBytes : Nat
  failed : Bool
  decoder : σ

variable {σ : Type}

/-- The `while` of `validate_lz4_frame`. -/
def FrameDecoder.scan (frame : FrameDecoder σ) (cap outputBytes : Nat) (s : σ) : FrameScan σ :=
  if outputBytes < cap then
    match _h : frame.read s (min (cap - outputBytes) scratchLength) with
    | .error _ => ⟨outputBytes, true, s⟩
    | .ok (chunk, s') =>
      if chunk = [] then ⟨outputBytes, false, s'⟩
      else frame.scan cap (outputBytes + chunk.length) s'
  else ⟨outputBytes, false, s⟩
termination_by cap - outputBytes
decreasing_by
  have hpos : 0 < chunk.length := List.length_pos_iff.mpr ‹_›
  omega

def FrameDecoder.validate (frame : FrameDecoder σ) (input : Bytes) (declared : Nat) : Except DecodeErrorKind Unit :=
  match checkedAddSize declared 1 with
  | none => .error .decodedPayloadLimit
  | some cap =>
    let scan := frame.scan cap 0 (frame.new input)
    if scan.failed then .error .nativeCompression
    else if scan.outputBytes ≠ declared then .error .nativeCompression
    else .ok ()

theorem Left.after_ends {left : Left} :
    left.after chunk = .ends bytes ↔ ∃ rest, left = .ends rest ∧ bytes = chunk ++ rest := by
  cases left <;> simp [after, eq_comm]

theorem Left.after_nil (left : Left) : left.after [] = left := by
  cases left <;> rfl

theorem Left.after_append {left : Left} : (left.after consumed).after chunk = left.after (chunk ++ consumed) := by
  cases left <;> simp [after]

namespace FrameDecoder

/-- The bytes of the loop are the first ones that were left, and no more than
are wanted. -/
theorem scan_consumed (frame : FrameDecoder σ) (hle : outputBytes ≤ cap) :
    ∃ consumed, frame.left s = (frame.left (frame.scan cap outputBytes s).decoder).after consumed ∧
      (frame.scan cap outputBytes s).outputBytes = outputBytes + consumed.length ∧
      outputBytes + consumed.length ≤ cap := by
  fun_induction frame.scan cap outputBytes s with
  | case1 outputBytes s hlt e hread => exact ⟨[], (Left.after_nil _).symm, rfl, hle⟩
  | case2 outputBytes s hlt s' hread =>
    exact ⟨[], frame.read_left hread, rfl, hle⟩
  | case3 outputBytes s hlt chunk s' hread hne ih =>
    have hfits := frame.read_fits hread
    obtain ⟨consumed, hleft, hcount, hcap⟩ := ih (by omega)
    refine ⟨chunk ++ consumed, ?_, ?_, ?_⟩
    · rw [frame.read_left hread, hleft, Left.after_append]
    · rw [hcount, List.length_append, Nat.add_assoc]
    · rw [List.length_append, ← Nat.add_assoc]
      exact hcap
  | case4 outputBytes s hge => exact ⟨[], (Left.after_nil _).symm, rfl, hle⟩

theorem scan_eq_iff (frame : FrameDecoder σ) (hk : k < cap) (hle : outputBytes ≤ cap) :
    (frame.scan cap outputBytes s).failed = false ∧ (frame.scan cap outputBytes s).outputBytes = k ↔
      ∃ bytes, frame.left s = .ends bytes ∧ outputBytes + bytes.length = k := by
  fun_induction frame.scan cap outputBytes s with
  | case1 outputBytes s hlt e hread =>
    obtain ⟨bytes, hleft⟩ := frame.read_error hread
    simp [hleft]
  | case2 outputBytes s hlt s' hread =>
    have hroom : 0 < min (cap - outputBytes) scratchLength := by
      unfold scratchLength
      omega
    have hleft := frame.read_end hread hroom
    simp [hleft]
  | case3 outputBytes s hlt chunk s' hread hne ih =>
    have hfits := frame.read_fits hread
    rw [ih (by omega), frame.read_left hread]
    simp only [Left.after_ends]
    constructor
    · rintro ⟨bytes, hleft, hcount⟩
      exact ⟨chunk ++ bytes, ⟨bytes, hleft, rfl⟩, by rw [List.length_append, ← Nat.add_assoc, hcount]⟩
    · rintro ⟨_, ⟨bytes, hleft, rfl⟩, hcount⟩
      exact ⟨bytes, hleft, by rw [← hcount, List.length_append, Nat.add_assoc]⟩
  | case4 outputBytes s hge =>
    constructor
    · rintro ⟨-, hcount⟩
      dsimp only at hcount
      omega
    · rintro ⟨bytes, -, rfl⟩
      omega

/-- A frame passes exactly when it yields the declared number of bytes, and
the pass is over one byte behind them at the latest. -/
theorem validate_exact (frame : FrameDecoder σ) (input : Bytes) (declared : Nat) (hdeclared : declared < 9223372036854775808) :
    (frame.validate input declared = .ok () ↔
      ∃ bytes, frame.left (frame.new input) = .ends bytes ∧ bytes.length = declared) ∧
    ∃ consumed, frame.left (frame.new input) =
        (frame.left (frame.scan (declared + 1) 0 (frame.new input)).decoder).after consumed ∧
      (frame.scan (declared + 1) 0 (frame.new input)).outputBytes = consumed.length ∧
      consumed.length ≤ declared + 1 := by
  have hcap : checkedAddSize declared 1 = some (declared + 1) := if_pos (by omega)
  constructor
  · have hcount := frame.scan_eq_iff (s := frame.new input) (Nat.lt_succ_self declared) (Nat.zero_le _)
    simp only [Nat.zero_add] at hcount
    rw [← hcount, validate, hcap]
    dsimp only
    split
    · simp [*]
    · split <;> simp_all
  · simpa using frame.scan_consumed (s := frame.new input) (Nat.zero_le (declared + 1))

/-- Any bytes in chunks of any sizes, and as they fit behind the last size. -/
def chunked (expand : Bytes → Bytes) (sizes : List Nat) : FrameDecoder (Bytes × List Nat) where
  new input := (expand input, sizes)
  read s length :=
    let size := min length (max 1 (s.2.headD length))
    .ok (s.1.take size, s.1.drop size, s.2.tail)
  left s := .ends s.1
  read_fits h := by
    obtain ⟨rfl, -⟩ := Prod.mk.inj (Except.ok.inj h)
    rw [List.length_take]
    omega
  read_left h := by
    obtain ⟨rfl, rfl⟩ := Prod.mk.inj (Except.ok.inj h)
    rw [Left.after, List.take_append_drop]
  read_end h hlength := by
    obtain ⟨htake, -⟩ := Prod.mk.inj (Except.ok.inj h)
    rcases List.take_eq_nil_iff.mp htake with hsize | hbytes
    · omega
    · rw [hbytes]
  read_error h := by cases h

/-- A frame with the three bytes `abc` in one stored block. -/
def storedFrame : Bytes :=
  [0x04, 0x22, 0x4d, 0x18, 0x60, 0x40, 0x82, 0x03, 0x00, 0x00, 0x80, 0x61, 0x62, 0x63, 0x00, 0x00, 0x00, 0x00]

/-- Read in two chunks, it passes for three bytes. -/
theorem validate_storedFrame :
    (chunked (fun input => if input = storedFrame then [0x61, 0x62, 0x63] else []) [1, 2]).validate storedFrame 3 =
      .ok () :=
  (validate_exact _ storedFrame 3 (by decide)).1.mpr ⟨_, rfl, rfl⟩

end FrameDecoder

end SilkChiffon.BigQuery
