import SilkChiffon.BigQuery.ArrowIpc
import SilkChiffon.Lib.Fallible

/-!
# Encapsulated IPC messages

The framing around one message: an optional marker, the length of the
metadata, the metadata, the body. Every length is the sender's word, so the
slices and sums are written with the ways in which they can go wrong.
-/

namespace SilkChiffon.BigQuery.Framing

open Fallible (Ensures ensures_pure ensures_throw)

/-- How a parse ends without a message. The caller sees the kind also of a
checked addition without a sum; an index out of bounds ends the program. -/
inductive Stop
  | refused (kind : DecodeErrorKind)
  | overflowed (kind : DecodeErrorKind)
  | outOfBounds
  deriving DecidableEq

def Stop.Refusal : Stop → Prop
  | .refused _ => True
  | .overflowed _ => False
  | .outOfBounds => False

/-- The verifier, which gives 64 bit body lengths. -/
structure Flatbuffers (N : Type) where
  rootAsMessage : Bytes → Option (Message N)
  bodyLength_lt : rootAsMessage metadata = some message → message.bodyLength < 9223372036854775808

structure EncapsulatedBytes (N : Type) where
  message : Message N
  body : Bytes

variable {N : Type}

def slice (bytes : Bytes) (start stop : Nat) : Except Stop Bytes :=
  if start ≤ stop ∧ stop ≤ bytes.length then .ok ((bytes.take stop).drop start) else .error .outOfBounds

def checkedAdd (a b : Nat) : Except Stop Nat :=
  match checkedAddSize a b with
  | some sum => .ok sum
  | none => .error (.overflowed .invalidIpcFraming)

def i32FromLe (bytes : Bytes) : Except Stop Int :=
  if bytes.length = 4 then .ok (intFromLe bytes) else .error (.refused .invalidIpcFraming)

def usizeTryFrom (value : Int) : Except Stop Nat :=
  if 0 ≤ value then .ok value.toNat else .error (.refused .invalidIpcFraming)

def lengthPrefix (bytes : Bytes) : Except Stop (Nat × Bytes) := do
  let first ← slice bytes 0 4
  if first = continuationMarker then
    if bytes.length < 8 then
      throw (.refused .invalidIpcFraming)
    let lengthBytes ← slice bytes 4 8
    pure (8, lengthBytes)
  else
    pure (4, first)

def metadataEnd (bytes : Bytes) (prefixLength : Nat) (lengthBytes : Bytes) : Except Stop Nat := do
  let signed ← i32FromLe lengthBytes
  let metadataLength ← usizeTryFrom signed
  if metadataLength = 0 then
    throw (.refused .invalidIpcFraming)
  let stop ← checkedAdd prefixLength metadataLength
  if bytes.length < stop ∨ stop % 8 ≠ 0 then
    throw (.refused .invalidIpcFraming)
  pure stop

def parseMessage (flatbuffers : Flatbuffers N) (bytes : Bytes) (prefixLength metadataEnd : Nat) :
    Except Stop (EncapsulatedBytes N) := do
  let metadata ← slice bytes prefixLength metadataEnd
  match flatbuffers.rootAsMessage metadata with
  | none => throw (.refused .invalidFlatbuffer)
  | some message =>
    if ¬ (message.version = .v4 ∨ message.version = .v5) then
      throw (.refused .invalidFlatbuffer)
    let bodyLength ← usizeTryFrom message.bodyLength
    if bodyLength % 8 ≠ 0 then
      throw (.refused .invalidIpcFraming)
    let messageEnd ← checkedAdd metadataEnd bodyLength
    if messageEnd ≠ bytes.length then
      throw (.refused .invalidIpcFraming)
    let body ← slice bytes metadataEnd messageEnd
    pure ⟨message, body⟩

def parseEncapsulated (flatbuffers : Flatbuffers N) (bytes : Bytes) (limit : DecodeLimit) :
    Except Stop (EncapsulatedBytes N) := do
  if limit.1 < bytes.length then
    throw (.refused .serializedPayloadLimit)
  if bytes.length < 4 then
    throw (.refused .invalidIpcFraming)
  let (prefixLength, lengthBytes) ← lengthPrefix bytes
  let stop ← metadataEnd bytes prefixLength lengthBytes
  parseMessage flatbuffers bytes prefixLength stop

-- ---------------------------------------------------------------------------
-- The parts of a message
-- ---------------------------------------------------------------------------

theorem slice_ok :
    slice bytes start stop = .ok part ↔
      ∃ front back, bytes = front ++ part ++ back ∧ front.length = start ∧ (front ++ part).length = stop := by
  unfold slice
  split
  · rename_i h
    rw [Except.ok.injEq]
    constructor
    · rintro rfl
      have hfront : bytes.take start = (bytes.take stop).take start := by
        rw [List.take_take, Nat.min_eq_left h.1]
      refine ⟨bytes.take start, bytes.drop stop, ?_, by simp; omega, by simp; omega⟩
      rw [hfront, List.take_append_drop, List.take_append_drop]
    · rintro ⟨front, back, rfl, rfl, rfl⟩
      rw [List.take_left, List.drop_left]
  · rename_i h
    constructor
    · rintro ⟨⟩
    · rintro ⟨front, back, rfl, rfl, rfl⟩
      exact absurd ⟨by simp, by simp⟩ h

theorem slice_ensures {E : Stop → Prop} (hle : start ≤ stop) (hin : stop ≤ bytes.length) :
    Ensures (slice bytes start stop) (fun part => part.length = stop - start) E := by
  rw [slice, if_pos ⟨hle, hin⟩]
  exact ensures_pure (by simp; omega)

theorem checkedAdd_eq (h : a + b < 18446744073709551616) : checkedAdd a b = .ok (a + b) := by
  rw [checkedAdd, checkedAddSize, if_pos h]

theorem checkedAdd_ok (h : checkedAdd a b = .ok sum) : sum = a + b := by
  unfold checkedAdd checkedAddSize at h
  split at h
  · rename_i hsum
    obtain rfl := Except.ok.inj h
    split at hsum
    · exact (Option.some.inj hsum).symm
    · cases hsum
  · cases h

theorem i32FromLe_ok : i32FromLe bytes = .ok value ↔ bytes.length = 4 ∧ intFromLe bytes = value := by
  unfold i32FromLe
  split <;> simp [*]

theorem usizeTryFrom_ok : usizeTryFrom value = .ok size ↔ value = (size : Int) := by
  unfold usizeTryFrom
  split
  · simp
    omega
  · simp
    omega

theorem natFromLe_lt (bytes : Bytes) : natFromLe bytes < 256 ^ bytes.length := by
  induction bytes with
  | nil => simp [natFromLe]
  | cons b bytes ih =>
    rw [natFromLe, List.length_cons, Nat.pow_succ]
    have hb : b.toNat < 256 := b.toNat_lt
    omega

/-- A length of four bytes is below the sign bit. -/
theorem intFromLe_lt {bytes : Bytes} (h : bytes.length = 4) : intFromLe bytes < 2147483648 := by
  have hlt := natFromLe_lt bytes
  unfold intFromLe
  rw [h] at hlt ⊢
  dsimp only
  split <;> omega

theorem intFromLe_continuationMarker : intFromLe continuationMarker = -1 := by decide

theorem lengthPrefix_ok (h : 4 ≤ bytes.length) :
    lengthPrefix bytes = .ok (prefixLength, lengthBytes) ↔
      ∃ marker rest, bytes = marker ++ lengthBytes ++ rest ∧ lengthBytes.length = 4 ∧
        prefixLength = marker.length + 4 ∧
        (marker = continuationMarker ∨ marker = [] ∧ lengthBytes ≠ continuationMarker) := by
  unfold lengthPrefix
  rw [Lists.bind_eq_ok]
  simp only [slice_ok]
  constructor
  · rintro ⟨first, ⟨front, back, rfl, hfront, hfirst⟩, hrest⟩
    obtain rfl := List.eq_nil_of_length_eq_zero hfront
    split at hrest
    · rename_i hmarker
      obtain ⟨-, hrest⟩ := Lists.ite_throw_ok.mp hrest
      obtain ⟨length, hlength, ⟨⟩⟩ := Lists.bind_eq_ok.mp hrest
      obtain ⟨front, rest, hsplit, hfront, hlength⟩ := slice_ok.mp hlength
      rw [List.length_append, hfront] at hlength
      have hsame : first = front :=
        List.append_inj_left (by simpa using hsplit) (by simpa using hfirst.trans hfront.symm)
      exact ⟨front, rest, hsplit, by omega, by omega, .inl (hsame ▸ hmarker)⟩
    · rename_i hmarker
      obtain ⟨rfl, rfl⟩ := Prod.mk.inj (Except.ok.inj hrest)
      exact ⟨[], back, rfl, hfirst, rfl, .inr ⟨rfl, hmarker⟩⟩
  · rintro ⟨marker, rest, rfl, hlength, rfl, rfl | ⟨rfl, hmarker⟩⟩
    · refine ⟨continuationMarker, ⟨[], lengthBytes ++ rest, by simp, rfl, rfl⟩, ?_⟩
      rw [if_pos rfl, Lists.ite_throw_ok, Lists.bind_eq_ok]
      refine ⟨by simp [continuationMarker]; omega, lengthBytes, slice_ok.mpr ?_, rfl⟩
      exact ⟨continuationMarker, rest, rfl, rfl, by simp [hlength, continuationMarker]⟩
    · refine ⟨lengthBytes, ⟨[], rest, rfl, rfl, hlength⟩, ?_⟩
      rw [if_neg hmarker]
      rfl

/-- The end is read off a positive length; behind the longest prefix it is
far from where sizes end. -/
theorem metadataEnd_ok (hstart : prefixLength ≤ 8) :
    metadataEnd bytes prefixLength lengthBytes = .ok stop ↔
      lengthBytes.length = 4 ∧ ∃ size : Nat, intFromLe lengthBytes = size ∧ size ≠ 0 ∧
        stop = prefixLength + size ∧ stop ≤ bytes.length ∧ stop % 8 = 0 := by
  unfold metadataEnd
  simp only [Lists.bind_eq_ok, Lists.ite_throw_ok, i32FromLe_ok, usizeTryFrom_ok]
  constructor
  · rintro ⟨_, ⟨hlength, rfl⟩, size, hsize, hpos, sum, hsum, hfits, ⟨⟩⟩
    obtain rfl := checkedAdd_ok hsum
    exact ⟨hlength, size, hsize, hpos, rfl, by omega, by omega⟩
  · rintro ⟨hlength, size, hsize, hpos, rfl, hfits, haligned⟩
    have hlt := intFromLe_lt hlength
    exact ⟨_, ⟨hlength, rfl⟩, size, hsize, hpos, _, checkedAdd_eq (by omega), by omega, rfl⟩

theorem parseMessage_ok {flatbuffers : Flatbuffers N} (hin : stop < 9223372036854775808) :
    parseMessage flatbuffers bytes prefixLength stop = .ok parsed ↔
      ∃ front metadata, bytes = front ++ metadata ++ parsed.body ∧ front.length = prefixLength ∧
        (front ++ metadata).length = stop ∧ flatbuffers.rootAsMessage metadata = some parsed.message ∧
        (parsed.message.version = .v4 ∨ parsed.message.version = .v5) ∧
        parsed.message.bodyLength = parsed.body.length ∧ parsed.body.length % 8 = 0 := by
  obtain ⟨message, body⟩ := parsed
  unfold parseMessage
  simp only [Lists.bind_eq_ok, slice_ok]
  constructor
  · rintro ⟨metadata, ⟨front, back, hbytes, hfront, hend⟩, h⟩
    cases hroot : flatbuffers.rootAsMessage metadata with
    | none =>
      rw [hroot] at h
      cases h
    | some found =>
      rw [hroot] at h
      dsimp only at h
      obtain ⟨hversion, h⟩ := Lists.ite_throw_ok.mp h
      obtain ⟨size, hsize, h⟩ := Lists.bind_eq_ok.mp h
      obtain ⟨haligned, h⟩ := Lists.ite_throw_ok.mp h
      obtain ⟨sum, hsum, h⟩ := Lists.bind_eq_ok.mp h
      obtain ⟨hwhole, h⟩ := Lists.ite_throw_ok.mp h
      obtain ⟨rest, hrest, ⟨⟩⟩ := Lists.bind_eq_ok.mp h
      obtain rfl := checkedAdd_ok hsum
      obtain ⟨front', back', hbytes', hfront', hbody⟩ := slice_ok.mp hrest
      -- nothing is behind the body
      obtain rfl : back' = [] := by
        have hlength := congrArg List.length hbytes'
        rw [List.length_append] at hlength
        exact List.eq_nil_of_length_eq_zero (by omega)
      rw [List.append_nil] at hbytes'
      obtain ⟨rfl, rfl⟩ := List.append_inj (hbytes.symm.trans hbytes') (hend.trans hfront'.symm)
      rw [List.length_append, hfront', Nat.add_left_cancel_iff] at hbody
      rw [usizeTryFrom_ok.mp hsize, hbody]
      exact ⟨front, metadata, hbytes, hfront, hend, hroot, not_not.mp hversion, rfl, not_not.mp haligned⟩
  · rintro ⟨front, metadata, hbytes, hfront, hend, hroot, hversion, hsize, haligned⟩
    have hlt := flatbuffers.bodyLength_lt hroot
    have hwhole : stop + body.length = bytes.length := by
      rw [hbytes, List.length_append, hend]
    refine ⟨metadata, ⟨front, body, hbytes, hfront, hend⟩, ?_⟩
    rw [hroot]
    dsimp only at hsize haligned hlt hversion ⊢
    refine Lists.ite_throw_ok.mpr ⟨not_not.mpr hversion, ?_⟩
    refine Lists.bind_eq_ok.mpr ⟨body.length, usizeTryFrom_ok.mpr hsize, ?_⟩
    refine Lists.ite_throw_ok.mpr ⟨not_not.mpr haligned, ?_⟩
    refine Lists.bind_eq_ok.mpr ⟨_, checkedAdd_eq (by omega), ?_⟩
    refine Lists.ite_throw_ok.mpr ⟨not_not.mpr hwhole, ?_⟩
    refine Lists.bind_eq_ok.mpr ⟨body, slice_ok.mpr ?_, rfl⟩
    exact ⟨front ++ metadata, [], by simpa using hbytes, hend, by rw [List.length_append, hend]⟩

-- ---------------------------------------------------------------------------
-- Framed messages
-- ---------------------------------------------------------------------------

structure Framed (flatbuffers : Flatbuffers N) (bytes : Bytes) (message : Message N) (body : Bytes) : Prop where
  split : ∃ marker length metadata, bytes = marker ++ length ++ metadata ++ body ∧
    (marker = [] ∨ marker = continuationMarker) ∧ length.length = 4 ∧ 0 < intFromLe length ∧
    intFromLe length = metadata.length ∧ 8 ∣ (marker ++ length ++ metadata).length ∧
    flatbuffers.rootAsMessage metadata = some message
  version : message.version = .v4 ∨ message.version = .v5
  bodyLength : message.bodyLength = body.length
  aligned : 8 ∣ body.length

/-- Exactly the framed messages within the limit are accepted. -/
theorem parseEncapsulated_ok {flatbuffers : Flatbuffers N} :
    parseEncapsulated flatbuffers bytes limit = .ok parsed ↔
      bytes.length ≤ limit.1 ∧ Framed flatbuffers bytes parsed.message parsed.body := by
  unfold parseEncapsulated
  simp only [Lists.ite_throw_ok, Lists.bind_eq_ok]
  constructor
  · rintro ⟨hlimit, hfour, ⟨prefixLength, lengthBytes⟩, hstart, stop, hstop, hmessage⟩
    obtain ⟨marker, rest, hbytes, hlength, rfl, hmarker⟩ := (lengthPrefix_ok (by omega)).mp hstart
    have hmarkers : marker = [] ∨ marker = continuationMarker := by
      rcases hmarker with h | h
      · exact .inr h
      · exact .inl h.1
    have hshort : marker.length + 4 ≤ 8 := by
      rcases hmarkers with rfl | rfl <;> decide
    obtain ⟨-, size, hsize, hpos, rfl, hfits, haligned⟩ := (metadataEnd_ok hshort).mp hstop
    have hlt := intFromLe_lt hlength
    dsimp only at hsize
    obtain ⟨front, metadata, hbytes', hfront, hend, hroot, hversion, hbody, hbodyAligned⟩ :=
      (parseMessage_ok (by omega)).mp hmessage
    obtain ⟨rfl, -⟩ : marker ++ lengthBytes = front ∧ rest = metadata ++ parsed.body := by
      rw [List.append_assoc front] at hbytes'
      exact List.append_inj (hbytes.symm.trans hbytes') (by rw [List.length_append, hlength, hfront])
    rw [List.length_append, hfront, Nat.add_left_cancel_iff] at hend
    refine ⟨by omega, ⟨marker, lengthBytes, metadata, hbytes', hmarkers, hlength, by omega, by omega, ?_, hroot⟩,
      hversion, hbody, Nat.dvd_of_mod_eq_zero hbodyAligned⟩
    rw [List.length_append, List.length_append, hlength, hend]
    exact Nat.dvd_of_mod_eq_zero haligned
  · rintro ⟨hlimit, ⟨marker, length, metadata, hbytes, hmarker, hlength, hpos, hsize, haligned, hroot⟩,
      hversion, hbody, hbodyAligned⟩
    have htotal := congrArg List.length hbytes
    simp only [List.length_append] at htotal haligned
    have hshort : marker.length + 4 ≤ 8 := by
      rcases hmarker with rfl | rfl <;> decide
    have hlt := intFromLe_lt hlength
    -- a length is never the marker, which is a negative number
    have hstart : marker = continuationMarker ∨ marker = [] ∧ length ≠ continuationMarker := by
      rcases hmarker with h | h
      · refine .inr ⟨h, fun hsame => ?_⟩
        rw [hsame, intFromLe_continuationMarker] at hpos
        omega
      · exact .inl h
    refine ⟨by omega, by omega, (marker.length + 4, length), ?_, marker.length + 4 + metadata.length, ?_, ?_⟩
    · exact (lengthPrefix_ok (by omega)).mpr
        ⟨marker, metadata ++ parsed.body, by simpa using hbytes, hlength, rfl, hstart⟩
    · refine (metadataEnd_ok hshort).mpr ⟨hlength, metadata.length, hsize, by omega, rfl, by omega, ?_⟩
      exact Nat.mod_eq_zero_of_dvd (hlength ▸ haligned)
    · exact (parseMessage_ok (by omega)).mpr ⟨marker ++ length, metadata, hbytes, by simp [hlength],
        by simp [hlength, Nat.add_assoc], hroot, hversion, hbody, Nat.mod_eq_zero_of_dvd hbodyAligned⟩

-- ---------------------------------------------------------------------------
-- Indices and sums
-- ---------------------------------------------------------------------------

theorem refuse {β : Type} {Q : β → Prop} {x : Except Stop β} (h : x = .error (.refused kind)) :
    Ensures x Q Stop.Refusal := by
  subst h
  trivial

theorem ensures_guard {β : Type} {Q : β → Prop} {c : Prop} [Decidable c] {f : PUnit → Except Stop β}
    (h : ¬ c → Ensures (f ⟨⟩) Q Stop.Refusal) :
    Ensures (if c then throw (.refused kind) >>= f else f ⟨⟩) Q Stop.Refusal := by
  split
  · trivial
  · exact h ‹_›

theorem checkedAdd_ensures (h : a + b < 18446744073709551616) :
    Ensures (checkedAdd a b) (fun sum => sum = a + b) Stop.Refusal := by
  rw [checkedAdd_eq h]
  exact ensures_pure rfl

theorem usizeTryFrom_ensures (value : Int) :
    Ensures (usizeTryFrom value) (fun size => value = (size : Int)) Stop.Refusal := by
  unfold usizeTryFrom
  split
  · exact ensures_pure (by omega)
  · trivial

theorem i32FromLe_ensures (bytes : Bytes) :
    Ensures (i32FromLe bytes) (fun value => value < 2147483648) Stop.Refusal := by
  unfold i32FromLe
  split
  · exact ensures_pure (intFromLe_lt ‹_›)
  · trivial

theorem lengthPrefix_ensures (h : 4 ≤ bytes.length) :
    Ensures (lengthPrefix bytes) (fun parts => parts.1 ≤ 8) Stop.Refusal := by
  unfold lengthPrefix
  refine (slice_ensures (Nat.zero_le _) h).bind fun first _ => ?_
  split
  · exact ensures_guard fun hlong =>
      (slice_ensures (by decide) (by omega)).bind fun _ _ => ensures_pure (Nat.le_refl _)
  · exact ensures_pure (show 4 ≤ 8 by decide)

theorem metadataEnd_ensures (hstart : prefixLength ≤ 8) :
    Ensures (metadataEnd bytes prefixLength lengthBytes)
      (fun stop => prefixLength ≤ stop ∧ stop ≤ bytes.length ∧ stop < 9223372036854775808) Stop.Refusal := by
  unfold metadataEnd
  refine (i32FromLe_ensures _).bind fun signed hsigned => ?_
  refine (usizeTryFrom_ensures _).bind fun size hsize => ensures_guard fun _ => ?_
  refine (checkedAdd_ensures (by omega)).bind fun stop hstop => ensures_guard fun hfits => ?_
  exact ensures_pure ⟨by omega, by omega, by omega⟩

theorem parseMessage_ensures {flatbuffers : Flatbuffers N} (hle : prefixLength ≤ stop)
    (hin : stop ≤ bytes.length) (hlt : stop < 9223372036854775808) :
    Ensures (parseMessage flatbuffers bytes prefixLength stop) (fun _ => True) Stop.Refusal := by
  unfold parseMessage
  refine (slice_ensures hle hin).bind fun metadata _ => ?_
  cases hroot : flatbuffers.rootAsMessage metadata with
  | none => exact refuse rfl
  | some message =>
    have hbody := flatbuffers.bodyLength_lt hroot
    refine ensures_guard fun _ => (usizeTryFrom_ensures _).bind fun size hsize => ensures_guard fun _ => ?_
    refine (checkedAdd_ensures (by omega)).bind fun messageEnd hend => ensures_guard fun hwhole => ?_
    exact (slice_ensures (by omega) (Nat.le_of_eq (not_not.mp hwhole))).bind fun _ _ => ensures_pure trivial

theorem parseEncapsulated_ensures (flatbuffers : Flatbuffers N) (bytes : Bytes) (limit : DecodeLimit) :
    Ensures (parseEncapsulated flatbuffers bytes limit) (fun _ => True) Stop.Refusal := by
  unfold parseEncapsulated
  refine ensures_guard fun _ => ensures_guard fun hfour => ?_
  refine (lengthPrefix_ensures (by omega)).bind fun parts hparts => ?_
  exact (metadataEnd_ensures hparts).bind fun stop hstop => parseMessage_ensures hstop.1 hstop.2.1 hstop.2.2

/-- The parse accepts exactly the framed messages within the limit, and no
slice or sum on its way goes wrong. -/
theorem parseEncapsulated_exact (flatbuffers : Flatbuffers N) (bytes : Bytes) (limit : DecodeLimit) :
    (∀ message body, parseEncapsulated flatbuffers bytes limit = .ok ⟨message, body⟩ ↔
      bytes.length ≤ limit.1 ∧ Framed flatbuffers bytes message body) ∧
    ∀ stop, parseEncapsulated flatbuffers bytes limit = .error stop →
      stop ≠ .outOfBounds ∧ ∀ kind, stop ≠ .overflowed kind := by
  refine ⟨fun message body => parseEncapsulated_ok, fun stop hstop => ?_⟩
  have hrefusal := (parseEncapsulated_ensures flatbuffers bytes limit).error hstop
  cases stop with
  | refused kind => exact ⟨nofun, nofun⟩
  | overflowed kind => cases hrefusal
  | outOfBounds => cases hrefusal

end SilkChiffon.BigQuery.Framing
