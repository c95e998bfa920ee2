import SilkChiffon.Lib.Chunking
import SilkChiffon.Storage.Lifecycle

/-!
# The bytes of an upload

The chunks a writer got into the channel are, at every point of the task, the
parts started so far, what the task buffers, the bytes it has in hand, and
what is still queued. `Faithful` says so for each point, along with how the
parts are cut; a task that returns an object has nothing in hand or queued.
-/

namespace SilkChiffon.Storage

open Chunking

-- ---------------------------------------------------------------------------
-- What an upload holds
-- ---------------------------------------------------------------------------

structure ByteView where
  accepted : Bytes
  queue : Bytes
  buffer : Bytes
  multipart : Option Bytes
  log : List Call
  inFlight : Nat

def UploadState.bytes (u : UploadState) : ByteView where
  accepted := u.accepted.flatten
  queue := u.queue.flatten
  buffer := u.buffer
  multipart := u.multipart
  log := u.log
  inFlight := u.inFlight

def UploadState.Shut (u : UploadState) : Prop := u.receiverOpen = true → u.writer = none

/-- Buffering below the part size: nothing was asked of the store. -/
structure Single (s : ObjectUploadSettings) (v : ByteView) (carried : Bytes) : Prop where
  multipart : v.multipart = none
  log : v.log = []
  inFlight : v.inFlight = 0
  short : v.buffer.length < s.partSize
  accepted : v.buffer ++ carried ++ v.queue = v.accepted

/-- Cutting parts: `cut` are full and not started yet. -/
structure Multi (s : ObjectUploadSettings) (v : ByteView) (cut : List Bytes) (buffer carried : Bytes) :
    Prop where
  put : ∀ payload, .put payload ∉ v.log
  long : s.partSize ≤ v.accepted.length
  filling : ∃ done, Filling s.partSize done (parts v.log ++ cut) buffer ∧
    done ++ carried ++ v.queue = v.accepted

def Holding (s : ObjectUploadSettings) (v : ByteView) (carried : Bytes) : Prop :=
  Single s v carried ∨ ∃ buffer, v.multipart = some buffer ∧ Multi s v [] buffer carried

structure Parted (s : ObjectUploadSettings) (accepted : Bytes) (log : List Call) (cut : List Bytes) :
    Prop where
  put : ∀ payload, .put payload ∉ log
  long : s.partSize ≤ accepted.length
  chunked : Chunked s.partSize accepted (parts log ++ cut)

structure Stored (s : ObjectUploadSettings) (accepted : Bytes) (log : List Call) : Prop where
  object : storedObject log = some accepted
  put : (∃ payload, .put payload ∈ log) ↔ accepted.length < s.partSize
  chunked : s.partSize ≤ accepted.length → Chunked s.partSize accepted (parts log)

def Rest.carried (rest : Rest) : Bytes := rest.bytes ++ rest.next.getD []

/-- Where the accepted bytes are when the task is at `pc`. -/
def Faithful (s : ObjectUploadSettings) (v : ByteView) (shut : Prop) : Pc → Prop
  | .unstarted => v = UploadState.new.bytes ∧ shut
  | .pollTerminal => Holding s v []
  | .pollBytes => Holding s v []
  | .close => Holding s v []
  | .drain => Holding s v [] ∧ shut
  | .awaitTerminal => Holding s v [] ∧ v.queue = [] ∧ shut
  | .write origin chunk => Holding s v chunk ∧ (origin = .draining → shut)
  | .creating origin chunk =>
    (Single s v chunk ∧ s.partSize ≤ v.buffer.length + chunk.length) ∧ (origin = .draining → shut)
  | .created origin chunk =>
    (v.multipart = some [] ∧ Multi s v [] [] (v.buffer ++ chunk)) ∧ (origin = .draining → shut)
  | .fill rest =>
    (∃ buffer, v.multipart = some buffer ∧ Multi s v [] buffer rest.carried) ∧
      (rest.origin = .draining → shut)
  | .joinCancel payload rest => Cut payload rest
  | .joinPart payload rest => Cut payload rest
  | .joined payload rest => Cut payload rest
  | .acquireCancel payload rest => Cut payload rest
  | .acquirePermit payload rest => Cut payload rest
  | .spawn payload rest => Cut payload rest
  | .complete => Holding s v [] ∧ v.queue = [] ∧ shut
  | .putting =>
    (v.log = [.put v.buffer] ∧ v.inFlight = 0 ∧ v.buffer.length < s.partSize ∧
      v.buffer = v.accepted) ∧ shut
  | .flushJoin payload => Parted s v.accepted v.log [payload] ∧ shut
  | .flushAcquire payload => Parted s v.accepted v.log [payload] ∧ shut
  | .flushSpawn payload => Parted s v.accepted v.log [payload] ∧ shut
  | .joinAll => Parted s v.accepted v.log [] ∧ shut
  | .completing => (Parted s v.accepted v.log [] ∧ v.inFlight = 0) ∧ shut
  | .ended (.ok true) => (Stored s v.accepted v.log ∧ v.inFlight = 0) ∧ shut
  | _ => True
where
  Cut (payload : Bytes) (rest : Rest) : Prop :=
    (v.multipart = some [] ∧ Multi s v [payload] [] rest.carried) ∧ (rest.origin = .draining → shut)

-- ---------------------------------------------------------------------------
-- Moving bytes
-- ---------------------------------------------------------------------------

theorem parts_snoc (hc : c.payload? = none) : parts (log ++ [c]) = parts log := by
  simp [parts, hc]

@[simp] theorem parts_snoc_part : parts (log ++ [.part payload]) = parts log ++ [payload] := by
  simp [parts, Call.payload?]

theorem Holding.receive (h : Holding s v []) (hq : v.queue = chunk ++ queue) :
    Holding s { v with queue } chunk := by
  rcases h with h | ⟨buffer, hm, h⟩
  · refine .inl { h with accepted := ?_ }
    rw [← h.accepted, hq]
    simp
  · obtain ⟨done, hfilling, haccepted⟩ := h.filling
    refine .inr ⟨buffer, hm, { h with filling := ⟨done, hfilling, ?_⟩ }⟩
    rw [← haccepted, hq]
    simp

theorem Holding.single (h : Holding s v carried) (hm : v.multipart = none) : Single s v carried := by
  refine h.resolve_right ?_
  rintro ⟨buffer, hbuffer, -⟩
  rw [hm] at hbuffer
  cases hbuffer

theorem Holding.multi (h : Holding s v carried) (hm : v.multipart = some buffer) :
    Multi s v [] buffer carried := by
  rcases h with h | ⟨buffer', hbuffer, h⟩
  · rw [h.multipart] at hm
    cases hm
  · rw [hm] at hbuffer
    cases hbuffer
    exact h

theorem Single.buffered (h : Single s v chunk) (hlt : v.buffer.length + chunk.length < s.partSize) :
    Single s { v with buffer := v.buffer ++ chunk } [] :=
  { h with
    short := by rwa [List.length_append]
    accepted := by rw [List.append_nil]; exact h.accepted }

/-- The switch to a multipart upload: what was buffered is in hand again. -/
theorem Single.created (h : Single s v chunk) (hle : s.partSize ≤ v.buffer.length + chunk.length) :
    Multi s { v with multipart := some [], log := v.log ++ [.created] } [] [] (v.buffer ++ chunk) where
  put := by simp [h.log]
  long := by
    have hlength := congrArg List.length h.accepted
    simp only [List.length_append] at hlength
    show s.partSize ≤ v.accepted.length
    omega
  filling := by
    refine ⟨[], ?_, h.accepted⟩
    rw [parts_snoc rfl, h.log]
    exact .nil s.partSize_pos

theorem Multi.buffered (h : Multi s v [] buffer (bytes ++ next))
    (hlt : buffer.length + bytes.length < s.partSize) :
    Multi s { v with multipart := some (buffer ++ bytes) } [] (buffer ++ bytes) next := by
  obtain ⟨done, hfilling, haccepted⟩ := h.filling
  refine { h with filling := ⟨done ++ bytes, hfilling.push hlt, ?_⟩ }
  rw [← haccepted]
  simp

theorem Multi.full (h : Multi s v [] buffer (bytes ++ next))
    (hle : s.partSize ≤ buffer.length + bytes.length) :
    Multi s { v with multipart := some [] } [buffer ++ bytes.take (s.partSize - buffer.length)] []
      (bytes.drop (s.partSize - buffer.length) ++ next) := by
  obtain ⟨done, hfilling, haccepted⟩ := h.filling
  have hlength : buffer.length + (bytes.take (s.partSize - buffer.length)).length = s.partSize := by
    have hshort := hfilling.rest_lt
    rw [List.length_take]
    omega
  have hfull := hfilling.fill hlength
  rw [List.append_nil] at hfull
  refine { h with filling := ⟨_, hfull, ?_⟩ }
  have hsplit := List.take_append_drop (s.partSize - buffer.length) bytes
  rw [← hsplit] at haccepted
  simpa [-List.take_append_drop] using haccepted

theorem Multi.started (h : Multi s v [payload] [] carried) :
    Multi s ⟨v.accepted, v.queue, v.buffer, v.multipart, v.log ++ [.part payload], inFlight⟩ [] []
      carried where
  put := by simpa using h.put
  long := h.long
  filling := by simpa using h.filling

theorem Multi.parted (h : Multi s v [] buffer []) (hq : v.queue = []) :
    Parted s v.accepted v.log (flush buffer) where
  put := h.put
  long := h.long
  chunked := by
    obtain ⟨done, hfilling, haccepted⟩ := h.filling
    have hdone : done = v.accepted := by simpa [hq] using haccepted
    rw [hdone, List.append_nil] at hfilling
    exact hfilling.flush

theorem Parted.started (h : Parted s accepted log [payload]) :
    Parted s accepted (log ++ [.part payload]) [] where
  put := by simpa using h.put
  long := h.long
  chunked := by simpa using h.chunked

theorem Parted.call (h : Parted s accepted log cut) (hc : c.payload? = none)
    (hp : ∀ payload, c ≠ .put payload) : Parted s accepted (log ++ [c]) cut where
  put payload hmem := by
    rcases List.mem_append.mp hmem with hmem | hmem
    · exact h.put payload hmem
    · exact hp payload (List.mem_singleton.mp hmem).symm
  long := h.long
  chunked := by
    rw [parts_snoc hc]
    exact h.chunked

theorem Parted.stored (h : Parted s accepted log []) : Stored s accepted (log ++ [.completed]) := by
  have hcompleted := h.call (c := .completed) rfl nofun
  have hchunked := hcompleted.chunked
  rw [List.append_nil] at hchunked
  refine ⟨?_, ⟨?_, fun hlt => absurd h.long (Nat.not_le.mpr hlt)⟩, fun _ => hchunked⟩
  · simp [storedObject, hchunked.flatten]
  · rintro ⟨payload, hmem⟩
    exact absurd hmem (hcompleted.put payload)

theorem stored_put (hlt : buffer.length < s.partSize) :
    Stored s buffer [.put buffer, .stored buffer] where
  object := by simp [storedObject]
  put := by simpa using hlt
  chunked hle := absurd hlt (Nat.not_lt.mpr hle)

-- ---------------------------------------------------------------------------
-- Steps
-- ---------------------------------------------------------------------------

/-- Back in the loop a chunk came from: there is no more of it in hand. -/
theorem faithful_loop (origin : Origin) (h : Holding s v []) (hshut : origin = .draining → shut) :
    Faithful s v shut origin.loop := by
  cases origin with
  | polling => exact h
  | draining => exact ⟨h, hshut rfl⟩

theorem faithful_aborted (cause : Cause) : Faithful s v shut (.ended cause.aborted) := by
  cases cause <;> trivial

theorem taskStep_faithful (h : TaskStep s permit pc u pc' u') (hf : Faithful s u.bytes u.Shut pc) :
    Faithful s u'.bytes u'.Shut pc' := by
  cases h with
  | takeAbort | awaitAbort | writeCancelled | createFailed | createdCancelled | fillCancelled
  | joinCancelled | joinFailed | joinedCancelled | acquireCancelled | spawnCancelled | putFailed
  | flushFailed | joinAllFailed | completeFailed | abortParts | shutdownPart | shutdownJoin
  | shutdownDone | abortFailed => trivial
  | takeComplete | terminalPending | bytesPending | awaitComplete | joinDone | joinWait | joinOk
  | joinPending | joinedGo | acquireWait | acquirePending | acquired => exact hf
  | receive h => exact ⟨hf.receive (by simp [UploadState.bytes, h]), nofun⟩
  | bytesEnded h hw => exact ⟨hf, by simp [UploadState.bytes, h], fun _ => hw⟩
  | close => exact ⟨hf, nofun⟩
  | drainNext h => exact ⟨hf.1.receive (by simp [UploadState.bytes, h]), fun _ => hf.2⟩
  | drained h => exact ⟨hf.1, by simp [UploadState.bytes, h], hf.2⟩
  | writeBuffered _ hm hlt => exact faithful_loop _ (.inl ((hf.1.single hm).buffered hlt)) hf.2
  | writeCreate _ hm hle => exact ⟨⟨hf.1.single hm, hle⟩, hf.2⟩
  | writeMultipart _ hm =>
    obtain ⟨hmulti, hshut⟩ := hf
    refine ⟨⟨_, hm, ?_⟩, hshut⟩
    simpa [Rest.carried] using hmulti.multi hm
  | created => exact ⟨⟨rfl, hf.1.1.created hf.1.2⟩, hf.2⟩
  | createdGo =>
    obtain ⟨⟨hm, hmulti⟩, hshut⟩ := hf
    exact ⟨⟨[], hm, hmulti.put, hmulti.long, hmulti.filling⟩, hshut⟩
  | fillDone =>
    obtain ⟨⟨buffer, hm, hmulti⟩, hshut⟩ := hf
    exact faithful_loop _ (.inr ⟨buffer, hm, hmulti⟩) hshut
  | fillNext =>
    obtain ⟨⟨buffer, hm, hmulti⟩, hshut⟩ := hf
    exact ⟨⟨buffer, hm, by simpa [Rest.carried] using hmulti⟩, hshut⟩
  | fillSome _ _ hm hlt =>
    obtain ⟨⟨_, hm', hmulti⟩, hshut⟩ := hf
    obtain rfl := Option.some.inj (hm'.symm.trans hm)
    exact ⟨⟨_, rfl, hmulti.buffered hlt⟩, hshut⟩
  | fillPart _ _ hm hle =>
    obtain ⟨⟨_, hm', hmulti⟩, hshut⟩ := hf
    obtain rfl := Option.some.inj (hm'.symm.trans hm)
    exact ⟨⟨rfl, hmulti.full hle⟩, hshut⟩
  | spawnPart => 
    obtain ⟨⟨hm, hmulti⟩, hshut⟩ := hf
    exact ⟨⟨[], hm, hmulti.started⟩, hshut⟩
  | completePut hm =>
    obtain ⟨hholding, hqueue, hshut⟩ := hf
    have hsingle := hholding.single hm
    refine ⟨⟨?_, hsingle.inFlight, hsingle.short, ?_⟩, hshut⟩
    · exact congrArg (· ++ [.put u.buffer]) hsingle.log
    · have haccepted := hsingle.accepted
      rwa [hqueue, List.append_nil, List.append_nil] at haccepted
  | completeFlush hm hne =>
    obtain ⟨hholding, hqueue, hshut⟩ := hf
    have hparted := (hholding.multi hm).parted hqueue
    rw [flush_of_ne hne] at hparted
    exact ⟨hparted, hshut⟩
  | completeFull hm =>
    obtain ⟨hholding, hqueue, hshut⟩ := hf
    exact ⟨(hholding.multi hm).parted hqueue, hshut⟩
  | flushPart => exact ⟨hf.1.started, hf.2⟩
  | flushOk | flushJoined | flushAcquired | joinAllOk => exact hf
  | joinedAll hzero => exact ⟨⟨hf.1.call rfl nofun, (Nat.add_eq_zero_iff.mp hzero).1⟩, hf.2⟩
  | putOk =>
    obtain ⟨⟨hlog, hzero, hlt, haccepted⟩, hshut⟩ := hf
    have hstored := stored_put hlt
    rw [← List.singleton_append, ← hlog] at hstored
    exact ⟨⟨haccepted ▸ hstored, hzero⟩, nofun⟩
  | completed =>
    obtain ⟨⟨hparted, hzero⟩, hshut⟩ := hf
    exact ⟨⟨hparted.stored, hzero⟩, nofun⟩
  | abortNothing | aborted => exact faithful_aborted _

theorem single_new : Single s UploadState.new.bytes [] := ⟨rfl, rfl, rfl, s.partSize_pos, rfl⟩

theorem ownerStep_faithful (h : OwnerStep pc u pc' u') (hf : Faithful s u.bytes u.Shut pc) :
    Faithful s u'.bytes u'.Shut pc' := by
  cases h with
  | start =>
    obtain ⟨hnew, -⟩ := hf
    have hsingle : Single s u.bytes [] := hnew ▸ single_new
    exact .inl hsingle
  | completeUnstarted =>
    obtain ⟨hnew, hshut⟩ := hf
    have hsingle : Single s u.bytes [] := hnew ▸ single_new
    exact ⟨.inl hsingle, congrArg ByteView.queue hnew, hshut⟩
  | releaseUnstarted => trivial
  | complete | cancel | release => exact hf

-- A part that failed shows in the log, but not among its parts and puts.

theorem Multi.partEnded (h : Multi s v pieces buffer carried) (hp : parts log = parts v.log)
    (hput : ∀ payload, .put payload ∈ log → .put payload ∈ v.log) :
    Multi s { v with log, inFlight } pieces buffer carried where
  put payload hmem := h.put payload (hput payload hmem)
  long := h.long
  filling := by
    rw [hp]
    exact h.filling

theorem Parted.partEnded (h : Parted s accepted log cut) (hp : parts log' = parts log)
    (hput : ∀ payload, .put payload ∈ log' → .put payload ∈ log) : Parted s accepted log' cut where
  put payload hmem := h.put payload (hput payload hmem)
  long := h.long
  chunked := by
    rw [hp]
    exact h.chunked

theorem Faithful.partEnded (hf : Faithful s v shut pc) (hbusy : v.inFlight ≠ 0)
    (hp : parts log = parts v.log) (hput : ∀ payload, .put payload ∈ log → .put payload ∈ v.log) :
    Faithful s { v with log, inFlight } shut pc := by
  have hholding (carried) (h : Holding s v carried) : Holding s { v with log, inFlight } carried := by
    rcases h with h | ⟨buffer, hm, h⟩
    · exact absurd h.inFlight hbusy
    · exact .inr ⟨buffer, hm, h.partEnded hp hput⟩
  cases pc with
  | unstarted => exact absurd (congrArg ByteView.inFlight hf.1) hbusy
  | pollTerminal | pollBytes | close => exact hholding _ hf
  | drain | awaitTerminal | complete | write => exact ⟨hholding _ hf.1, hf.2⟩
  | creating => exact absurd hf.1.1.inFlight hbusy
  | created | joinCancel | joinPart | joined | acquireCancel | acquirePermit | spawn =>
    exact ⟨⟨hf.1.1, hf.1.2.partEnded hp hput⟩, hf.2⟩
  | fill =>
    obtain ⟨⟨buffer, hm, h⟩, hshut⟩ := hf
    exact ⟨⟨buffer, hm, h.partEnded hp hput⟩, hshut⟩
  | putting => exact absurd hf.1.2.1 hbusy
  | flushJoin | flushAcquire | flushSpawn | joinAll => exact ⟨hf.1.partEnded hp hput, hf.2⟩
  | completing => exact absurd hf.1.2 hbusy
  | abort | shutdown | aborting => trivial
  | ended result =>
    rcases result with _ | _ | _
    · trivial
    · trivial
    · exact absurd hf.1.2 hbusy

theorem partStep_faithful (h : PartStep u u') (hf : Faithful s u.bytes u.Shut pc) :
    Faithful s u'.bytes u'.Shut pc := by
  have hbusy := partStep_inFlight h
  cases h with
  | succeeded => exact hf.partEnded hbusy rfl fun _ => id
  | failed => exact hf.partEnded hbusy (parts_snoc rfl) (by simp [UploadState.bytes, UploadState.call])

-- A chunk that gets into the channel is accepted and queued.

def ByteView.send (v : ByteView) (chunk : Bytes) : ByteView :=
  { v with accepted := v.accepted ++ chunk, queue := v.queue ++ chunk }

theorem Single.send (h : Single s v carried) (chunk : Bytes) : Single s (v.send chunk) carried :=
  { h with
    accepted := by
      rw [ByteView.send, ← h.accepted]
      simp only [List.append_assoc] }

theorem Multi.send (h : Multi s v pieces buffer carried) (chunk : Bytes) :
    Multi s (v.send chunk) pieces buffer carried where
  put := h.put
  long := by
    simp only [ByteView.send, List.length_append]
    exact Nat.le_add_right_of_le h.long
  filling := by
    obtain ⟨done, hfilling, haccepted⟩ := h.filling
    refine ⟨done, hfilling, ?_⟩
    rw [ByteView.send, ← haccepted]
    simp only [List.append_assoc]

theorem Holding.send (h : Holding s v carried) (chunk : Bytes) : Holding s (v.send chunk) carried := by
  rcases h with h | ⟨buffer, hm, h⟩
  · exact .inl (h.send chunk)
  · exact .inr ⟨buffer, hm, h.send chunk⟩

theorem Faithful.send (hf : Faithful s v shut pc) (hopen : ¬ shut) (chunk : Bytes) :
    Faithful s (v.send chunk) shut pc := by
  cases pc with
  | unstarted => exact absurd hf.2 hopen
  | pollTerminal | pollBytes | close => exact Holding.send hf chunk
  | write => exact ⟨hf.1.send chunk, hf.2⟩
  | creating => exact ⟨⟨hf.1.1.send chunk, hf.1.2⟩, hf.2⟩
  | created | joinCancel | joinPart | joined | acquireCancel | acquirePermit | spawn =>
    exact ⟨⟨hf.1.1, hf.1.2.send chunk⟩, hf.2⟩
  | fill =>
    obtain ⟨⟨buffer, hm, h⟩, hshut⟩ := hf
    exact ⟨⟨buffer, hm, h.send chunk⟩, hshut⟩
  | awaitTerminal | complete => exact absurd hf.2.2 hopen
  | drain | putting | flushJoin | flushAcquire | flushSpawn | joinAll | completing =>
    exact absurd hf.2 hopen
  | abort | shutdown | aborting => trivial
  | ended result =>
    rcases result with _ | _ | _
    · trivial
    · trivial
    · exact absurd hf.2 hopen

theorem Faithful.mono (hf : Faithful s v shut pc) (hshut : shut → shut') : Faithful s v shut' pc := by
  cases pc with
  | pollTerminal | pollBytes | close => exact hf
  | awaitTerminal | complete => exact ⟨hf.1, hf.2.1, hshut hf.2.2⟩
  | unstarted | drain | putting | flushJoin | flushAcquire | flushSpawn | joinAll | completing =>
    exact ⟨hf.1, hshut hf.2⟩
  | write | creating | created | fill | joinCancel | joinPart | joined | acquireCancel
  | acquirePermit | spawn => exact ⟨hf.1, fun h => hshut (hf.2 h)⟩
  | abort | shutdown | aborting => trivial
  | ended result =>
    rcases result with _ | _ | _
    · trivial
    · trivial
    · exact ⟨hf.1, hshut hf.2⟩

theorem writerStep_shut (h : WriterStep s u u') (hshut : u.Shut) : u'.Shut := by
  cases h with
  | write h | sendFailed h | giveUp h => exact fun hopen => nomatch h.symm.trans (hshut hopen)
  | send h => exact fun hopen => nomatch h.symm.trans (hshut hopen)
  | drop => exact fun _ => rfl

theorem writerStep_faithful (h : WriterStep s u u') (hf : Faithful s u.bytes u.Shut pc) :
    Faithful s u'.bytes u'.Shut pc := by
  refine Faithful.mono ?_ (writerStep_shut h)
  cases h with
  | write | sendFailed | giveUp | drop => exact hf
  | @send _ _ _ chunk h hopen =>
    have hsent := hf.send (fun hshut => nomatch h.symm.trans (hshut hopen)) chunk
    simpa [ByteView.send, UploadState.bytes, UploadState.Shut] using hsent

theorem uploadStep_faithful (h : UploadStep s permit pc u pc' u')
    (hf : Faithful s u.bytes u.Shut pc) : Faithful s u'.bytes u'.Shut pc' := by
  cases h with
  | task h => exact taskStep_faithful h hf
  | part h => exact partStep_faithful h hf
  | owner h => exact ownerStep_faithful h hf
  | writer h => exact writerStep_faithful h hf

-- ---------------------------------------------------------------------------
-- Completed uploads
-- ---------------------------------------------------------------------------

theorem reachable_faithful (h : Session.Reachable s session) : ∀ upload ∈ session.uploads,
    Faithful s upload.state.bytes upload.state.Shut upload.pc :=
  reachable_uploads ⟨rfl, fun _ => rfl⟩ (fun _ _ _ _ _ hf step => uploadStep_faithful step hf) h

theorem completed_ok {upload : ObjectUpload} (h : upload.completed = some (.ok ())) :
    upload.pc = .ended (.ok true) := by
  unfold ObjectUpload.completed at h
  split at h
  next terminalSent result _ hpc =>
    rcases result with _ | _ | _
    · cases h
    · simp [completeResult] at h
    · exact hpc
  next => cases h

/-- An object whose completion was reported holds the accepted chunks, in
order. It was put in one piece exactly when it is shorter than a part, and is
cut into parts otherwise. -/
theorem upload_fidelity (h : Session.Reachable s session) (hmem : upload ∈ session.uploads)
    (hok : upload.completed = some (.ok ())) :
    storedObject upload.state.log = some upload.state.accepted.flatten ∧
      ((∃ payload, .put payload ∈ upload.state.log) ↔
        upload.state.accepted.flatten.length < s.partSize) ∧
      (s.partSize ≤ upload.state.accepted.flatten.length →
        Chunked s.partSize upload.state.accepted.flatten (parts upload.state.log)) := by
  have hfaithful := reachable_faithful h upload hmem
  rw [completed_ok hok] at hfaithful
  obtain ⟨⟨⟨hobject, hput, hchunked⟩, -⟩, -⟩ := hfaithful
  exact ⟨hobject, hput, hchunked⟩

theorem upload_fidelity_twoParts :
    storedObject twoPartUpload.state.log = some twoPartUpload.state.accepted.flatten ∧
      ((∃ payload, .put payload ∈ twoPartUpload.state.log) ↔
        twoPartUpload.state.accepted.flatten.length < twoByteParts.partSize) ∧
      (twoByteParts.partSize ≤ twoPartUpload.state.accepted.flatten.length →
        Chunked twoByteParts.partSize twoPartUpload.state.accepted.flatten
          (parts twoPartUpload.state.log)) :=
  upload_fidelity twoPartUpload_reachable (.head _) rfl

end SilkChiffon.Storage
