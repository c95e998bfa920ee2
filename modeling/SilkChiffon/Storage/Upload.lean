import Mathlib.Algebra.GroupWithZero.Nat
import Mathlib.Logic.Relation
import SilkChiffon.Lib.Lists

/-!
# Object uploads

A storage session runs any number of uploads over one pool of part permits.
An upload has an owner, a writer that sends chunks through a bounded channel,
a task that runs `run_upload`, and part requests that finish in any order. A
step is one access to what these share: the task's program counter `Pc` names
the point of `run_upload` and of the functions under it where the next access
happens.
-/

namespace SilkChiffon.Storage

abbrev Bytes := List UInt8

structure ObjectUploadSettings where
  partSize : Nat
  maxInFlightParts : Nat
  partSize_pos : 0 < partSize
  maxInFlightParts_pos : 0 < maxInFlightParts

inductive ObjectUploadError
  | write | complete | abort
  deriving DecidableEq

inductive TerminalAction
  | complete | abort
  deriving DecidableEq

/-- The receiving end of the terminal oneshot. -/
inductive Terminal
  | waiting
  | sent (action : TerminalAction)
  | taken
  deriving DecidableEq

inductive WriterKind
  | direct | blocking | sink
  deriving DecidableEq

/-- A sender of the channel, with the chunks of its current write that are not
sent yet. -/
structure Writer where
  kind : WriterKind
  pending : List Bytes
  deriving DecidableEq

inductive Release
  | abort | drop
  deriving DecidableEq

/-- `asked` holds whether the terminal action reached a running task;
`cancelled` is between the two steps of `request_abort`. -/
inductive Owner
  | held
  | asked (terminalSent : Bool)
  | cancelled (how : Release)
  | released (how : Release)
  deriving DecidableEq

/-- The calls made to the object store for one upload, and how they ended. -/
inductive Call
  | created
  | part (payload : Bytes)
  | partFailed
  | put (payload : Bytes)
  | stored (payload : Bytes)
  | complete
  | completed
  | abort
  deriving DecidableEq

inductive Origin
  | polling | draining
  deriving DecidableEq

/-- What is left to do of a `write` on the multipart state: the rest of this
chunk, a second chunk behind it, and where to return to. -/
structure Rest where
  bytes : Bytes
  next : Option Bytes
  origin : Origin
  deriving DecidableEq

inductive Cause
  | requested
  | failed (error : ObjectUploadError)
  deriving DecidableEq

inductive Pc
  | unstarted
  -- `run_upload`
  | pollTerminal | pollBytes | close | drain | awaitTerminal
  -- `UploadWorker::write`
  | write (origin : Origin) (chunk : Bytes)
  | creating (origin : Origin) (chunk : Bytes)
  | created (origin : Origin) (chunk : Bytes)
  -- `MultipartState::write` and `start_part_or_cancel`
  | fill (rest : Rest)
  | joinCancel (payload : Bytes) (rest : Rest)
  | joinPart (payload : Bytes) (rest : Rest)
  | joined (payload : Bytes) (rest : Rest)
  | acquireCancel (payload : Bytes) (rest : Rest)
  | acquirePermit (payload : Bytes) (rest : Rest)
  | spawn (payload : Bytes) (rest : Rest)
  -- `UploadWorker::complete`, `MultipartState::complete` and `start_part`
  | complete
  | putting
  | flushJoin (payload : Bytes)
  | flushAcquire (payload : Bytes)
  | flushSpawn (payload : Bytes)
  | joinAll
  | completing
  -- `abort_multipart`
  | abort (cause : Cause)
  | shutdown (cause : Cause)
  | aborting (cause : Cause)
  -- the task has returned: whether it made an object durable
  | ended (result : Except ObjectUploadError Bool)
  deriving DecidableEq

structure UploadState where
  owner : Owner
  terminal : Terminal
  cancelled : Bool
  writer : Option Writer
  receiverOpen : Bool
  queue : List Bytes
  buffer : Bytes
  /-- The part buffer, while there is a multipart upload to complete or abort. -/
  multipart : Option Bytes
  inFlight : Nat
  /-- Results of part tasks that were not joined yet. -/
  finished : List Bool
  /-- Every chunk that entered the channel. -/
  accepted : List Bytes
  log : List Call
  deriving DecidableEq

namespace UploadState

def new : UploadState where
  owner := .held
  terminal := .waiting
  cancelled := false
  writer := none
  receiverOpen := false
  queue := []
  buffer := []
  multipart := none
  inFlight := 0
  finished := []
  accepted := []
  log := []

/-- `tasks.len()`. -/
def unjoined (u : UploadState) : Nat := u.inFlight + u.finished.length

def call (u : UploadState) (c : Call) : UploadState := { u with log := u.log ++ [c] }

/-- The task returned, and its end of the channel went with it. -/
def close (u : UploadState) : UploadState := { u with receiverOpen := false, queue := [] }

end UploadState

def Origin.loop : Origin → Pc
  | polling => .pollTerminal
  | draining => .drain

def Cause.aborted : Cause → Except ObjectUploadError Bool
  | requested => .ok false
  | failed error => .error error

def Cause.cleanupFailed : Cause → ObjectUploadError
  | requested => .abort
  | failed error => error

-- ---------------------------------------------------------------------------
-- Writers
-- ---------------------------------------------------------------------------

/-- Pieces of at most `partSize` bytes: the loop of `ObjectUpload::write`, and
`chunks` in the blocking writer. -/
def splitChunks (partSize : Nat) (bytes : Bytes) : List Bytes :=
  if bytes = [] ∨ partSize = 0 then []
  else bytes.take partSize :: splitChunks partSize (bytes.drop partSize)
termination_by bytes.length
decreasing_by
  rename_i h
  have hpos := List.length_pos_iff.mpr fun hb => h (.inl hb)
  rw [List.length_drop]
  omega

/-- The async sink passes a chunk on as it is. -/
def WriterKind.chunks (kind : WriterKind) (partSize : Nat) (bytes : Bytes) : List Bytes :=
  match kind with
  | .direct => splitChunks partSize bytes
  | .blocking => splitChunks partSize bytes
  | .sink => [bytes]

theorem flatten_splitChunks (h : 0 < partSize) (bytes : Bytes) :
    (splitChunks partSize bytes).flatten = bytes := by
  fun_induction splitChunks partSize bytes with
  | case1 bytes hnil =>
    rcases hnil with rfl | rfl
    · rfl
    · cases h
  | case2 bytes hne ih => rw [List.flatten_cons, ih, List.take_append_drop]

theorem splitChunks_short (hne : bytes ≠ []) (hshort : bytes.length ≤ partSize) : splitChunks partSize bytes = [bytes] := by
  have hpos : partSize ≠ 0 := fun h => hne (List.length_eq_zero_iff.mp (by omega))
  rw [splitChunks, if_neg (not_or.mpr ⟨hne, hpos⟩), List.take_of_length_le hshort, List.drop_of_length_le hshort,
    splitChunks, if_pos (.inl rfl)]

theorem WriterKind.flatten_chunks (kind : WriterKind) (h : 0 < partSize) (bytes : Bytes) :
    (kind.chunks partSize bytes).flatten = bytes := by
  cases kind with
  | direct => exact flatten_splitChunks h bytes
  | blocking => exact flatten_splitChunks h bytes
  | sink => simp [chunks]

-- ---------------------------------------------------------------------------
-- Steps of one upload
-- ---------------------------------------------------------------------------

inductive Permit
  | keep | take | give
  deriving DecidableEq

inductive TaskStep (s : ObjectUploadSettings) :
    Permit → Pc → UploadState → Pc → UploadState → Prop
  -- `run_upload`: the select polls the terminal action first
  | takeAbort (h : u.terminal = .sent .abort) :
      TaskStep s .keep .pollTerminal u (.abort .requested) { u with terminal := .taken }
  | takeComplete (h : u.terminal = .sent .complete) :
      TaskStep s .keep .pollTerminal u .close { u with terminal := .taken }
  | terminalPending (h : u.terminal = .waiting) : TaskStep s .keep .pollTerminal u .pollBytes u
  | receive (h : u.queue = chunk :: queue) :
      TaskStep s .keep .pollBytes u (.write .polling chunk) { u with queue }
  | bytesEnded (h : u.queue = []) (hw : u.writer = none) :
      TaskStep s .keep .pollBytes u .awaitTerminal u
  | bytesPending (h : u.queue = []) (hw : u.writer = some writer) :
      TaskStep s .keep .pollBytes u .pollTerminal u
  | awaitAbort (h : u.terminal = .sent .abort) :
      TaskStep s .keep .awaitTerminal u (.abort .requested) { u with terminal := .taken }
  | awaitComplete (h : u.terminal = .sent .complete) :
      TaskStep s .keep .awaitTerminal u .complete { u with terminal := .taken }
  | close : TaskStep s .keep .close u .drain { u with receiverOpen := false }
  | drainNext (h : u.queue = chunk :: queue) :
      TaskStep s .keep .drain u (.write .draining chunk) { u with queue }
  | drained (h : u.queue = []) : TaskStep s .keep .drain u .complete u
  -- `UploadWorker::write`
  | writeCancelled (h : u.cancelled = true) :
      TaskStep s .keep (.write origin chunk) u (.abort .requested) u
  | writeBuffered (h : u.cancelled = false) (hm : u.multipart = none)
      (hlt : u.buffer.length + chunk.length < s.partSize) :
      TaskStep s .keep (.write origin chunk) u origin.loop { u with buffer := u.buffer ++ chunk }
  | writeCreate (h : u.cancelled = false) (hm : u.multipart = none)
      (hle : s.partSize ≤ u.buffer.length + chunk.length) :
      TaskStep s .keep (.write origin chunk) u (.creating origin chunk) u
  | writeMultipart (h : u.cancelled = false) (hm : u.multipart = some buffer) :
      TaskStep s .keep (.write origin chunk) u (.fill ⟨chunk, none, origin⟩) u
  | createFailed :
      TaskStep s .keep (.creating origin chunk) u (.ended (.error .write)) u.close
  | created :
      TaskStep s .keep (.creating origin chunk) u (.created origin chunk)
        ({ u with multipart := some [] }.call .created)
  | createdCancelled (h : u.cancelled = true) :
      TaskStep s .keep (.created origin chunk) u (.abort .requested) u
  | createdGo (h : u.cancelled = false) :
      TaskStep s .keep (.created origin chunk) u (.fill ⟨u.buffer, some chunk, origin⟩)
        { u with buffer := [] }
  -- `MultipartState::write`
  | fillDone : TaskStep s .keep (.fill ⟨[], none, origin⟩) u origin.loop u
  | fillNext : TaskStep s .keep (.fill ⟨[], some chunk, origin⟩) u (.fill ⟨chunk, none, origin⟩) u
  | fillCancelled (hne : rest.bytes ≠ []) (h : u.cancelled = true) :
      TaskStep s .keep (.fill rest) u (.abort .requested) u
  | fillSome (hne : rest.bytes ≠ []) (h : u.cancelled = false) (hm : u.multipart = some buffer)
      (hlt : buffer.length + rest.bytes.length < s.partSize) :
      TaskStep s .keep (.fill rest) u (.fill { rest with bytes := [] })
        { u with multipart := some (buffer ++ rest.bytes) }
  | fillPart (hne : rest.bytes ≠ []) (h : u.cancelled = false) (hm : u.multipart = some buffer)
      (hle : s.partSize ≤ buffer.length + rest.bytes.length) :
      TaskStep s .keep (.fill rest) u
        (.joinCancel (buffer ++ rest.bytes.take (s.partSize - buffer.length))
          { rest with bytes := rest.bytes.drop (s.partSize - buffer.length) })
        { u with multipart := some [] }
  -- `start_part_or_cancel`: each select polls the cancellation first
  | joinDone (h : u.unjoined < s.maxInFlightParts) :
      TaskStep s .keep (.joinCancel payload rest) u (.joined payload rest) u
  | joinCancelled (hle : s.maxInFlightParts ≤ u.unjoined) (h : u.cancelled = true) :
      TaskStep s .keep (.joinCancel payload rest) u (.abort .requested) u
  | joinWait (hle : s.maxInFlightParts ≤ u.unjoined) (h : u.cancelled = false) :
      TaskStep s .keep (.joinCancel payload rest) u (.joinPart payload rest) u
  | joinOk (h : u.finished[i]? = some true) :
      TaskStep s .keep (.joinPart payload rest) u (.joinCancel payload rest)
        { u with finished := u.finished.eraseIdx i }
  | joinFailed (h : u.finished[i]? = some false) :
      TaskStep s .keep (.joinPart payload rest) u (.abort (.failed .write))
        { u with finished := u.finished.eraseIdx i }
  | joinPending (h : u.finished = []) :
      TaskStep s .keep (.joinPart payload rest) u (.joinCancel payload rest) u
  | joinedCancelled (h : u.cancelled = true) :
      TaskStep s .keep (.joined payload rest) u (.abort .requested) u
  | joinedGo (h : u.cancelled = false) :
      TaskStep s .keep (.joined payload rest) u (.acquireCancel payload rest) u
  | acquireCancelled (h : u.cancelled = true) :
      TaskStep s .keep (.acquireCancel payload rest) u (.abort .requested) u
  | acquireWait (h : u.cancelled = false) :
      TaskStep s .keep (.acquireCancel payload rest) u (.acquirePermit payload rest) u
  | acquirePending : TaskStep s .keep (.acquirePermit payload rest) u (.acquireCancel payload rest) u
  | acquired : TaskStep s .take (.acquirePermit payload rest) u (.spawn payload rest) u
  | spawnCancelled (h : u.cancelled = true) :
      TaskStep s .give (.spawn payload rest) u (.abort .requested) u
  | spawnPart (h : u.cancelled = false) :
      TaskStep s .keep (.spawn payload rest) u (.fill rest)
        ({ u with inFlight := u.inFlight + 1 }.call (.part payload))
  -- `UploadWorker::complete`
  | completePut (hm : u.multipart = none) :
      TaskStep s .keep .complete u .putting (u.call (.put u.buffer))
  | putOk : TaskStep s .keep .putting u (.ended (.ok true)) (u.call (.stored u.buffer)).close
  | putFailed : TaskStep s .keep .putting u (.ended (.error .complete)) u.close
  -- `MultipartState::complete`, with `start_part` for the last part
  | completeFlush (hm : u.multipart = some buffer) (hne : buffer ≠ []) :
      TaskStep s .keep .complete u (.flushJoin buffer) { u with multipart := some [] }
  | completeFull (hm : u.multipart = some []) : TaskStep s .keep .complete u .joinAll u
  | flushOk (hle : s.maxInFlightParts ≤ u.unjoined) (h : u.finished[i]? = some true) :
      TaskStep s .keep (.flushJoin payload) u (.flushJoin payload)
        { u with finished := u.finished.eraseIdx i }
  | flushFailed (hle : s.maxInFlightParts ≤ u.unjoined) (h : u.finished[i]? = some false) :
      TaskStep s .keep (.flushJoin payload) u (.abort (.failed .complete))
        { u with finished := u.finished.eraseIdx i }
  | flushJoined (h : u.unjoined < s.maxInFlightParts) :
      TaskStep s .keep (.flushJoin payload) u (.flushAcquire payload) u
  | flushAcquired : TaskStep s .take (.flushAcquire payload) u (.flushSpawn payload) u
  | flushPart :
      TaskStep s .keep (.flushSpawn payload) u .joinAll
        ({ u with inFlight := u.inFlight + 1 }.call (.part payload))
  | joinAllOk (h : u.finished[i]? = some true) :
      TaskStep s .keep .joinAll u .joinAll { u with finished := u.finished.eraseIdx i }
  | joinAllFailed (h : u.finished[i]? = some false) :
      TaskStep s .keep .joinAll u (.abort (.failed .complete))
        { u with finished := u.finished.eraseIdx i }
  | joinedAll (h : u.unjoined = 0) : TaskStep s .keep .joinAll u .completing (u.call .complete)
  | completed : TaskStep s .keep .completing u (.ended (.ok true)) (u.call .completed).close
  | completeFailed : TaskStep s .keep .completing u (.abort (.failed .complete)) u
  -- `abort_multipart`: the part tasks are shut down before the store is told
  | abortNothing (hm : u.multipart = none) :
      TaskStep s .keep (.abort cause) u (.ended cause.aborted) u.close
  | abortParts (hm : u.multipart = some buffer) :
      TaskStep s .keep (.abort cause) u (.shutdown cause) { u with multipart := none }
  | shutdownPart (h : u.inFlight = n + 1) :
      TaskStep s .give (.shutdown cause) u (.shutdown cause) { u with inFlight := n }
  | shutdownJoin (h : u.finished[i]? = some ok) :
      TaskStep s .keep (.shutdown cause) u (.shutdown cause)
        { u with finished := u.finished.eraseIdx i }
  | shutdownDone (h : u.unjoined = 0) :
      TaskStep s .keep (.shutdown cause) u (.aborting cause) (u.call .abort)
  | aborted : TaskStep s .keep (.aborting cause) u (.ended cause.aborted) u.close
  | abortFailed :
      TaskStep s .keep (.aborting cause) u (.ended (.error cause.cleanupFailed)) u.close

/-- A part request ends; its task gives the permit back. -/
inductive PartStep : UploadState → UploadState → Prop
  | succeeded (h : u.inFlight = n + 1) :
      PartStep u { u with inFlight := n, finished := u.finished ++ [true] }
  | failed (h : u.inFlight = n + 1) :
      PartStep u ({ u with inFlight := n, finished := u.finished ++ [false] }.call .partFailed)

def Pc.isEnded : Pc → Bool
  | ended _ => true
  | _ => false

/-- The direct sender is dropped before the owner asks for anything. -/
def UploadState.OwnerReady (u : UploadState) : Prop :=
  u.owner = .held ∧ ∀ writer, u.writer = some writer → writer.kind ≠ .direct

inductive OwnerStep : Pc → UploadState → Pc → UploadState → Prop
  | start (h : u.owner = .held) (kind : WriterKind) :
      OwnerStep .unstarted u .pollTerminal
        { u with writer := some ⟨kind, []⟩, receiverOpen := true }
  -- without a task the owner runs the worker itself
  | completeUnstarted (h : u.owner = .held) :
      OwnerStep .unstarted u .complete { u with owner := .asked true }
  | releaseUnstarted (h : u.owner = .held) (how : Release) :
      OwnerStep .unstarted u (.ended (.ok false)) { u with owner := .released how }
  | complete (h : u.OwnerReady) (hpc : pc ≠ .unstarted) :
      OwnerStep pc u pc { u with owner := .asked (!pc.isEnded), terminal := .sent .complete }
  | cancel (h : u.OwnerReady) (hpc : pc ≠ .unstarted) (how : Release) :
      OwnerStep pc u pc { u with owner := .cancelled how, cancelled := true }
  | release (h : u.owner = .cancelled how) :
      OwnerStep pc u pc { u with owner := .released how, terminal := .sent .abort }

/-- The sender parks while more than one chunk is queued. Only the owner
itself writes through the direct sender. -/
inductive WriterStep (s : ObjectUploadSettings) : UploadState → UploadState → Prop
  | write (h : u.writer = some ⟨kind, []⟩) (ho : kind = .direct → u.owner = .held) (bytes : Bytes) :
      WriterStep s u { u with writer := some ⟨kind, kind.chunks s.partSize bytes⟩ }
  | send (h : u.writer = some ⟨kind, chunk :: pending⟩) (hopen : u.receiverOpen = true)
      (hq : u.queue.length ≤ 1) :
      WriterStep s u
        { u with
          writer := some ⟨kind, pending⟩
          queue := u.queue ++ [chunk]
          accepted := u.accepted ++ [chunk] }
  | sendFailed (h : u.writer = some ⟨kind, chunk :: pending⟩) (hopen : u.receiverOpen = false) :
      WriterStep s u { u with writer := some ⟨kind, []⟩ }
  | giveUp (h : u.writer = some ⟨kind, pending⟩) :
      WriterStep s u { u with writer := some ⟨kind, []⟩ }
  | drop : WriterStep s u { u with writer := none }

inductive UploadStep (s : ObjectUploadSettings) :
    Permit → Pc → UploadState → Pc → UploadState → Prop
  | task (h : TaskStep s permit pc u pc' u') : UploadStep s permit pc u pc' u'
  | part (h : PartStep u u') : UploadStep s .give pc u pc u'
  | owner (h : OwnerStep pc u pc' u') : UploadStep s .keep pc u pc' u'
  | writer (h : WriterStep s u u') : UploadStep s .keep pc u pc u'

-- ---------------------------------------------------------------------------
-- A session
-- ---------------------------------------------------------------------------

structure ObjectUpload where
  pc : Pc
  state : UploadState
  deriving DecidableEq

def ObjectUpload.new : ObjectUpload := ⟨.unstarted, .new⟩

/-- The uploads of one storage session, and the permits that are left. -/
structure Session where
  permits : Nat
  uploads : List ObjectUpload
  deriving DecidableEq

def Session.new (s : ObjectUploadSettings) : Session := ⟨s.maxInFlightParts, []⟩

def Permit.apply : Permit → Nat → Option Nat
  | keep, permits => some permits
  | take, 0 => none
  | take, permits + 1 => some permits
  | give, permits => some (permits + 1)

inductive SessionStep (s : ObjectUploadSettings) : Session → Session → Prop
  | new : SessionStep s session { session with uploads := session.uploads ++ [.new] }
  | upload (h : session.uploads[i]? = some ⟨pc, u⟩) (step : UploadStep s permit pc u pc' u')
      (hp : permit.apply session.permits = some permits) :
      SessionStep s session ⟨permits, session.uploads.set i ⟨pc', u'⟩⟩

/-- The sessions that any number of uploads can get to in any interleaving. -/
def Session.Reachable (s : ObjectUploadSettings) (session : Session) : Prop :=
  Relation.ReflTransGen (SessionStep s) (Session.new s) session

-- ---------------------------------------------------------------------------
-- Results
-- ---------------------------------------------------------------------------

def completeResult (terminalSent : Bool) :
    Except ObjectUploadError Bool → Except ObjectUploadError Unit
  | .error e => .error e
  | .ok durable => if terminalSent && durable then .ok () else .error .complete

def ObjectUpload.completed (upload : ObjectUpload) : Option (Except ObjectUploadError Unit) :=
  match upload.state.owner, upload.pc with
  | .asked terminalSent, .ended result => some (completeResult terminalSent result)
  | _, _ => none

def Call.payload? : Call → Option Bytes
  | part payload => some payload
  | _ => none

def parts (log : List Call) : List Bytes := log.filterMap Call.payload?

/-- The object a log leaves behind: of a single put that succeeded, or of a
multipart upload that was completed. -/
def storedObject (log : List Call) : Option Bytes :=
  if .completed ∈ log then some (parts log).flatten
  else log.findSome? fun
    | .stored payload => some payload
    | _ => none

-- ---------------------------------------------------------------------------
-- A run
-- ---------------------------------------------------------------------------

theorem path_only (h : Relation.ReflTransGen (SessionStep s) session ⟨permits, [⟨pc, u⟩]⟩)
    (step : UploadStep s permit pc u pc' u') (hp : permit.apply permits = some permits') :
    Relation.ReflTransGen (SessionStep s) session ⟨permits', [⟨pc', u'⟩]⟩ :=
  h.tail (.upload (i := 0) rfl step hp)

def twoByteParts : ObjectUploadSettings := ⟨2, 1, by decide, Nat.one_pos⟩

theorem kibibyte_pos : 0 < 1024 := by decide

def kibibyteParts : ObjectUploadSettings := ⟨1024, 1, kibibyte_pos, Nat.one_pos⟩

/-- Two chunks were written, and the owner asks for the object while the first
part is in flight and the second chunk is queued. -/
def askedUpload : ObjectUpload where
  pc := .pollTerminal
  state :=
    { UploadState.new with
      owner := .asked true
      terminal := .sent .complete
      receiverOpen := true
      queue := [[3]]
      multipart := some []
      inFlight := 1
      accepted := [[1, 2], [3]]
      log := [.created, .part [1, 2]] }

def twoPartUpload : ObjectUpload where
  pc := .ended (.ok true)
  state :=
    { UploadState.new with
      owner := .asked true
      terminal := .taken
      multipart := some []
      accepted := [[1, 2], [3]]
      log := [.created, .part [1, 2], .part [3], .complete, .completed] }

theorem askedUpload_reachable : Session.Reachable twoByteParts ⟨0, [askedUpload]⟩ := by
  have h : Session.Reachable twoByteParts ⟨1, [.new]⟩ := .tail .refl .new
  have h := path_only h (.owner (.start rfl .sink)) rfl
  have h := path_only h (.writer (.write (show _ = some (Writer.mk .sink []) from rfl) nofun [1, 2])) rfl
  have h := path_only h (.writer (.send rfl rfl (by decide))) rfl
  have h := path_only h (.task (.terminalPending rfl)) rfl
  have h := path_only h (.task (.receive rfl)) rfl
  have h := path_only h (.task (.writeCreate rfl rfl (by decide))) rfl
  have h := path_only h (.task .created) rfl
  have h := path_only h (.task (.createdGo rfl)) rfl
  have h := path_only h (.task .fillNext) rfl
  have h := path_only h (.task (.fillPart nofun rfl rfl (by decide))) rfl
  have h := path_only h (.task (.joinDone (by decide))) rfl
  have h := path_only h (.task (.joinedGo rfl)) rfl
  have h := path_only h (.task (.acquireWait rfl)) rfl
  have h := path_only h (.task .acquired) rfl
  have h := path_only h (.task (.spawnPart rfl)) rfl
  have h := path_only h (.task .fillDone) rfl
  have h := path_only h (.writer (.write (show _ = some (Writer.mk .sink []) from rfl) nofun [3])) rfl
  have h := path_only h (.writer (.send rfl rfl (by decide))) rfl
  have h := path_only h (.writer .drop) rfl
  exact path_only h (.owner (.complete ⟨rfl, nofun⟩ nofun)) rfl

theorem askedUpload_completes :
    Relation.ReflTransGen (SessionStep twoByteParts) ⟨0, [askedUpload]⟩ ⟨1, [twoPartUpload]⟩ := by
  have h : Relation.ReflTransGen (SessionStep twoByteParts) ⟨0, [askedUpload]⟩ ⟨0, [askedUpload]⟩ := .refl
  have h := path_only h (.task (.takeComplete rfl)) rfl
  have h := path_only h (.task .close) rfl
  have h := path_only h (.task (.drainNext rfl)) rfl
  have h := path_only h (.task (.writeMultipart rfl rfl)) rfl
  have h := path_only h (.task (.fillSome nofun rfl rfl (by decide))) rfl
  have h := path_only h (.task .fillDone) rfl
  have h := path_only h (.task (.drained rfl)) rfl
  have h := path_only h (.task (.completeFlush rfl nofun)) rfl
  have h := path_only h (.part (.succeeded rfl)) rfl
  have h := path_only h (.task (.flushOk (i := 0) (by decide) rfl)) rfl
  have h := path_only h (.task (.flushJoined (by decide))) rfl
  have h := path_only h (.task .flushAcquired) rfl
  have h := path_only h (.task .flushPart) rfl
  have h := path_only h (.part (.succeeded rfl)) rfl
  have h := path_only h (.task (.joinAllOk (i := 0) rfl)) rfl
  have h := path_only h (.task (.joinedAll rfl)) rfl
  exact path_only h (.task .completed) rfl

theorem twoPartUpload_reachable : Session.Reachable twoByteParts ⟨1, [twoPartUpload]⟩ :=
  askedUpload_reachable.trans askedUpload_completes

end SilkChiffon.Storage
