import Mathlib.Algebra.GroupWithZero.Nat
import SilkChiffon.Lib.Trace
import SilkChiffon.Storage.Upload

/-!
# The life of an upload

What holds of the store calls of every upload, whatever the interleaving: the
permits bound the parts in flight, and a created multipart upload is ended
once. `Recorded` says, for each point of the task, which calls can have been
made by then.
-/

namespace SilkChiffon.Storage

-- ---------------------------------------------------------------------------
-- Permits
-- ---------------------------------------------------------------------------

/-- A permit that was acquired and not yet moved into a part task. -/
def Pc.holdsPermit : Pc → Nat
  | spawn _ _ => 1
  | flushSpawn _ => 1
  | _ => 0

def ObjectUpload.held (upload : ObjectUpload) : Nat :=
  upload.state.inFlight + upload.pc.holdsPermit

def Session.held (session : Session) : Nat := (session.uploads.map ObjectUpload.held).sum

@[simp] theorem loop_holdsPermit (origin : Origin) : origin.loop.holdsPermit = 0 := by
  cases origin <;> rfl

def Permit.Balances (permit : Permit) (held held' : Nat) : Prop :=
  match permit with
  | .keep => held' = held
  | .take => held' = held + 1
  | .give => held' + 1 = held

theorem taskStep_balances (h : TaskStep s permit pc u pc' u') :
    permit.Balances (ObjectUpload.held ⟨pc, u⟩) (ObjectUpload.held ⟨pc', u'⟩) := by
  cases h with
  | writeBuffered | fillDone => exact congrArg (u.inFlight + ·) (loop_holdsPermit _)
  | shutdownPart hn => exact (congrArg (· + 0) hn).symm
  | spawnPart | flushPart => exact Nat.add_right_comm ..
  | _ => rfl

theorem uploadStep_balances (h : UploadStep s permit pc u pc' u') :
    permit.Balances (ObjectUpload.held ⟨pc, u⟩) (ObjectUpload.held ⟨pc', u'⟩) := by
  cases h with
  | task h => exact taskStep_balances h
  | part h =>
    cases h with
    | succeeded hn => simp only [Permit.Balances, ObjectUpload.held, hn]; omega
    | failed hn => simp only [Permit.Balances, ObjectUpload.held, UploadState.call, hn]; omega
  | owner h => cases h <;> rfl
  | writer h => cases h <;> rfl

theorem Permit.Balances.total {permit : Permit} (h : permit.Balances held held')
    (hp : permit.apply left = some left') : left' + held' = left + held := by
  cases permit with
  | keep =>
    obtain rfl := Option.some.inj hp
    exact congrArg (left + ·) h
  | take =>
    cases left with
    | zero => cases hp
    | succ left =>
      obtain rfl := Option.some.inj hp
      rw [show held' = held + 1 from h, Nat.add_right_comm, Nat.add_assoc]
  | give =>
    obtain rfl := Option.some.inj hp
    rw [← show held' + 1 = held from h, Nat.add_right_comm, Nat.add_assoc]

theorem sessionStep_permits (h : SessionStep s session session') :
    session'.permits + session'.held = session.permits + session.held := by
  cases h with
  | new => simp [Session.held, ObjectUpload.held, ObjectUpload.new, UploadState.new, Pc.holdsPermit]
  | upload h step hp =>
    obtain ⟨before, after, hsplit, -, hset, -⟩ := Lists.split_at h
    have htotal := (uploadStep_balances step).total hp
    rw [Session.held, Session.held, hset, hsplit]
    simp only [List.map_append, List.map_cons, List.sum_append, List.sum_cons]
    omega

theorem reachable_permits (h : Session.Reachable s session) :
    session.permits + session.held = s.maxInFlightParts := by
  induction h with
  | refl => rfl
  | tail _ step ih => rw [sessionStep_permits step, ih]

def Session.inFlight (session : Session) : Nat := (session.uploads.map (·.state.inFlight)).sum

theorem inFlight_le_held (session : Session) : session.inFlight ≤ session.held := by
  unfold Session.inFlight Session.held
  induction session.uploads with
  | nil => exact Nat.le_refl _
  | cons upload uploads ih => exact Nat.add_le_add (Nat.le_add_right ..) ih

-- ---------------------------------------------------------------------------
-- The calls made so far
-- ---------------------------------------------------------------------------

def Call.isEnding : Call → Bool
  | completed => true
  | abort => true
  | _ => false

def endings (log : List Call) : Nat := log.countP Call.isEnding

def Orderly (before : List Call) : Call → Prop
  | .created => before = []
  | .part _ => .created ∈ before ∧ .abort ∉ before
  | .complete => .created ∈ before ∧ .abort ∉ before ∧ .partFailed ∉ before
  | .abort => .created ∈ before
  | _ => True

structure StoreView where
  log : List Call
  multipart : Option Bytes
  inFlight : Nat
  finished : List Bool

def UploadState.view (u : UploadState) : StoreView := ⟨u.log, u.multipart, u.inFlight, u.finished⟩

structure Untouched (v : StoreView) : Prop where
  log : v.log = []
  multipart : v.multipart = none
  inFlight : v.inFlight = 0

/-- A multipart upload is created and can still be completed: a part that
failed is waiting to be joined. -/
structure Unfinished (v : StoreView) : Prop where
  created : .created ∈ v.log
  multipart : v.multipart ≠ none
  endings : endings v.log = 0
  observed : .partFailed ∈ v.log → false ∈ v.finished

structure Doomed (v : StoreView) : Prop where
  created : .created ∈ v.log
  endings : endings v.log = 0

structure Settled (v : StoreView) : Prop where
  endings : endings v.log = if .created ∈ v.log then 1 else 0
  inFlight : v.inFlight = 0

/-- What the task has asked of the store by the time it is at `pc`. -/
def Recorded (v : StoreView) : Pc → Prop
  | .unstarted => Untouched v
  | .creating _ _ => Untouched v
  | .pollTerminal => Untouched v ∨ Unfinished v
  | .pollBytes => Untouched v ∨ Unfinished v
  | .close => Untouched v ∨ Unfinished v
  | .drain => Untouched v ∨ Unfinished v
  | .awaitTerminal => Untouched v ∨ Unfinished v
  | .write _ _ => Untouched v ∨ Unfinished v
  | .complete => Untouched v ∨ Unfinished v
  | .putting => .created ∉ v.log ∧ endings v.log = 0 ∧ v.inFlight = 0
  | .completing => Unfinished v ∧ v.inFlight = 0
  | .abort _ => Untouched v ∨ Doomed v ∧ v.multipart ≠ none
  | .shutdown _ => Doomed v
  | .aborting _ => Settled v
  | .ended _ => Settled v
  | _ => Unfinished v

theorem endings_snoc (log : List Call) (c : Call) :
    endings (log ++ [c]) = endings log + if c.isEnding then 1 else 0 := by
  simp [endings, List.countP_append, List.countP_cons]

theorem abort_not_mem (h : endings log = 0) : .abort ∉ log := by
  intro hmem
  exact List.countP_eq_zero.mp h _ hmem rfl

theorem Untouched.settled (h : Untouched v) : Settled v := by
  refine ⟨?_, h.inFlight⟩
  rw [h.log]
  rfl

theorem Unfinished.doomed (h : Unfinished v) : Doomed v := ⟨h.created, h.endings⟩

theorem Unfinished.call (h : Unfinished v) (hc : c.isEnding = false) (hp : c ≠ .partFailed) :
    Unfinished ⟨v.log ++ [c], v.multipart, inFlight, v.finished⟩ where
  created := List.mem_append_left _ h.created
  multipart := h.multipart
  endings := by simp [endings_snoc, h.endings, hc]
  observed hmem := by
    refine h.observed ?_
    simpa [Ne.symm hp] using hmem

theorem Unfinished.joined (h : Unfinished v) (hi : v.finished[i]? = some true) :
    Unfinished { v with finished := v.finished.eraseIdx i } := by
  refine ⟨h.created, h.multipart, h.endings, fun hf => ?_⟩
  obtain ⟨before, after, hsplit, -, -, herase⟩ := Lists.split_at hi
  have hobserved := h.observed hf
  rw [hsplit] at hobserved
  simpa [herase] using hobserved

/-- The one call that ends a created upload. -/
theorem Doomed.ended (h : Doomed v) (hc : c.isEnding = true) (hzero : v.inFlight = 0) :
    Settled { v with log := v.log ++ [c] } := by
  refine ⟨?_, hzero⟩
  simp [endings_snoc, h.endings, h.created, hc]

theorem recorded_loop (origin : Origin) (h : Untouched v ∨ Unfinished v) :
    Recorded v origin.loop := by
  cases origin <;> exact h

theorem Unfinished.abort (h : Unfinished v) : Untouched v ∨ Doomed v ∧ v.multipart ≠ none :=
  .inr ⟨h.doomed, h.multipart⟩

/-- A chunk goes to the multipart upload exactly when there is one. -/
theorem untouched_of_single (h : Untouched v ∨ Unfinished v) (hm : v.multipart = none) :
    Untouched v := h.resolve_right fun h => h.multipart hm

theorem unfinished_of_multipart (h : Untouched v ∨ Unfinished v) (hm : v.multipart = some buffer) :
    Unfinished v := by
  refine h.resolve_left fun h => ?_
  rw [h.multipart] at hm
  cases hm

theorem taskStep_recorded (h : TaskStep s permit pc u pc' u') (hr : Recorded u.view pc) :
    Recorded u'.view pc' := by
  cases h with
  | takeAbort | awaitAbort | writeCancelled => exact hr.elim .inl fun h => h.abort
  | takeComplete | terminalPending | receive | bytesEnded | bytesPending | awaitComplete | close
  | drainNext | drained => exact hr
  | writeBuffered => exact recorded_loop _ hr
  | fillDone => exact recorded_loop _ (.inr hr)
  | writeCreate _ hm => exact untouched_of_single hr hm
  | writeMultipart _ hm => exact unfinished_of_multipart hr hm
  | createFailed => exact hr.settled
  | created =>
    have hlog : u.log = [] := hr.log
    exact ⟨by simp [UploadState.view, UploadState.call], by simp [UploadState.view, UploadState.call],
      by simp [UploadState.view, UploadState.call, hlog, endings, Call.isEnding],
      by simp [UploadState.view, UploadState.call, hlog]⟩
  | createdCancelled | fillCancelled | joinCancelled | joinedCancelled | acquireCancelled
  | spawnCancelled => exact hr.abort
  | createdGo | fillNext | joinDone | joinWait | joinPending | joinedGo | acquireWait
  | acquirePending | acquired | flushJoined | flushAcquired => exact hr
  | fillSome | fillPart => exact ⟨hr.created, by simp [UploadState.view], hr.endings, hr.observed⟩
  | joinOk h | joinAllOk h | flushOk _ h => exact hr.joined h
  | joinFailed | flushFailed | joinAllFailed =>
    exact .inr ⟨⟨hr.created, hr.endings⟩, hr.multipart⟩
  | spawnPart | flushPart => exact Unfinished.call (c := .part _) hr rfl (by simp)
  | completePut hm =>
    have hnone := untouched_of_single hr hm
    have hlog : u.log = [] := hnone.log
    exact ⟨by simp [UploadState.view, UploadState.call, hlog],
      by simp [UploadState.view, UploadState.call, hlog, endings, Call.isEnding], hnone.inFlight⟩
  | putOk =>
    obtain ⟨hcreated, hnone, hzero⟩ := hr
    refine ⟨?_, hzero⟩
    simp_all [UploadState.view, UploadState.call, UploadState.close, endings_snoc, Call.isEnding]
  | putFailed =>
    obtain ⟨hcreated, hnone, hzero⟩ := hr
    exact ⟨by simp_all [UploadState.view, UploadState.close], hzero⟩
  | completeFlush hm =>
    have h := unfinished_of_multipart hr hm
    exact ⟨h.created, by simp [UploadState.view], h.endings, h.observed⟩
  | completeFull hm => exact unfinished_of_multipart hr hm
  | joinedAll hzero => exact ⟨hr.call rfl (by simp), (Nat.add_eq_zero_iff.mp hzero).1⟩
  | completed => exact hr.1.doomed.ended rfl hr.2
  | completeFailed => exact hr.1.abort
  | abortNothing hm =>
    rcases hr with h | ⟨_, hne⟩
    · exact h.settled
    · exact absurd hm hne
  | abortParts hm =>
    rcases hr with h | ⟨h, _⟩
    · exact absurd (h.multipart.symm.trans hm) (by simp)
    · exact ⟨h.created, h.endings⟩
  | shutdownPart | shutdownJoin => exact ⟨hr.created, hr.endings⟩
  | shutdownDone hzero => exact hr.ended rfl (Nat.add_eq_zero_iff.mp hzero).1
  | aborted | abortFailed => exact hr

theorem partStep_inFlight (h : PartStep u u') : u.view.inFlight ≠ 0 := by
  cases h with
  | succeeded hn => exact ne_of_eq_of_ne hn (Nat.succ_ne_zero _)
  | failed hn => exact ne_of_eq_of_ne hn (Nat.succ_ne_zero _)

theorem partStep_unfinished (h : PartStep u u') (hu : Unfinished u.view) : Unfinished u'.view := by
  obtain ⟨hcreated, hmultipart, hendings, hobserved⟩ := hu
  cases h with
  | succeeded =>
    exact ⟨hcreated, hmultipart, hendings, fun hf => List.mem_append_left _ (hobserved hf)⟩
  | failed =>
    refine ⟨List.mem_append_left _ hcreated, hmultipart, (endings_snoc ..).trans hendings, ?_⟩
    exact fun _ => List.mem_append_right _ (.head _)

theorem partStep_doomed (h : PartStep u u') (hd : Doomed u.view) : Doomed u'.view := by
  cases h with
  | succeeded => exact ⟨hd.created, hd.endings⟩
  | failed => exact ⟨List.mem_append_left _ hd.created, (endings_snoc ..).trans hd.endings⟩

theorem partStep_multipart (h : PartStep u u') : u'.view.multipart = u.view.multipart := by
  cases h <;> rfl

theorem partStep_recorded (h : PartStep u u') (hr : Recorded u.view pc) : Recorded u'.view pc := by
  have hbusy := partStep_inFlight h
  cases pc with
  | unstarted | creating => exact absurd hr.inFlight hbusy
  | pollTerminal | pollBytes | close | drain | awaitTerminal | write | complete =>
    exact .inr (partStep_unfinished h (hr.resolve_left fun hu => hbusy hu.inFlight))
  | putting => exact absurd hr.2.2 hbusy
  | completing => exact absurd hr.2 hbusy
  | abort =>
    obtain ⟨hd, hm⟩ := hr.resolve_left fun hu => hbusy hu.inFlight
    exact .inr ⟨partStep_doomed h hd, by rwa [partStep_multipart h]⟩
  | shutdown => exact partStep_doomed h hr
  | aborting | ended => exact absurd hr.inFlight hbusy
  | _ => exact partStep_unfinished h hr

theorem ownerStep_recorded (h : OwnerStep pc u pc' u') (hr : Recorded u.view pc) :
    Recorded u'.view pc' := by
  cases h with
  | start | completeUnstarted => exact .inl hr
  | releaseUnstarted => exact hr.settled
  | complete | cancel | release => exact hr

theorem uploadStep_recorded (h : UploadStep s permit pc u pc' u') (hr : Recorded u.view pc) :
    Recorded u'.view pc' := by
  cases h with
  | task h => exact taskStep_recorded h hr
  | part h => exact partStep_recorded h hr
  | owner h => exact ownerStep_recorded h hr
  | writer h => cases h <;> exact hr

-- ---------------------------------------------------------------------------
-- The order of the calls
-- ---------------------------------------------------------------------------

/-- The task completes a multipart upload only after every part has been
joined, and starts no part once the upload was aborted. -/
theorem taskStep_orderly (h : TaskStep s permit pc u pc' u') (hr : Recorded u.view pc)
    (ho : Throughout Orderly u.log) : Throughout Orderly u'.log := by
  cases h with
  | completePut | putOk | completed => exact ho.snoc trivial
  | created => exact ho.snoc hr.log
  | shutdownDone => exact ho.snoc hr.created
  | spawnPart | flushPart => exact ho.snoc ⟨hr.created, abort_not_mem hr.endings⟩
  | joinedAll hzero =>
    have hfinished : u.finished = [] := List.length_eq_zero_iff.mp (Nat.add_eq_zero_iff.mp hzero).2
    refine ho.snoc ⟨hr.created, abort_not_mem hr.endings, fun hfailed => ?_⟩
    have hunjoined : false ∈ u.finished := hr.observed hfailed
    rw [hfinished] at hunjoined
    cases hunjoined
  | _ => exact ho

theorem uploadStep_orderly (h : UploadStep s permit pc u pc' u') (hr : Recorded u.view pc)
    (ho : Throughout Orderly u.log) : Throughout Orderly u'.log := by
  cases h with
  | task h => exact taskStep_orderly h hr ho
  | part h =>
    cases h with
    | succeeded => exact ho
    | failed => exact ho.snoc trivial
  | owner h => cases h <;> exact ho
  | writer h => cases h <;> exact ho

-- ---------------------------------------------------------------------------
-- Who asked for the object
-- ---------------------------------------------------------------------------

def Call.stores : Call → Bool
  | put _ => true
  | stored _ => true
  | complete => true
  | completed => true
  | _ => false

/-- The points the task gets to by taking `TerminalAction::Complete`. -/
def Pc.completes : Pc → Bool
  | .close => true
  | .drain => true
  | .write origin _ => origin = .draining
  | .creating origin _ => origin = .draining
  | .created origin _ => origin = .draining
  | .fill rest => rest.origin = .draining
  | .joinCancel _ rest => rest.origin = .draining
  | .joinPart _ rest => rest.origin = .draining
  | .joined _ rest => rest.origin = .draining
  | .acquireCancel _ rest => rest.origin = .draining
  | .acquirePermit _ rest => rest.origin = .draining
  | .spawn _ rest => rest.origin = .draining
  | .complete => true
  | .putting => true
  | .flushJoin _ => true
  | .flushAcquire _ => true
  | .flushSpawn _ => true
  | .joinAll => true
  | .completing => true
  | _ => false

def Owner.hasAsked : Owner → Bool
  | asked _ => true
  | _ => false

def ObjectUpload.Committed (upload : ObjectUpload) : Prop :=
  upload.pc.completes = true ∨ upload.state.terminal = .sent .complete ∨
    ∃ c ∈ upload.state.log, c.stores = true

@[simp] theorem loop_completes (origin : Origin) :
    origin.loop.completes = decide (origin = .draining) := by
  cases origin <;> rfl

theorem call_committed (hc : c.stores = false) (h : ObjectUpload.Committed ⟨pc, u.call c⟩) :
    ObjectUpload.Committed ⟨pc, u⟩ := by
  rcases h with h | h | ⟨c', hmem, hstores⟩
  · exact .inl h
  · exact .inr (.inl h)
  · rcases List.mem_append.mp hmem with hmem | hmem
    · exact .inr (.inr ⟨c', hmem, hstores⟩)
    · rw [List.mem_singleton.mp hmem, hc] at hstores
      cases hstores

theorem idle_committed (hpc : pc'.completes = false) (h : ObjectUpload.Committed ⟨pc', u⟩) :
    ObjectUpload.Committed ⟨pc, u⟩ := by
  refine .inr (h.resolve_left ?_)
  rw [hpc]
  exact Bool.false_ne_true

theorem taskStep_committed (h : TaskStep s permit pc u pc' u')
    (hc : ObjectUpload.Committed ⟨pc', u'⟩) : ObjectUpload.Committed ⟨pc, u⟩ := by
  cases h with
  | takeComplete h | awaitComplete h => exact .inr (.inl h)
  | takeAbort | awaitAbort =>
    rcases hc with hc | hc | hc
    · cases hc
    · cases hc
    · exact .inr (.inr hc)
  | writeCancelled | createFailed | createdCancelled | fillCancelled | joinCancelled | joinFailed
  | joinedCancelled | acquireCancelled | spawnCancelled | abortNothing | abortParts | aborted
  | abortFailed => exact idle_committed rfl hc
  | writeBuffered | fillDone =>
    exact hc.imp_left fun h => (loop_completes _).symm.trans h
  | created | spawnPart => exact call_committed rfl hc
  | shutdownDone => exact call_committed rfl (idle_committed rfl hc)
  | drained | completePut | putOk | putFailed | completeFlush | completeFull | flushOk | flushFailed
  | flushJoined | flushAcquired | flushPart | joinAllOk | joinAllFailed | joinedAll | completed
  | completeFailed => exact .inl rfl
  | _ => exact hc

theorem taskStep_owner (h : TaskStep s permit pc u pc' u') : u'.owner = u.owner := by
  cases h <;> rfl

theorem uncommitted (ha : ObjectUpload.Committed ⟨pc, u⟩ → u.owner.hasAsked = true)
    (ho : u.owner.hasAsked = false) : ¬ ObjectUpload.Committed ⟨pc, u⟩ := fun hc =>
  Bool.false_ne_true (ho.symm.trans (ha hc))

theorem uploadStep_asked (h : UploadStep s permit pc u pc' u')
    (ha : ObjectUpload.Committed ⟨pc, u⟩ → u.owner.hasAsked = true)
    (hc : ObjectUpload.Committed ⟨pc', u'⟩) : u'.owner.hasAsked = true := by
  cases h with
  | task h =>
    rw [taskStep_owner h]
    exact ha (taskStep_committed h hc)
  | part h =>
    cases h with
    | succeeded => exact ha hc
    | failed => exact ha (call_committed rfl hc)
  | owner h =>
    cases h with
    | start => exact ha (idle_committed rfl hc)
    | completeUnstarted | complete => rfl
    | releaseUnstarted ho =>
      have hidle := uncommitted ha (congrArg Owner.hasAsked ho)
      exact absurd (idle_committed rfl hc) hidle
    | cancel ho =>
      have hidle := uncommitted ha (congrArg Owner.hasAsked ho.1)
      exact absurd hc hidle
    | release ho =>
      have hidle := uncommitted ha (congrArg Owner.hasAsked ho)
      rcases hc with hc | hc | hc
      · exact absurd (.inl hc) hidle
      · cases hc
      · exact absurd (.inr (.inr hc)) hidle
  | writer h => cases h <;> exact ha hc

-- ---------------------------------------------------------------------------
-- Every interleaving
-- ---------------------------------------------------------------------------

/-- What every step of an upload preserves holds of all the uploads of a
session. -/
theorem reachable_uploads {Inv : ObjectUpload → Prop} (hnew : Inv .new)
    (hstep : ∀ permit pc u pc' u', Inv ⟨pc, u⟩ → UploadStep s permit pc u pc' u' → Inv ⟨pc', u'⟩)
    (h : Session.Reachable s session) : ∀ upload ∈ session.uploads, Inv upload := by
  induction h with
  | refl => exact fun _ hmem => nomatch hmem
  | tail _ step ih =>
    cases step with
    | new =>
      intro upload hmem
      rcases List.mem_append.mp hmem with hmem | hmem
      · exact ih upload hmem
      · exact List.mem_singleton.mp hmem ▸ hnew
    | upload h step hp =>
      intro upload hmem
      rcases List.mem_or_eq_of_mem_set hmem with hmem | rfl
      · exact ih upload hmem
      · exact hstep _ _ _ _ _ (ih _ (List.mem_of_getElem? h)) step

structure Lifecycle (upload : ObjectUpload) : Prop where
  recorded : Recorded upload.state.view upload.pc
  orderly : Throughout Orderly upload.state.log
  asked : upload.Committed → upload.state.owner.hasAsked = true

theorem lifecycle_new : Lifecycle .new where
  recorded := ⟨rfl, rfl, rfl⟩
  orderly := Throughout.nil
  asked h := by
    rcases h with h | h | ⟨c, hmem, -⟩
    · cases h
    · cases h
    · cases hmem

theorem reachable_lifecycle (h : Session.Reachable s session) :
    ∀ upload ∈ session.uploads, Lifecycle upload :=
  reachable_uploads lifecycle_new (fun _ _ _ _ _ hi step =>
    ⟨uploadStep_recorded step hi.recorded, uploadStep_orderly step hi.recorded hi.orderly,
      uploadStep_asked step hi.asked⟩) h

theorem Recorded.endings_le (h : Recorded v pc) : endings v.log ≤ 1 := by
  have huntouched : Untouched v → endings v.log ≤ 1 := fun hu => by simp [hu.log, endings]
  have hsettled : Settled v → endings v.log ≤ 1 := fun hs => by rw [hs.endings]; split <;> decide
  cases pc with
  | unstarted | creating => exact huntouched h
  | pollTerminal | pollBytes | close | drain | awaitTerminal | write | complete =>
    exact h.elim huntouched fun hu => hu.endings ▸ Nat.zero_le 1
  | putting => exact h.2.1 ▸ Nat.zero_le 1
  | completing => exact h.1.endings ▸ Nat.zero_le 1
  | abort => exact h.elim huntouched fun hd => hd.1.endings ▸ Nat.zero_le 1
  | aborting | ended => exact hsettled h
  | _ => exact h.endings ▸ Nat.zero_le 1

theorem Recorded.ended (h : Recorded v pc) (hended : pc.isEnded = true) :
    endings v.log = if .created ∈ v.log then 1 else 0 := by
  cases pc with
  | ended => exact h.endings
  | _ => cases hended

end SilkChiffon.Storage
