import Mathlib.Data.Prod.Lex
import SilkChiffon.Lib.Liveness
import SilkChiffon.Storage.Lifecycle

/-!
# Uploads come to an end

Once its owner has let go of it, every step of an upload's task and of its
part requests leaves less to do, but for a task that looks again at what it
waits for: a part request or a permit. Requests end and permits come back, so
the upload is over in the end, and a multipart upload it created is ended.
-/

namespace SilkChiffon.Storage

open Liveness

-- ---------------------------------------------------------------------------
-- What the task can rely on
-- ---------------------------------------------------------------------------

/-- The owner has asked for the object, or told the task to give it up. -/
def Owner.letGo : Owner → Bool
  | asked _ => true
  | released _ => true
  | _ => false

def Origin.stage : Origin → Nat
  | polling => 13
  | draining => 10

def Pc.stage : Pc → Nat
  | unstarted => 15
  | pollBytes => 14
  | write origin _ => origin.stage
  | creating origin _ => origin.stage
  | created origin _ => origin.stage
  | fill rest => rest.origin.stage
  | joinCancel _ rest => rest.origin.stage
  | joinPart _ rest => rest.origin.stage
  | joined _ rest => rest.origin.stage
  | acquireCancel _ rest => rest.origin.stage
  | acquirePermit _ rest => rest.origin.stage
  | spawn _ rest => rest.origin.stage
  | pollTerminal => 12
  | awaitTerminal => 12
  | close => 11
  | drain => 10
  | complete => 9
  | flushJoin _ => 8
  | flushAcquire _ => 7
  | flushSpawn _ => 6
  | joinAll => 5
  | putting => 4
  | completing => 4
  | abort _ => 3
  | shutdown _ => 2
  | aborting _ => 1
  | ended _ => 0

theorem Origin.stage_gt (origin : Origin) : 9 < origin.stage := by
  cases origin <;> decide

theorem loop_drains (origin : Origin) : origin.loop.stage = 10 ↔ origin.stage = 10 := by
  cases origin <;> decide

theorem loop_listens (origin : Origin) : 12 ≤ origin.loop.stage ↔ 12 ≤ origin.stage := by
  cases origin <;> decide

theorem loop_polls (origin : Origin) :
    origin.loop ≠ .unstarted ∧ ∀ payload rest, origin.loop ≠ .joinPart payload rest := by
  cases origin <;> exact ⟨nofun, nofun⟩

/-- A part is shorter than a part until it is cut, a task that joins has parts
to join, a draining task has closed the channel, and one that polls on behalf of
an owner that let go will find the terminal action. -/
structure Going (s : ObjectUploadSettings) (pc : Pc) (u : UploadState) : Prop where
  short : ∀ buffer, u.multipart = some buffer → buffer.length < s.partSize
  joining : ∀ payload rest, pc = .joinPart payload rest → s.maxInFlightParts ≤ u.unjoined
  shut : pc.stage = 10 → u.receiverOpen = false
  started : pc = .unstarted → u.owner = .held
  told : u.owner.letGo = true → 12 ≤ pc.stage → ∃ action, u.terminal = .sent action

theorem taskStep_short (h : TaskStep s permit pc u pc' u')
    (hs : ∀ buffer, u.multipart = some buffer → buffer.length < s.partSize) :
    ∀ buffer, u'.multipart = some buffer → buffer.length < s.partSize := by
  cases h with
  | created | fillPart | completeFlush =>
    rintro _ ⟨rfl⟩
    exact s.partSize_pos
  | fillSome _ _ _ hlt =>
    rintro _ ⟨rfl⟩
    rwa [List.length_append]
  | abortParts => exact nofun
  | _ => exact hs

theorem taskStep_joining (h : TaskStep s permit pc u pc' u') :
    ∀ payload rest, pc' = .joinPart payload rest → s.maxInFlightParts ≤ u'.unjoined := by
  cases h with
  | joinWait hle => exact fun _ _ _ => hle
  | writeBuffered | fillDone => exact fun _ _ h => absurd h ((loop_polls _).2 _ _)
  | _ => exact nofun

theorem taskStep_shut (h : TaskStep s permit pc u pc' u') (hs : pc.stage = 10 → u.receiverOpen = false) :
    pc'.stage = 10 → u'.receiverOpen = false := by
  cases h with
  | close => exact fun _ => rfl
  | drainNext => exact fun _ => hs rfl
  | writeBuffered | fillDone => exact fun h => hs ((loop_drains _).mp h)
  | writeCreate | writeMultipart | created | createdGo | fillNext | fillSome | fillPart | joinDone
  | joinWait | joinOk | joinPending | joinedGo | acquireWait | acquirePending | acquired | spawnPart => exact hs
  | _ => exact fun h => absurd h (by simp [Pc.stage, Origin.stage])

theorem taskStep_started (h : TaskStep s permit pc u pc' u') : pc' ≠ .unstarted := by
  cases h with
  | writeBuffered | fillDone => exact (loop_polls _).1
  | _ => exact nofun

theorem taskStep_told (h : TaskStep s permit pc u pc' u')
    (ht : 12 ≤ pc.stage → ∃ action, u.terminal = .sent action) :
    12 ≤ pc'.stage → ∃ action, u'.terminal = .sent action := by
  cases h with
  | terminalPending | receive | bytesEnded | bytesPending => exact fun _ => ht (by simp [Pc.stage])
  | writeBuffered | fillDone => exact fun h => ht ((loop_listens _).mp h)
  | writeCreate | writeMultipart | created | createdGo | fillNext | fillSome | fillPart | joinDone
  | joinWait | joinOk | joinPending | joinedGo | acquireWait | acquirePending | acquired | spawnPart => exact ht
  | _ => exact fun h => absurd h (by simp [Pc.stage, Origin.stage])

theorem going_new : Going s .unstarted .new where
  short := nofun
  joining := nofun
  shut := nofun
  started _ := rfl
  told := nofun

theorem going_listening (hshort : ∀ buffer, u.multipart = some buffer → buffer.length < s.partSize)
    (ho : u.owner.letGo = false) : Going s .pollTerminal u where
  short := hshort
  joining := nofun
  shut := nofun
  started := nofun
  told hgo := absurd hgo (by simp [ho])

/-- Past its channel a task has only a part to keep short. -/
theorem going_past (hshort : ∀ buffer, u.multipart = some buffer → buffer.length < s.partSize)
    (hstage : pc.stage < 10) : Going s pc u where
  short := hshort
  joining payload rest hpc := by
    subst hpc
    exact absurd hstage (Nat.not_lt.mpr rest.origin.stage_gt)
  shut hten := absurd hten (Nat.ne_of_lt hstage)
  started hpc := by
    subst hpc
    exact absurd hstage (by decide)
  told _ hlistens := by omega

theorem uploadStep_going (h : UploadStep s permit pc u pc' u') (hg : Going s pc u) : Going s pc' u' := by
  obtain ⟨hshort, hjoining, hshut, hstarted, htold⟩ := hg
  cases h with
  | task h =>
    refine ⟨taskStep_short h hshort, taskStep_joining h, taskStep_shut h hshut,
      fun hpc => absurd hpc (taskStep_started h), fun hgo => ?_⟩
    rw [taskStep_owner h] at hgo
    exact taskStep_told h (htold hgo)
  | part h =>
    cases h with
    | succeeded hn | failed hn =>
      refine ⟨hshort, fun payload rest hpc => ?_, hshut, hstarted, htold⟩
      have hle := hjoining payload rest hpc
      simp only [UploadState.unjoined, UploadState.call, List.length_append, List.length_singleton, hn] at hle ⊢
      omega
  | owner h =>
    cases h with
    | start ho => exact going_listening hshort (congrArg Owner.letGo ho)
    | completeUnstarted | releaseUnstarted => exact going_past hshort (by decide)
    | complete _ hpc => exact ⟨hshort, hjoining, hshut, fun h => absurd h hpc, fun _ _ => ⟨_, rfl⟩⟩
    | cancel _ hpc => exact ⟨hshort, hjoining, hshut, fun h => absurd h hpc, fun hgo => Bool.noConfusion hgo⟩
    | release ho =>
      have hpc : pc ≠ .unstarted := fun h => Owner.noConfusion (ho.symm.trans (hstarted h))
      exact ⟨hshort, hjoining, hshut, fun h => absurd h hpc, fun _ _ => ⟨_, rfl⟩⟩
  | writer h => cases h <;> exact ⟨hshort, hjoining, hshut, hstarted, htold⟩

-- ---------------------------------------------------------------------------
-- What is left to do
-- ---------------------------------------------------------------------------

def Rest.left (rest : Rest) : Nat := rest.bytes.length + rest.next.elim 0 (·.length + 1)

def Pc.bytesLeft : Pc → Nat
  | write _ chunk => chunk.length + 1
  | creating _ chunk => chunk.length + 1
  | created _ chunk => chunk.length + 1
  | fill rest => rest.left
  | joinCancel _ rest => rest.left
  | joinPart _ rest => rest.left
  | joined _ rest => rest.left
  | acquireCancel _ rest => rest.left
  | acquirePermit _ rest => rest.left
  | spawn _ rest => rest.left
  | _ => 0

def Pc.stepsLeft : Pc → Nat
  | write _ _ => 4
  | creating _ _ => 3
  | created _ _ => 2
  | joinCancel _ _ => 5
  | joinPart _ _ => 5
  | joined _ _ => 4
  | acquireCancel _ _ => 3
  | acquirePermit _ _ => 3
  | spawn _ _ => 2
  | fill _ => 1
  | _ => 0

def Pc.awaitsPermit : Pc → Bool
  | acquireCancel _ _ => true
  | acquirePermit _ _ => true
  | flushAcquire _ => true
  | _ => false

namespace ObjectUpload

def queueLeft (upload : ObjectUpload) : Nat :=
  if upload.pc.stage = 10 then (upload.state.queue.map (·.length + 2)).sum else 0

/-- A byte weighs more than the steps that a part takes. -/
def bytesLeft (upload : ObjectUpload) : Nat :=
  8 * (upload.state.buffer.length + upload.pc.bytesLeft + upload.queueLeft) + upload.pc.stepsLeft

def partsLeft (upload : ObjectUpload) : Nat := 2 * upload.state.inFlight + upload.state.finished.length

def looksLeft (upload : ObjectUpload) : Nat :=
  match upload.pc with
  | .joinPart _ _ => if upload.state.finished = [] then 1 else 0
  | _ => 1

def left (upload : ObjectUpload) : ℕ ×ₗ ℕ ×ₗ ℕ ×ₗ ℕ :=
  toLex (upload.pc.stage, toLex (upload.bytesLeft, toLex (upload.partsLeft, upload.looksLeft)))

end ObjectUpload

theorem stage_lowers (h : pc'.stage < pc.stage) : ObjectUpload.left ⟨pc', u'⟩ < ObjectUpload.left ⟨pc, u⟩ :=
  Prod.Lex.toLex_lt_toLex.mpr (.inl h)

theorem bytes_lower (hpc : pc'.stage = pc.stage)
    (h : ObjectUpload.bytesLeft ⟨pc', u'⟩ < ObjectUpload.bytesLeft ⟨pc, u⟩) :
    ObjectUpload.left ⟨pc', u'⟩ < ObjectUpload.left ⟨pc, u⟩ :=
  Prod.Lex.toLex_lt_toLex.mpr (.inr ⟨hpc, Prod.Lex.toLex_lt_toLex.mpr (.inl h)⟩)

theorem parts_lower (hpc : pc'.stage = pc.stage)
    (hbytes : ObjectUpload.bytesLeft ⟨pc', u'⟩ = ObjectUpload.bytesLeft ⟨pc, u⟩)
    (h : ObjectUpload.partsLeft ⟨pc', u'⟩ < ObjectUpload.partsLeft ⟨pc, u⟩) :
    ObjectUpload.left ⟨pc', u'⟩ < ObjectUpload.left ⟨pc, u⟩ :=
  Prod.Lex.toLex_lt_toLex.mpr (.inr ⟨hpc, Prod.Lex.toLex_lt_toLex.mpr (.inr ⟨hbytes, Prod.Lex.toLex_lt_toLex.mpr (.inl h)⟩)⟩)

/-- A task that looked in vain, and has lost nothing by it. -/
structure Polled (pc : Pc) (u : UploadState) (pc' : Pc) (u' : UploadState) : Prop where
  state : u' = u
  left : ObjectUpload.left ⟨pc', u'⟩ = ObjectUpload.left ⟨pc, u⟩
  awaitsPermit : pc'.awaitsPermit = pc.awaitsPermit
  waiting : pc.awaitsPermit = true ∨ u.inFlight ≠ 0

theorem looks_lower (hpc : pc'.stage = pc.stage)
    (hbytes : ObjectUpload.bytesLeft ⟨pc', u⟩ = ObjectUpload.bytesLeft ⟨pc, u⟩)
    (h : ObjectUpload.looksLeft ⟨pc', u⟩ < ObjectUpload.looksLeft ⟨pc, u⟩) :
    ObjectUpload.left ⟨pc', u⟩ < ObjectUpload.left ⟨pc, u⟩ :=
  Prod.Lex.toLex_lt_toLex.mpr (.inr ⟨hpc, Prod.Lex.toLex_lt_toLex.mpr (.inr ⟨hbytes,
    Prod.Lex.toLex_lt_toLex.mpr (.inr ⟨rfl, h⟩)⟩)⟩)

/-- While no part has ended, looking for one is no progress. -/
theorem joining_left (hfinished : u.finished = []) :
    ObjectUpload.left ⟨.joinPart payload rest, u⟩ = ObjectUpload.left ⟨.joinCancel payload rest, u⟩ := by
  have hlooks : ObjectUpload.looksLeft ⟨.joinPart payload rest, u⟩ = 1 := if_pos hfinished
  unfold ObjectUpload.left
  rw [hlooks]
  rfl

theorem inFlight_of_unjoined {s : ObjectUploadSettings} {u : UploadState} (hle : s.maxInFlightParts ≤ u.unjoined)
    (hfinished : u.finished = []) : u.inFlight ≠ 0 := by
  have hpos := s.maxInFlightParts_pos
  simp only [UploadState.unjoined, hfinished, List.length_nil] at hle
  omega

theorem erased_parts {finished : List Bool} (h : finished[i]? = some ok) :
    (finished.eraseIdx i).length < finished.length := by
  have hlt := (List.getElem?_eq_some_iff.mp h).1
  rw [List.length_eraseIdx_of_lt hlt]
  omega

theorem chunk_lowers (hpc : pc'.stage = pc.stage) (hqueue : u'.queue = u.queue)
    (h : 8 * (u'.buffer.length + pc'.bytesLeft) + pc'.stepsLeft <
      8 * (u.buffer.length + pc.bytesLeft) + pc.stepsLeft) :
    ObjectUpload.left ⟨pc', u'⟩ < ObjectUpload.left ⟨pc, u⟩ := by
  refine bytes_lower hpc ?_
  simp only [ObjectUpload.bytesLeft, ObjectUpload.queueLeft, hpc, hqueue]
  omega

theorem loop_lowers {origin : Origin} (hpc : pc.stage = origin.stage) (hqueue : u'.queue = u.queue)
    (h : 8 * u'.buffer.length < 8 * (u.buffer.length + pc.bytesLeft) + pc.stepsLeft) :
    ObjectUpload.left ⟨origin.loop, u'⟩ < ObjectUpload.left ⟨pc, u⟩ := by
  cases origin with
  | polling =>
    refine stage_lowers ?_
    rw [hpc]
    decide
  | draining => exact chunk_lowers hpc.symm hqueue h

/-- Every step of a task leaves less to do, unless the task only looked at what
it waits for. -/
theorem taskStep_lowers (h : TaskStep s permit pc u pc' u') (hg : Going s pc u)
    (hgo : u.owner.letGo = true) :
    ObjectUpload.left ⟨pc', u'⟩ < ObjectUpload.left ⟨pc, u⟩ ∨ Polled pc u pc' u' := by
  have hmax := s.maxInFlightParts_pos
  cases h with
  | terminalPending h =>
    obtain ⟨action, hsent⟩ := hg.told hgo (by simp [Pc.stage])
    cases h.symm.trans hsent
  | writeCancelled | createFailed | createdCancelled | fillCancelled | joinCancelled | joinFailed
  | joinedCancelled | acquireCancelled | spawnCancelled =>
    exact .inl (stage_lowers (Nat.lt_of_le_of_lt (by simp [Pc.stage]) (Origin.stage_gt _)))
  | drainNext h =>
    refine .inl (bytes_lower rfl ?_)
    simp only [ObjectUpload.bytesLeft, ObjectUpload.queueLeft, Pc.bytesLeft, Pc.stepsLeft, Pc.stage,
      Origin.stage, if_pos, h, List.map_cons, List.sum_cons]
    omega
  | writeBuffered | fillDone =>
    refine .inl (loop_lowers rfl rfl ?_)
    simp only [Pc.bytesLeft, Pc.stepsLeft, List.length_append]
    omega
  | createdGo =>
    refine .inl (chunk_lowers rfl rfl ?_)
    simp only [Pc.bytesLeft, Pc.stepsLeft, Rest.left, Option.elim, List.length_nil]
    omega
  | writeCreate | created | joinDone | joinedGo | acquired | spawnPart =>
    exact .inl (chunk_lowers rfl rfl (Nat.add_lt_add_left (by simp [Pc.stepsLeft]) _))
  | acquireWait | acquirePending => exact .inr ⟨rfl, rfl, rfl, .inl rfl⟩
  | writeMultipart | fillNext =>
    refine .inl (chunk_lowers rfl rfl ?_)
    simp only [Pc.bytesLeft, Pc.stepsLeft, Rest.left, Option.elim, List.length_nil]
    omega
  | fillSome hne =>
    have hpos := List.length_pos_iff.mpr hne
    refine .inl (chunk_lowers rfl rfl ?_)
    simp only [Pc.bytesLeft, Pc.stepsLeft, Rest.left, List.length_nil]
    omega
  | fillPart hne _ hm =>
    have hpos := List.length_pos_iff.mpr hne
    have hshort := hg.short _ hm
    refine .inl (chunk_lowers rfl rfl ?_)
    simp only [Pc.bytesLeft, Pc.stepsLeft, Rest.left, List.length_drop]
    omega
  | joinWait hle =>
    by_cases hfinished : u.finished = []
    · exact .inr ⟨rfl, joining_left hfinished, rfl, .inr (inFlight_of_unjoined hle hfinished)⟩
    · exact .inl (looks_lower rfl rfl (by simp [ObjectUpload.looksLeft, hfinished]))
  | joinPending hfinished =>
    have hle := hg.joining _ _ rfl
    exact .inr ⟨rfl, (joining_left hfinished).symm, rfl, .inr (inFlight_of_unjoined hle hfinished)⟩
  | joinOk h | flushOk _ h | joinAllOk h | shutdownJoin h =>
    have hless := erased_parts h
    exact .inl (parts_lower rfl rfl (by simp only [ObjectUpload.partsLeft]; omega))
  | shutdownPart h =>
    exact .inl (parts_lower rfl rfl (by simp only [ObjectUpload.partsLeft]; omega))
  | _ => exact .inl (stage_lowers (by simp [Pc.stage, Origin.stage]))

theorem partStep_lowers (h : PartStep u u') :
    ObjectUpload.left ⟨pc, u'⟩ < ObjectUpload.left ⟨pc, u⟩ := by
  cases h with
  | succeeded hn | failed hn =>
    refine parts_lower rfl rfl ?_
    simp only [ObjectUpload.partsLeft, UploadState.call, List.length_append, List.length_singleton, hn]
    omega

theorem writerStep_left (h : WriterStep s u u') (hg : Going s pc u) :
    ObjectUpload.left ⟨pc, u'⟩ = ObjectUpload.left ⟨pc, u⟩ := by
  cases h with
  | send _ hopen =>
    by_cases hdrain : pc.stage = 10
    · cases hopen.symm.trans (hg.shut hdrain)
    · simp [ObjectUpload.left, ObjectUpload.bytesLeft, ObjectUpload.queueLeft, ObjectUpload.partsLeft,
        ObjectUpload.looksLeft, hdrain]
  | _ => rfl

theorem letGo_settled (h : OwnerStep pc u pc' u') : u.owner.letGo = false := by
  cases h with
  | start ho | completeUnstarted ho | releaseUnstarted ho | release ho => rw [ho]; rfl
  | complete ho | cancel ho => rw [ho.1]; rfl

/-- What happens to an upload that its owner let go leaves less to do, or
changes nothing of what it waits for. -/
theorem uploadStep_lowers (h : UploadStep s permit pc u pc' u') (hg : Going s pc u)
    (hgo : u.owner.letGo = true) :
    ObjectUpload.left ⟨pc', u'⟩ < ObjectUpload.left ⟨pc, u⟩ ∨
      ObjectUpload.left ⟨pc', u'⟩ = ObjectUpload.left ⟨pc, u⟩ ∧ u'.inFlight = u.inFlight ∧
        pc'.awaitsPermit = pc.awaitsPermit := by
  cases h with
  | task h =>
    rcases taskStep_lowers h hg hgo with hless | ⟨rfl, hleft, hawaits, -⟩
    · exact .inl hless
    · exact .inr ⟨hleft, rfl, hawaits⟩
  | part h => exact .inl (partStep_lowers h)
  | owner h => cases (letGo_settled h).symm.trans hgo
  | writer h =>
    refine .inr ⟨writerStep_left h hg, ?_, rfl⟩
    cases h <;> rfl

-- ---------------------------------------------------------------------------
-- The next step
-- ---------------------------------------------------------------------------

theorem finished_cases (u : UploadState) :
    u.finished = [] ∨ u.finished[0]? = some true ∨ u.finished[0]? = some false := by
  rcases u.finished with _ | ⟨_ | _, finished⟩
  · exact .inl rfl
  · exact .inr (.inr rfl)
  · exact .inr (.inl rfl)

/-- A task that waits neither for a part request nor for a permit has a next
step. -/
theorem task_due (hg : Going s pc u) (hr : Recorded u.view pc) (hgo : u.owner.letGo = true)
    (hended : pc.isEnded = false) (hparts : u.inFlight = 0) (hpermit : pc.awaitsPermit = false) :
    ∃ permit pc' u', permit ≠ .take ∧ TaskStep s permit pc u pc' u' := by
  have hlisten := hg.told hgo
  have hnext {pc' u'} (h : TaskStep s .keep pc u pc' u') :
      ∃ permit pc' u', permit ≠ .take ∧ TaskStep s permit pc u pc' u' := ⟨.keep, _, _, nofun, h⟩
  have hunjoined : u.unjoined = u.finished.length := by simp [UploadState.unjoined, hparts]
  cases pc with
  | ended => cases hended
  | acquireCancel | acquirePermit | flushAcquire => cases hpermit
  | unstarted =>
    rw [hg.started rfl] at hgo
    cases hgo
  | pollTerminal =>
    obtain ⟨action, hsent⟩ := hlisten (by simp [Pc.stage])
    cases action with
    | complete => exact hnext (.takeComplete hsent)
    | abort => exact hnext (.takeAbort hsent)
  | awaitTerminal =>
    obtain ⟨action, hsent⟩ := hlisten (by simp [Pc.stage])
    cases action with
    | complete => exact hnext (.awaitComplete hsent)
    | abort => exact hnext (.awaitAbort hsent)
  | pollBytes =>
    cases hq : u.queue with
    | cons chunk queue => exact hnext (.receive hq)
    | nil =>
      cases hw : u.writer with
      | none => exact hnext (.bytesEnded hq hw)
      | some writer => exact hnext (.bytesPending hq hw)
  | close => exact hnext .close
  | drain =>
    cases hq : u.queue with
    | cons chunk queue => exact hnext (.drainNext hq)
    | nil => exact hnext (.drained hq)
  | write origin chunk =>
    cases hc : u.cancelled with
    | true => exact hnext (.writeCancelled hc)
    | false =>
      cases hm : u.multipart with
      | some buffer => exact hnext (.writeMultipart hc hm)
      | none =>
        by_cases hlt : u.buffer.length + chunk.length < s.partSize
        · exact hnext (.writeBuffered hc hm hlt)
        · exact hnext (.writeCreate hc hm (Nat.le_of_not_lt hlt))
  | creating => exact hnext .created
  | created =>
    cases hc : u.cancelled with
    | true => exact hnext (.createdCancelled hc)
    | false => exact hnext (.createdGo hc)
  | fill rest =>
    obtain ⟨buffer, hm⟩ := Option.ne_none_iff_exists'.mp hr.multipart
    obtain ⟨bytes, next, origin⟩ := rest
    by_cases hne : bytes = []
    · subst hne
      cases next with
      | none => exact hnext .fillDone
      | some chunk => exact hnext .fillNext
    · cases hc : u.cancelled with
      | true => exact hnext (.fillCancelled hne hc)
      | false =>
        by_cases hlt : buffer.length + bytes.length < s.partSize
        · exact hnext (.fillSome hne hc hm hlt)
        · exact hnext (.fillPart hne hc hm (Nat.le_of_not_lt hlt))
  | joinCancel =>
    by_cases hlt : u.unjoined < s.maxInFlightParts
    · exact hnext (.joinDone hlt)
    · cases hc : u.cancelled with
      | true => exact hnext (.joinCancelled (Nat.le_of_not_lt hlt) hc)
      | false => exact hnext (.joinWait (Nat.le_of_not_lt hlt) hc)
  | joinPart =>
    rcases finished_cases u with hnone | hok | hfailed
    · exact hnext (.joinPending hnone)
    · exact hnext (.joinOk hok)
    · exact hnext (.joinFailed hfailed)
  | joined =>
    cases hc : u.cancelled with
    | true => exact hnext (.joinedCancelled hc)
    | false => exact hnext (.joinedGo hc)
  | spawn =>
    cases hc : u.cancelled with
    | true => exact ⟨.give, _, _, nofun, .spawnCancelled hc⟩
    | false => exact hnext (.spawnPart hc)
  | complete =>
    rcases hm : u.multipart with _ | _ | ⟨byte, buffer⟩
    · exact hnext (.completePut hm)
    · exact hnext (.completeFull hm)
    · exact hnext (.completeFlush hm nofun)
  | putting => exact hnext .putOk
  | flushJoin =>
    by_cases hlt : u.unjoined < s.maxInFlightParts
    · exact hnext (.flushJoined hlt)
    · have hle := Nat.le_of_not_lt hlt
      have hpos := s.maxInFlightParts_pos
      rcases finished_cases u with hnone | hok | hfailed
      · rw [hnone, List.length_nil] at hunjoined
        omega
      · exact hnext (.flushOk hle hok)
      · exact hnext (.flushFailed hle hfailed)
  | flushSpawn => exact hnext .flushPart
  | joinAll =>
    rcases finished_cases u with hnone | hok | hfailed
    · exact hnext (.joinedAll (by rw [hunjoined, hnone]; rfl))
    · exact hnext (.joinAllOk hok)
    · exact hnext (.joinAllFailed hfailed)
  | completing => exact hnext .completed
  | abort =>
    cases hm : u.multipart with
    | none => exact hnext (.abortNothing hm)
    | some buffer => exact hnext (.abortParts hm)
  | shutdown =>
    rcases finished_cases u with hnone | hok | hfailed
    · exact hnext (.shutdownDone (by rw [hunjoined, hnone]; rfl))
    · exact hnext (.shutdownJoin hok)
    · exact hnext (.shutdownJoin hfailed)
  | aborting => exact hnext .aborted

-- ---------------------------------------------------------------------------
-- Fair runs
-- ---------------------------------------------------------------------------

inductive UploadTurn (Step : Permit → Pc → UploadState → Pc → UploadState → Prop) (i : Nat) :
    Session → Session → Prop
  | intro (h : session.uploads[i]? = some ⟨pc, u⟩) (step : Step permit pc u pc' u')
      (hp : permit.apply session.permits = some permits) :
      UploadTurn Step i session ⟨permits, session.uploads.set i ⟨pc', u'⟩⟩

def RequestStep (permit : Permit) (pc : Pc) (u : UploadState) (pc' : Pc) (u' : UploadState) : Prop :=
  permit = .give ∧ pc' = pc ∧ PartStep u u'

/-- The second step of `request_abort`. -/
def ReleaseStep (permit : Permit) (pc : Pc) (u : UploadState) (pc' : Pc) (u' : UploadState) : Prop :=
  permit = .keep ∧ OwnerStep pc u pc' u' ∧ u.owner ≠ .held

def Session.AwaitsPermit (session : Session) (i : Nat) : Prop :=
  ∃ upload, session.uploads[i]? = some upload ∧ upload.pc.awaitsPermit = true

/-- A run of a session whose runtime polls every task, whose store answers
every part request, and whose semaphore is fair: no task waits for ever while
permits come back. -/
structure Fair (s : ObjectUploadSettings) (run : Nat → Session) : Prop where
  step : ∀ n, run (n + 1) = run n ∨ SessionStep s (run n) (run (n + 1))
  tasks : ∀ i, WeaklyFair (UploadTurn (TaskStep s) i) run
  requests : ∀ i, WeaklyFair (UploadTurn RequestStep i) run
  owners : ∀ i, WeaklyFair (UploadTurn ReleaseStep i) run
  permits : ∀ i n, (∀ m, n ≤ m → ∃ k, m ≤ k ∧ 0 < (run k).permits) → ∃ m, n ≤ m ∧ ¬ (run m).AwaitsPermit i

variable {s : ObjectUploadSettings} {run : Nat → Session} {session session' : Session} {i : Nat}

theorem uploadTurn_at (h : UploadTurn Step i session session') :
    ∃ permit pc u pc' u', session.uploads[i]? = some ⟨pc, u⟩ ∧ Step permit pc u pc' u' ∧
      permit.apply session.permits = some session'.permits ∧ session'.uploads[i]? = some ⟨pc', u'⟩ := by
  cases h with
  | intro h step hp =>
    have hlt := (List.getElem?_eq_some_iff.mp h).1
    exact ⟨_, _, _, _, _, h, step, hp, List.getElem?_set_self hlt⟩

theorem sessionStep_at (h : SessionStep s session session')
    (hi : session.uploads[i]? = some ⟨pc, u⟩) :
    session'.uploads[i]? = some ⟨pc, u⟩ ∨
      ∃ permit pc' u', session'.uploads[i]? = some ⟨pc', u'⟩ ∧ UploadStep s permit pc u pc' u' ∧
        permit.apply session.permits = some session'.permits := by
  have hlt := (List.getElem?_eq_some_iff.mp hi).1
  cases h with
  | new => exact .inl ((List.getElem?_append_left hlt).trans hi)
  | @upload j _ _ _ _ _ _ _ h step hp =>
    by_cases hij : j = i
    · subst hij
      cases hi.symm.trans h
      exact .inr ⟨_, _, _, List.getElem?_set_self hlt, step, hp⟩
    · exact .inl ((List.getElem?_set_ne hij).trans hi)

theorem reachable_going (h : Session.Reachable s session) :
    ∀ upload ∈ session.uploads, Going s upload.pc upload.state :=
  reachable_uploads going_new (fun _ _ _ _ _ hg step => uploadStep_going step hg) h

theorem Fair.reachable (hf : Fair s run) (h : Session.Reachable s (run 0)) (n : Nat) :
    Session.Reachable s (run n) := by
  induction n with
  | zero => exact h
  | succ n ih =>
    rcases hf.step n with heq | hstep
    · rwa [heq]
    · exact ih.tail hstep

theorem Fair.at_step (hf : Fair s run) (hi : (run n).uploads[i]? = some ⟨pc, u⟩) :
    (run (n + 1)).uploads[i]? = some ⟨pc, u⟩ ∨
      ∃ permit pc' u', (run (n + 1)).uploads[i]? = some ⟨pc', u'⟩ ∧ UploadStep s permit pc u pc' u' ∧
        permit.apply (run n).permits = some (run (n + 1)).permits := by
  rcases hf.step n with heq | hstep
  · rw [heq]
    exact .inl hi
  · exact sessionStep_at hstep hi

theorem Fair.kept (hf : Fair s run) (Inv : Pc → UploadState → Prop)
    (hstep : ∀ k permit pc u pc' u', n ≤ k → (run k).uploads[i]? = some ⟨pc, u⟩ →
      (run (k + 1)).uploads[i]? = some ⟨pc', u'⟩ → permit.apply (run k).permits = some (run (k + 1)).permits →
      UploadStep s permit pc u pc' u' → Inv pc u → Inv pc' u')
    (hi : (run n).uploads[i]? = some ⟨pc, u⟩) (hinv : Inv pc u) (hm : n ≤ m) :
    ∃ pc' u', (run m).uploads[i]? = some ⟨pc', u'⟩ ∧ Inv pc' u' := by
  induction m, hm using Nat.le_induction with
  | base => exact ⟨pc, u, hi, hinv⟩
  | succ k hk ih =>
    obtain ⟨pc', u', hat, hinv'⟩ := ih
    rcases hf.at_step hat with hsame | ⟨permit, pc'', u'', hat', step, hp⟩
    · exact ⟨pc', u', hsame, hinv'⟩
    · exact ⟨pc'', u'', hat', hstep k permit pc' u' pc'' u'' hk hat hat' hp step hinv'⟩

-- ---------------------------------------------------------------------------
-- Permits come back
-- ---------------------------------------------------------------------------

theorem uploadStep_inFlight (h : UploadStep s .keep pc u pc' u') : u.inFlight ≤ u'.inFlight := by
  cases h with
  | task h =>
    cases h with
    | spawnPart | flushPart => exact Nat.le_succ _
    | _ => exact Nat.le_refl _
  | owner h => cases h <;> exact Nat.le_refl _
  | writer h => cases h <;> exact Nat.le_refl _

theorem taskStep_spends (h : TaskStep s .keep pc u pc' u') (hpc : pc.holdsPermit ≠ 0) : u'.inFlight ≠ 0 := by
  cases h with
  | spawnPart | flushPart => exact Nat.succ_ne_zero _
  | _ => exact absurd rfl hpc

theorem apply_zero {permit : Permit} (h : permit.apply 0 = some 0) : permit = .keep := by
  cases permit with
  | keep => rfl
  | take | give => cases h

theorem held_pos (h : 0 < session.held) :
    ∃ (i : Nat) (pc : Pc) (u : UploadState), session.uploads[i]? = some ⟨pc, u⟩ ∧
      ObjectUpload.held ⟨pc, u⟩ ≠ 0 := by
  by_contra hnone
  refine Nat.ne_of_gt h (List.sum_eq_zero fun held hmem => ?_)
  obtain ⟨upload, hupload, rfl⟩ := List.mem_map.mp hmem
  obtain ⟨i, hi⟩ := List.mem_iff_getElem?.mp hupload
  by_contra hne
  exact hnone ⟨i, upload.pc, upload.state, hi, hne⟩

theorem Fair.permits_free (hf : Fair s run) (h : Session.Reachable s (run 0)) (n : Nat) :
    ∃ m, n ≤ m ∧ 0 < (run m).permits := by
  by_contra hnone
  have hzero (m : Nat) (hm : n ≤ m) : (run m).permits = 0 :=
    Nat.eq_zero_of_not_pos fun hpos => hnone ⟨m, hm, hpos⟩
  have hheld : 0 < (run n).held := by
    have htotal := reachable_permits (hf.reachable h n)
    have hpos := s.maxInFlightParts_pos
    rw [hzero n (Nat.le_refl n)] at htotal
    omega
  obtain ⟨i, pc, u, hi, hne⟩ := held_pos hheld
  have hkeep {k permit} (hk : n ≤ k) (hp : Permit.apply permit (run k).permits = some (run (k + 1)).permits) :
      permit = .keep := by
    rw [hzero k hk, hzero (k + 1) (Nat.le_succ_of_le hk)] at hp
    exact apply_zero hp
  -- what the upload holds it holds for ever, in its hands or in a request
  have hholds (m : Nat) (hm : n ≤ m) := hf.kept (fun pc u => ObjectUpload.held ⟨pc, u⟩ ≠ 0)
    (fun k permit pc u pc' u' hk _ _ hp step hne => by
      obtain rfl := hkeep hk hp
      rw [show _ = _ from uploadStep_balances step]
      exact hne) hi hne hm
  by_cases hbusy : ∃ m pc u, n ≤ m ∧ (run m).uploads[i]? = some ⟨pc, u⟩ ∧ u.inFlight ≠ 0
  · obtain ⟨m, pc, u, hm, hat, hne⟩ := hbusy
    obtain ⟨k, hk, turn⟩ := hf.requests i m fun k hk => by
      obtain ⟨pc', u', hat', hne'⟩ := hf.kept (fun _ u => u.inFlight ≠ 0)
        (fun k permit pc u pc' u' hk _ _ hp step hne => by
          obtain rfl := hkeep (Nat.le_trans hm hk) hp
          have hle := uploadStep_inFlight step
          omega) hat hne hk
      obtain ⟨parts, hparts⟩ := Nat.exists_eq_succ_of_ne_zero hne'
      exact ⟨_, .intro hat' ⟨rfl, rfl, .succeeded hparts⟩ rfl⟩
    obtain ⟨_, _, _, _, _, -, ⟨rfl, -, -⟩, hp, -⟩ := uploadTurn_at turn
    cases hkeep (Nat.le_trans hm hk) hp
  · have hidle (m : Nat) (hm : n ≤ m) {pc u} (hat : (run m).uploads[i]? = some ⟨pc, u⟩) : u.inFlight = 0 := by
      by_contra hne
      exact hbusy ⟨m, pc, u, hm, hat, hne⟩
    have hspawns (m : Nat) (hm : n ≤ m) {pc u} (hat : (run m).uploads[i]? = some ⟨pc, u⟩) :
        pc.holdsPermit ≠ 0 := by
      obtain ⟨_, _, hat', hne⟩ := hholds m hm
      cases hat.symm.trans hat'
      rwa [ObjectUpload.held, hidle m hm hat, Nat.zero_add] at hne
    obtain ⟨k, hk, turn⟩ := hf.tasks i n fun k hk => by
      obtain ⟨pc, u, hat, -⟩ := hholds k hk
      have hpc := hspawns k hk hat
      cases pc with
      | spawn payload rest =>
        cases hc : u.cancelled with
        | true => exact ⟨_, .intro hat (.spawnCancelled hc) rfl⟩
        | false => exact ⟨_, .intro hat (.spawnPart hc) rfl⟩
      | flushSpawn payload => exact ⟨_, .intro hat .flushPart rfl⟩
      | _ => exact absurd rfl hpc
    obtain ⟨permit, _, _, _, _, hat, step, hp, hat'⟩ := uploadTurn_at turn
    obtain rfl := hkeep hk hp
    exact taskStep_spends step (hspawns k hk hat) (hidle (k + 1) (Nat.le_succ_of_le hk) hat')

-- ---------------------------------------------------------------------------
-- Every upload ends
-- ---------------------------------------------------------------------------

theorem uploadStep_owner (h : UploadStep s permit pc u pc' u') (ho : u.owner ≠ .held) :
    u'.owner = u.owner ∨ u'.owner.letGo = true := by
  cases h with
  | task h => exact .inl (taskStep_owner h)
  | part h => cases h <;> exact .inl rfl
  | owner h =>
    cases h with
    | start h | completeUnstarted h | releaseUnstarted h => exact absurd h ho
    | complete h | cancel h => exact absurd h.1 ho
    | release => exact .inr rfl
  | writer h => cases h <;> exact .inl rfl

theorem uploadStep_letGo (h : UploadStep s permit pc u pc' u') (hgo : u.owner.letGo = true) :
    u'.owner.letGo = true := by
  have hheld : u.owner ≠ .held := fun h => by rw [h] at hgo; cases hgo
  rcases uploadStep_owner h hheld with heq | hgo
  · rwa [heq]
  · exact hgo

theorem Fair.lets_go (hf : Fair s run) (hi : (run n).uploads[i]? = some ⟨pc, u⟩) (ho : u.owner ≠ .held) :
    ∃ m pc' u', n ≤ m ∧ (run m).uploads[i]? = some ⟨pc', u'⟩ ∧ u'.owner.letGo = true := by
  by_contra hnone
  have hkept (m : Nat) (hm : n ≤ m) := hf.kept (fun _ u' => u'.owner = u.owner)
    (fun k permit pc u' pc' u'' hk _ hat _ step heq => by
      rcases uploadStep_owner step (heq ▸ ho) with hsame | hgo
      · exact hsame.trans heq
      · exact absurd ⟨k + 1, pc', u'', Nat.le_succ_of_le hk, hat, hgo⟩ hnone) hi rfl hm
  cases howner : u.owner with
  | held => exact ho howner
  | asked | released => exact hnone ⟨n, pc, u, Nat.le_refl n, hi, by rw [howner]; rfl⟩
  | cancelled how =>
    obtain ⟨m, hm, turn⟩ := hf.owners i n fun m hm => by
      obtain ⟨pc', u', hat, heq⟩ := hkept m hm
      have hcancelled : u'.owner = .cancelled how := heq.trans howner
      exact ⟨_, .intro hat ⟨rfl, .release hcancelled, by simp [hcancelled]⟩ rfl⟩
    obtain ⟨_, pc', u', _, u'', hat, ⟨-, step, hheld⟩, -, hat'⟩ := uploadTurn_at turn
    have hgo : u''.owner.letGo = true := by
      cases step with
      | release => rfl
      | start h | completeUnstarted h | releaseUnstarted h => exact absurd h hheld
      | complete h | cancel h => exact absurd h.1 hheld
    exact hnone ⟨m + 1, _, _, Nat.le_succ_of_le hm, hat', hgo⟩

structure Unchanged (pc : Pc) (u : UploadState) (pc' : Pc) (u' : UploadState) : Prop where
  letGo : u'.owner.letGo = true
  left : ObjectUpload.left ⟨pc', u'⟩ = ObjectUpload.left ⟨pc, u⟩
  inFlight : u'.inFlight = u.inFlight
  awaitsPermit : pc'.awaitsPermit = pc.awaitsPermit

def Lowers (run : Nat → Session) (i n : Nat) (pc : Pc) (u : UploadState) : Prop :=
  ∃ m pc' u', n ≤ m ∧ (run m).uploads[i]? = some ⟨pc', u'⟩ ∧
    ObjectUpload.left ⟨pc', u'⟩ < ObjectUpload.left ⟨pc, u⟩

theorem going_at (h : Session.Reachable s session) (hi : session.uploads[i]? = some ⟨pc, u⟩) : Going s pc u :=
  reachable_going h _ (List.mem_of_getElem? hi)

theorem Fair.unchanged (hf : Fair s run) (h : Session.Reachable s (run 0))
    (hi : (run n).uploads[i]? = some ⟨pc, u⟩) (hgo : u.owner.letGo = true) (hnot : ¬ Lowers run i n pc u)
    (hm : n ≤ m) : ∃ pc' u', (run m).uploads[i]? = some ⟨pc', u'⟩ ∧ Unchanged pc u pc' u' := by
  refine hf.kept (Unchanged pc u) (fun k permit pc' u' pc'' u'' hk hat hat' _ step hs => ?_) hi
    ⟨hgo, rfl, rfl, rfl⟩ hm
  rcases uploadStep_lowers step (going_at (hf.reachable h k) hat) hs.letGo with hless | ⟨hleft, hparts, hawaits⟩
  · exact absurd ⟨k + 1, pc'', u'', Nat.le_succ_of_le hk, hat', hs.left ▸ hless⟩ hnot
  · exact ⟨uploadStep_letGo step hs.letGo, hleft.trans hs.left, hparts.trans hs.inFlight,
      hawaits.trans hs.awaitsPermit⟩

theorem Fair.request_ends (hf : Fair s run) (h : Session.Reachable s (run 0))
    (hi : (run n).uploads[i]? = some ⟨pc, u⟩) (hgo : u.owner.letGo = true) (hbusy : u.inFlight ≠ 0) :
    Lowers run i n pc u := by
  by_contra hnot
  obtain ⟨m, hm, turn⟩ := hf.requests i n fun m hm => by
    obtain ⟨pc', u', hat, hs⟩ := hf.unchanged h hi hgo hnot hm
    obtain ⟨parts, hparts⟩ := Nat.exists_eq_succ_of_ne_zero (hs.inFlight ▸ hbusy)
    exact ⟨_, .intro hat ⟨rfl, rfl, .succeeded hparts⟩ rfl⟩
  obtain ⟨_, pc', u', _, u'', hat, ⟨-, rfl, step⟩, -, hat'⟩ := uploadTurn_at turn
  obtain ⟨_, _, hat'', hs⟩ := hf.unchanged h hi hgo hnot hm
  cases hat.symm.trans hat''
  exact hnot ⟨m + 1, _, u'', Nat.le_succ_of_le hm, hat', hs.left ▸ partStep_lowers step⟩

/-- A task that waits for a permit gets one, or has no more use for it. -/
theorem Fair.permit_comes (hf : Fair s run) (h : Session.Reachable s (run 0))
    (hi : (run n).uploads[i]? = some ⟨pc, u⟩) (hgo : u.owner.letGo = true) (hawaits : pc.awaitsPermit = true) :
    Lowers run i n pc u := by
  by_contra hnot
  obtain ⟨m, hm, hawaits'⟩ := hf.permits i n fun m _ => hf.permits_free h m
  obtain ⟨pc', u', hat, hs⟩ := hf.unchanged h hi hgo hnot hm
  exact hawaits' ⟨_, hat, hs.awaitsPermit.trans hawaits⟩

theorem ended_stage (pc : Pc) : pc.isEnded = true ↔ pc.stage = 0 := by
  have hgt := Origin.stage_gt
  cases pc with
  | ended => exact ⟨fun _ => rfl, fun _ => rfl⟩
  | write origin | creating origin | created origin => exact ⟨nofun, fun h => absurd h (Nat.ne_of_gt (Nat.zero_lt_of_lt (hgt origin)))⟩
  | fill rest | joinCancel _ rest | joinPart _ rest | joined _ rest | acquireCancel _ rest
  | acquirePermit _ rest | spawn _ rest =>
    exact ⟨nofun, fun h => absurd h (Nat.ne_of_gt (Nat.zero_lt_of_lt (hgt rest.origin)))⟩
  | _ => exact ⟨nofun, nofun⟩

theorem Unchanged.ended (h : Unchanged pc u pc' u') : pc'.isEnded = pc.isEnded := by
  have hstage : pc'.stage = pc.stage := congrArg (fun left => (ofLex left).1) h.left
  rw [Bool.eq_iff_iff, ended_stage, ended_stage, hstage]

theorem Fair.task_goes (hf : Fair s run) (h : Session.Reachable s (run 0))
    (hi : (run n).uploads[i]? = some ⟨pc, u⟩) (hgo : u.owner.letGo = true) (hended : pc.isEnded = false)
    (hparts : u.inFlight = 0) (hawaits : pc.awaitsPermit = false) : Lowers run i n pc u := by
  by_contra hnot
  obtain ⟨m, hm, turn⟩ := hf.tasks i n fun m hm => by
    obtain ⟨pc', u', hat, hs⟩ := hf.unchanged h hi hgo hnot hm
    have hreach := hf.reachable h m
    have hrecorded := (reachable_lifecycle hreach _ (List.mem_of_getElem? hat)).recorded
    obtain ⟨permit, pc'', u'', hpermit, step⟩ := task_due (going_at hreach hat) hrecorded hs.letGo
      (hs.ended.trans hended) (hs.inFlight.trans hparts) (hs.awaitsPermit.trans hawaits)
    cases permit with
    | keep | give => exact ⟨_, .intro hat step rfl⟩
    | take => exact absurd rfl hpermit
  obtain ⟨_, pc', u', pc'', u'', hat, step, -, hat'⟩ := uploadTurn_at turn
  obtain ⟨_, _, hat'', hs⟩ := hf.unchanged h hi hgo hnot hm
  cases hat.symm.trans hat''
  rcases taskStep_lowers step (going_at (hf.reachable h m) hat) hs.letGo with hless | hpolled
  · exact hnot ⟨m + 1, pc'', u'', Nat.le_succ_of_le hm, hat', hs.left ▸ hless⟩
  · rcases hpolled.waiting with hwaits | hbusy
    · cases (hs.awaitsPermit.trans hawaits).symm.trans hwaits
    · exact hbusy (hs.inFlight.trans hparts)

theorem Fair.lowers (hf : Fair s run) (h : Session.Reachable s (run 0))
    (hi : (run n).uploads[i]? = some ⟨pc, u⟩) (hgo : u.owner.letGo = true) (hended : pc.isEnded = false) :
    Lowers run i n pc u := by
  by_cases hparts : u.inFlight = 0
  · cases hawaits : pc.awaitsPermit with
    | true => exact hf.permit_comes h hi hgo hawaits
    | false => exact hf.task_goes h hi hgo hended hparts hawaits
  · exact hf.request_ends h hi hgo hparts

/-- An upload that its owner let go is over in the end. -/
theorem Fair.ends (hf : Fair s run) (h : Session.Reachable s (run 0))
    (hi : (run n).uploads[i]? = some ⟨pc, u⟩) (hgo : u.owner.letGo = true) :
    ∃ m, n ≤ m ∧ ∃ upload, (run m).uploads[i]? = some upload ∧ upload.pc.isEnded = true := by
  have hkept (m : Nat) (hm : n ≤ m) := hf.kept (fun _ u => u.owner.letGo = true)
    (fun _ _ _ _ _ _ _ _ _ _ step hgo => uploadStep_letGo step hgo) hi hgo hm
  refine reaches_of_descent (fun m => (((run m).uploads[i]?).getD .new).left) fun m hm => ?_
  obtain ⟨pc', u', hat, hgo'⟩ := hkept m hm
  cases hended : pc'.isEnded with
  | true => exact .inl ⟨_, hat, hended⟩
  | false =>
    obtain ⟨k, pc'', u'', hk, hat', hless⟩ := hf.lowers h hat hgo' hended
    refine .inr ⟨k, hk, .inr ?_⟩
    rw [hat, hat']
    exact hless

def Session.Quiet (session : Session) : Prop :=
  ∀ upload ∈ session.uploads, upload.pc.isEnded = true ∧ upload.state.inFlight = 0 ∧
    ∀ how, upload.state.owner ≠ .cancelled how

/-- A path to where every upload is over is a fair run. -/
theorem exists_fair (h : Relation.ReflTransGen (SessionStep s) session last) (hquiet : last.Quiet) :
    ∃ run, run 0 = session ∧ Fair s run := by
  obtain ⟨run, hstart, hsteps, N, hlast⟩ := exists_run h
  refine ⟨run, hstart, hsteps, ?_, ?_, ?_, ?_⟩
  · refine fun i => weaklyFair_of_quiet hlast fun session' turn => ?_
    obtain ⟨_, _, _, _, _, hat, step, -⟩ := uploadTurn_at turn
    have hended := (hquiet _ (List.mem_of_getElem? hat)).1
    cases step <;> cases hended
  · refine fun i => weaklyFair_of_quiet hlast fun session' turn => ?_
    obtain ⟨_, _, _, _, _, hat, ⟨-, -, step⟩, -⟩ := uploadTurn_at turn
    exact partStep_inFlight step (hquiet _ (List.mem_of_getElem? hat)).2.1
  · refine fun i => weaklyFair_of_quiet hlast fun session' turn => ?_
    obtain ⟨_, _, _, _, _, hat, ⟨-, step, hheld⟩, -⟩ := uploadTurn_at turn
    have howner := (hquiet _ (List.mem_of_getElem? hat)).2.2
    cases step with
    | start h | completeUnstarted h | releaseUnstarted h => exact hheld h
    | complete h | cancel h => exact hheld h.1
    | release h => exact howner _ h
  · refine fun i n _ => ⟨max n N, Nat.le_max_left n N, ?_⟩
    rintro ⟨upload, hat, hawaits⟩
    rw [hlast _ (Nat.le_max_right n N)] at hat
    have hended := (hquiet _ (List.mem_of_getElem? hat)).1
    cases hpc : upload.pc <;> simp [hpc, Pc.isEnded, Pc.awaitsPermit] at hended hawaits

/-- The parts in flight never exceed the session's permits. A created
multipart upload is ended at most once, and exactly once by the time its task
has returned; no complete follows an abort or a failed part, and no part an
abort. Without an owner that asked for it, no object is stored. In every fair
run, an upload that its owner asked for, aborted or dropped does end. -/
theorem upload_lifecycle (h : Session.Reachable s session) :
    session.inFlight ≤ s.maxInFlightParts ∧
      (∀ upload ∈ session.uploads,
        endings upload.state.log ≤ 1 ∧
        (upload.pc.isEnded = true →
          endings upload.state.log = if .created ∈ upload.state.log then 1 else 0) ∧
        Throughout Orderly upload.state.log ∧
        (upload.state.owner.hasAsked = false → ∀ c ∈ upload.state.log, c.stores = false)) ∧
      ∀ run, run 0 = session → Fair s run → ∀ (i : Nat) upload, session.uploads[i]? = some upload →
        upload.state.owner ≠ .held → ∃ n later, (run n).uploads[i]? = some later ∧ later.pc.isEnded = true ∧
          endings later.state.log = if .created ∈ later.state.log then 1 else 0 := by
  refine ⟨?_, fun upload hmem => ?_, ?_⟩
  · have hpermits := reachable_permits h
    have hheld := inFlight_le_held session
    omega
  · obtain ⟨hrecorded, horderly, hasked⟩ := reachable_lifecycle h upload hmem
    refine ⟨hrecorded.endings_le, hrecorded.ended, horderly, fun ho c hc => ?_⟩
    refine Bool.eq_false_iff.mpr fun hstores => ?_
    exact uncommitted hasked ho (.inr (.inr ⟨c, hc, hstores⟩))
  · rintro run rfl hf i upload hi ho
    obtain ⟨n, pc, u, -, hat, hgo⟩ := hf.lets_go hi ho
    obtain ⟨m, -, later, hlater, hended⟩ := hf.ends h hat hgo
    have hrecorded := (reachable_lifecycle (hf.reachable h m) later (List.mem_of_getElem? hlater)).recorded
    exact ⟨m, later, hlater, hended, hrecorded.ended hended⟩

theorem twoPartUpload_quiet : Session.Quiet ⟨1, [twoPartUpload]⟩ := by
  intro upload hmem
  obtain rfl := List.mem_singleton.mp hmem
  exact ⟨rfl, rfl, nofun⟩

theorem upload_lifecycle_twoParts :
    (Session.inFlight ⟨0, [askedUpload]⟩ ≤ twoByteParts.maxInFlightParts ∧
      endings askedUpload.state.log ≤ 1 ∧ Throughout Orderly askedUpload.state.log) ∧
    ∃ run, run 0 = ⟨0, [askedUpload]⟩ ∧ Fair twoByteParts run ∧
      ∃ n later, (run n).uploads[0]? = some later ∧ later.pc.isEnded = true ∧
        endings later.state.log = if .created ∈ later.state.log then 1 else 0 := by
  obtain ⟨hparts, huploads, hends⟩ := upload_lifecycle askedUpload_reachable
  obtain ⟨hle, -, horderly, -⟩ := huploads askedUpload (.head _)
  obtain ⟨run, hstart, hf⟩ := exists_fair askedUpload_completes twoPartUpload_quiet
  exact ⟨⟨hparts, hle, horderly⟩, run, hstart, hf, hends run hstart hf 0 askedUpload rfl nofun⟩

end SilkChiffon.Storage
