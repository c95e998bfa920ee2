import SilkChiffon.Lib.Producer
import SilkChiffon.Storage.Fidelity

/-!
# A producer and its upload

An `ObjectUploadTask` couples a format's producer task, which reads batches
from a bounded channel and writes the object's bytes, to the upload of these
bytes. A step is one access to what the owner, the producer and the upload's
task share, and they are taken in any order. The permits of the session are
left out: a step here may take one whenever it likes.
-/

namespace SilkChiffon.Storage

-- ---------------------------------------------------------------------------
-- States
-- ---------------------------------------------------------------------------

inductive SinkError
  | task (primary : TaskError) (cleanup : Option ObjectUploadError)
  | upload (error : ObjectUploadError)
  deriving DecidableEq

inductive Why
  /-- `finish` joined a producer that failed. -/
  | failed (error : TaskError)
  | abort (wasFinished : Bool)
  | drop
  deriving DecidableEq

def Why.how : Why → Release
  | failed _ => .abort
  | abort _ => .abort
  | drop => .drop

/-- The sink that owns the task. It has cancelled the token and not yet
closed the channel while `cancelling`. -/
inductive TaskOwner (ρ : Type)
  | held
  | finishing
  | completing (value : ρ)
  | cancelling (how : Release)
  | closing (how : Release)
  | releasing (why : Why)
  | awaiting (why : Why) (terminalSent : Bool)
  | finished (result : Except SinkError ρ)
  | aborted (result : Except SinkError Unit)
  | dropped

inductive ProducerTask (ρ σ : Type)
  | running (p : σ)
  | ended (result : Except TaskError ρ)

def ProducerTask.isFinished : ProducerTask ρ σ → Bool
  | running _ => false
  | ended _ => true

structure ObjectUploadTask (α ρ σ : Type) where
  owner : TaskOwner ρ
  cancelled : Bool
  /-- The sending end of the channel. -/
  sender : Bool
  queue : List α
  /-- Every item that entered the channel. -/
  accepted : List α
  task : ProducerTask ρ σ
  /-- The bytes of the producer's current write. -/
  writing : Option Bytes
  upload : ObjectUpload

def abortResult (terminalSent : Bool) : Except ObjectUploadError Bool → Except ObjectUploadError Unit
  | .error e => .error e
  | .ok _ => if terminalSent then .ok () else .error .abort

def cleanupError : Except ObjectUploadError Unit → Option ObjectUploadError
  | .error e => some e
  | .ok () => none

def taskErrorAfterCancel (wasFinished : Bool) : Except TaskError ρ → Option TaskError
  | .error .panicked => some .panicked
  | .error .failed => if wasFinished then some .failed else none
  | .ok _ => none

def stopResult (wasFinished : Bool) (task : Except TaskError ρ) (upload : Except ObjectUploadError Unit) :
    Except SinkError Unit :=
  match taskErrorAfterCancel wasFinished task with
  | some primary => .error (.task primary (cleanupError upload))
  | none => upload.mapError .upload

/-- The writer is taken from the upload before the producer starts. -/
def startedUpload (kind : WriterKind) : ObjectUpload :=
  ⟨.pollTerminal, { UploadState.new with writer := some ⟨kind, []⟩, receiverOpen := true }⟩

namespace ObjectUploadTask

def spawn (kind : WriterKind) (P : Producer α ρ σ) : ObjectUploadTask α ρ σ where
  owner := .held
  cancelled := false
  sender := true
  queue := []
  accepted := []
  task := .running P.init
  writing := none
  upload := startedUpload kind

/-- The producer is gone, and with it the receiving end and the byte writer. -/
def stop (t : ObjectUploadTask α ρ σ) (result : Except TaskError ρ) : ObjectUploadTask α ρ σ :=
  { t with
    task := .ended result
    queue := []
    writing := none
    upload := ⟨t.upload.pc, { t.upload.state with writer := none }⟩ }

-- ---------------------------------------------------------------------------
-- Steps
-- ---------------------------------------------------------------------------

inductive Step (s : ObjectUploadSettings) (P : Producer α ρ σ) (depth : Nat)
    (t : ObjectUploadTask α ρ σ) : ObjectUploadTask α ρ σ → Prop
  -- the sink
  | accept (ho : t.owner = .held) (hs : t.sender = true) (ht : t.task = .running p)
      (hq : t.queue.length < depth) (a : α) :
      Step s P depth t { t with queue := t.queue ++ [a], accepted := t.accepted ++ [a] }
  | finish (ho : t.owner = .held) : Step s P depth t { t with sender := false, owner := .finishing }
  | cancel (ho : t.owner = .held) (how : Release) :
      Step s P depth t { t with cancelled := true, owner := .cancelling how }
  | close (ho : t.owner = .cancelling how) :
      Step s P depth t { t with sender := false, owner := .closing how }
  | abort (ho : t.owner = .closing .abort) :
      Step s P depth t { t with owner := .releasing (.abort t.task.isFinished) }
  | drop (ho : t.owner = .closing .drop) : Step s P depth t { t with owner := .releasing .drop }
  -- `ObjectUploadTask::finish`
  | joined (ho : t.owner = .finishing) (ht : t.task = .ended (.ok value))
      (h : OwnerStep t.upload.pc t.upload.state pc u) (hu : u.owner = .asked terminalSent) :
      Step s P depth t { t with owner := .completing value, upload := ⟨pc, u⟩ }
  | joinFailed (ho : t.owner = .finishing) (ht : t.task = .ended (.error e)) :
      Step s P depth t { t with owner := .releasing (.failed e) }
  | completed (ho : t.owner = .completing value) (hc : t.upload.completed = some result) :
      Step s P depth t
        { t with owner := .finished ((result.mapError .upload).map fun _ => value) }
  -- letting go of the upload: its token first, then the terminal action
  | cancelUpload (ho : t.owner = .releasing why) (h : OwnerStep t.upload.pc t.upload.state pc u)
      (hu : u.owner = .cancelled why.how) : Step s P depth t { t with upload := ⟨pc, u⟩ }
  | releaseUpload (ho : t.owner = .releasing why) (h : OwnerStep t.upload.pc t.upload.state pc u)
      (hu : u.owner = .released why.how) :
      Step s P depth t { t with owner := .awaiting why (!t.upload.pc.isEnded), upload := ⟨pc, u⟩ }
  | failed (ho : t.owner = .awaiting (.failed e) terminalSent) (hpc : t.upload.pc = .ended result) :
      Step s P depth t
        { t with owner := .finished (.error (.task e (cleanupError (abortResult terminalSent result)))) }
  | aborted (ho : t.owner = .awaiting (.abort wasFinished) terminalSent)
      (ht : t.task = .ended outcome) (hpc : t.upload.pc = .ended result) :
      Step s P depth t
        { t with owner := .aborted (stopResult wasFinished outcome (abortResult terminalSent result)) }
  -- a future that is dropped while it waits, and the drop of the task behind it
  | dropFinish (ho : t.owner = .finishing) : Step s P depth t { t with owner := .releasing .drop }
  | dropComplete (ho : t.owner = .completing value) : Step s P depth t { t with owner := .dropped }
  | dropCleanup (ho : t.owner = .awaiting why terminalSent) : Step s P depth t { t with owner := .dropped }
  | cancelDropped (ho : t.owner = .dropped ∨ t.owner = .releasing .drop) :
      Step s P depth t { t with cancelled := true }
  -- the producer
  | work (ht : t.task = .running p) (hw : t.writing = none) (hp : P.step p .work p') :
      Step s P depth t { t with task := .running p' }
  | look (ht : t.task = .running p) (hw : t.writing = none) (hp : P.step p (.look t.cancelled) p') :
      Step s P depth t { t with task := .running p' }
  | receive (ht : t.task = .running p) (hw : t.writing = none) (hp : P.step p (.receive a) p')
      (hq : t.queue = a :: rest) : Step s P depth t { t with task := .running p', queue := rest }
  | ended (ht : t.task = .running p) (hw : t.writing = none) (hp : P.step p .ended p')
      (hs : t.sender = false) (hq : t.queue = []) : Step s P depth t { t with task := .running p' }
  | write (ht : t.task = .running p) (hw : t.writing = none) (hp : P.step p (.wrote bytes) p')
      (hu : t.upload = ⟨pc, u⟩) (hk : u.writer = some ⟨kind, []⟩) :
      Step s P depth t
        { t with
          writing := some bytes
          upload := ⟨pc, { u with writer := some ⟨kind, kind.chunks s.partSize bytes⟩ }⟩ }
  | send (ht : t.task = .running p) (hw : t.writing = some bytes) (hu : t.upload = ⟨pc, u⟩)
      (hk : u.writer = some ⟨kind, chunk :: pending⟩) (hopen : u.receiverOpen = true)
      (hq : u.queue.length ≤ 1) :
      Step s P depth t
        { t with
          upload :=
            ⟨pc, { u with
              writer := some ⟨kind, pending⟩
              queue := u.queue ++ [chunk]
              accepted := u.accepted ++ [chunk] }⟩ }
  | wrote (ht : t.task = .running p) (hw : t.writing = some bytes) (hp : P.step p (.wrote bytes) p')
      (hk : t.upload.state.writer = some ⟨kind, []⟩) :
      Step s P depth t { t with task := .running p', writing := none }
  | writeFailed (ht : t.task = .running p) (hw : t.writing = some bytes)
      (hp : P.step p (.writeFailed bytes) p') (hu : t.upload = ⟨pc, u⟩)
      (hk : u.writer = some ⟨kind, chunk :: pending⟩) (hopen : u.receiverOpen = false) :
      Step s P depth t
        { t with
          task := .running p'
          writing := none
          upload := ⟨pc, { u with writer := some ⟨kind, []⟩ }⟩ }
  | returned (ht : t.task = .running p) (hw : t.writing = none) (hp : P.returns p result) :
      Step s P depth t (t.stop result)
  | preempted (ht : t.task = .running p) (hc : t.cancelled = true) (hp : P.preempted) :
      Step s P depth t (t.stop (.error .failed))
  | panicked (ht : t.task = .running p) : Step s P depth t (t.stop (.error .panicked))
  -- the upload
  | uploadTask (hu : t.upload = ⟨pc, u⟩) (h : Storage.TaskStep s permit pc u pc' u') :
      Step s P depth t { t with upload := ⟨pc', u'⟩ }
  | uploadPart (hu : t.upload = ⟨pc, u⟩) (h : PartStep u u') :
      Step s P depth t { t with upload := ⟨pc, u'⟩ }

/-- Where the owner, the producer and the upload can get to in any
interleaving. -/
def Reachable (s : ObjectUploadSettings) (P : Producer α ρ σ) (depth : Nat) (kind : WriterKind)
    (t : ObjectUploadTask α ρ σ) : Prop :=
  Relation.ReflTransGen (Step s P depth) (spawn kind P) t

-- ---------------------------------------------------------------------------
-- The upload under the task
-- ---------------------------------------------------------------------------

theorem taskStep_writer (h : Storage.TaskStep s permit pc u pc' u') :
    u'.writer = u.writer ∧ u'.accepted = u.accepted := by
  cases h <;> exact ⟨rfl, rfl⟩

theorem partStep_writer (h : PartStep u u') :
    u'.owner = u.owner ∧ u'.writer = u.writer ∧ u'.accepted = u.accepted := by
  cases h <;> exact ⟨rfl, rfl, rfl⟩

theorem ownerStep_writer (h : OwnerStep pc u pc' u') (hne : u'.owner ≠ .held) :
    u'.writer = u.writer ∧ u'.accepted = u.accepted := by
  cases h with
  | start ho => exact absurd ho hne
  | _ => exact ⟨rfl, rfl⟩

def Bridged (t : ObjectUploadTask α ρ σ) : Prop :=
  ∀ writer, t.upload.state.writer = some writer → writer.kind ≠ .direct

theorem Bridged.of_writer {t t' : ObjectUploadTask α ρ σ} (hb : t.Bridged)
    (h : t'.upload.state.writer = t.upload.state.writer) : t'.Bridged :=
  fun writer hw => hb writer (h ▸ hw)

theorem Bridged.rewrite {t : ObjectUploadTask α ρ σ} {u u' : UploadState} (hb : t.Bridged)
    (hu : t.upload = ⟨pc, u⟩) (hk : u.writer = some ⟨kind, pending⟩) (hk' : u'.writer = some ⟨kind, pending'⟩) :
    ∀ writer, u'.writer = some writer → writer.kind ≠ .direct := by
  intro writer hw
  obtain rfl := Option.some.inj (hk'.symm.trans hw)
  exact hb ⟨kind, pending⟩ (by rw [hu]; exact hk)

theorem step_bridged {t t' : ObjectUploadTask α ρ σ} (h : Step s P depth t t') (hb : t.Bridged) :
    t'.Bridged := by
  cases h with
  | joined _ _ h hu | cancelUpload _ h hu | releaseUpload _ h hu =>
    exact hb.of_writer (ownerStep_writer h (by simp [hu])).1
  | write _ _ _ hu hk | send _ _ hu hk | writeFailed _ _ _ hu hk => exact hb.rewrite hu hk rfl
  | returned | preempted | panicked => exact fun _ hw => nomatch hw
  | uploadTask hu h => exact hb.of_writer (by rw [hu]; exact (taskStep_writer h).1)
  | uploadPart hu h => exact hb.of_writer (by rw [hu]; exact (partStep_writer h).2.1)
  | _ => exact hb

theorem step_upload {t t' : ObjectUploadTask α ρ σ} (h : Step s P depth t t') (hb : t.Bridged) :
    t'.upload = t.upload ∨ ∃ permit,
      UploadStep s permit t.upload.pc t.upload.state t'.upload.pc t'.upload.state := by
  cases h with
  | joined _ _ h | cancelUpload _ h | releaseUpload _ h => exact .inr ⟨.keep, .owner h⟩
  | @write _ _ _ _ u kind _ _ _ hu hk =>
    have hkind : kind ≠ .direct := hb ⟨kind, []⟩ (by rw [hu]; exact hk)
    rw [hu]
    exact .inr ⟨.keep, .writer (.write hk (fun h => absurd h hkind) _)⟩
  | send _ _ hu hk hopen hq =>
    rw [hu]
    exact .inr ⟨.keep, .writer (.send hk hopen hq)⟩
  | writeFailed _ _ _ hu hk hopen =>
    rw [hu]
    exact .inr ⟨.keep, .writer (.sendFailed hk hopen)⟩
  | returned | preempted | panicked => exact .inr ⟨.keep, .writer .drop⟩
  | uploadTask hu h =>
    rw [hu]
    exact .inr ⟨_, .task h⟩
  | uploadPart hu h =>
    rw [hu]
    exact .inr ⟨.give, .part h⟩
  | _ => exact .inl rfl

theorem reachable_upload {Inv : ObjectUpload → Prop} {t : ObjectUploadTask α ρ σ}
    (hkind : kind ≠ .direct) (hstart : Inv (startedUpload kind))
    (hstep : ∀ permit pc u pc' u', Inv ⟨pc, u⟩ → UploadStep s permit pc u pc' u' → Inv ⟨pc', u'⟩)
    (h : Reachable s P depth kind t) : t.Bridged ∧ Inv t.upload := by
  induction h with
  | refl =>
    refine ⟨fun writer hw => ?_, hstart⟩
    obtain rfl := Option.some.inj hw
    exact hkind
  | tail _ step ih =>
    obtain ⟨hb, hinv⟩ := ih
    refine ⟨step_bridged step hb, ?_⟩
    rcases step_upload step hb with heq | ⟨permit, h⟩
    · rwa [heq]
    · exact hstep _ _ _ _ _ hinv h

-- ---------------------------------------------------------------------------
-- The owner
-- ---------------------------------------------------------------------------

end ObjectUploadTask

/-- The owner still means to complete the object, or is done with `finish`. -/
def TaskOwner.live : TaskOwner ρ → Bool
  | held | finishing | completing _ | releasing (.failed _) | awaiting (.failed _) _ | finished _ => true
  | _ => false

def TaskOwner.sends : TaskOwner ρ → Bool
  | held | cancelling _ => true
  | _ => false

/-- What an owner that has got so far knows of the producer and the upload. -/
def TaskOwner.Knows (task : ProducerTask ρ σ) (upload : ObjectUpload) : TaskOwner ρ → Prop
  | completing value => task = .ended (.ok value) ∧ ∃ sent, upload.state.owner = .asked sent
  | finished (.ok value) => task = .ended (.ok value) ∧ upload.completed = some (.ok ())
  | finished (.error (.upload e)) =>
    (∃ value, task = .ended (.ok value)) ∧ upload.completed = some (.error e)
  | finished (.error (.task e _)) =>
    task = .ended (.error e) ∧ upload.state.owner.hasAsked = false ∧ upload.pc.isEnded = true
  | releasing (.failed e) | awaiting (.failed e) _ =>
    task = .ended (.error e) ∧ upload.state.owner.hasAsked = false
  | aborted _ =>
    task.isFinished = true ∧ upload.state.owner.hasAsked = false ∧ upload.pc.isEnded = true
  | dropped => upload.state.owner.hasAsked = true → ∃ value, task = .ended (.ok value)
  | _ => upload.state.owner.hasAsked = false

theorem completed_asked {upload : ObjectUpload} (h : upload.completed = some result) :
    upload.pc.isEnded = true ∧ upload.state.owner.hasAsked = true := by
  unfold ObjectUpload.completed at h
  split at h
  · next howner hpc => simp [howner, hpc, Pc.isEnded, Owner.hasAsked]
  · cases h

def TaskOwner.early : TaskOwner ρ → Bool
  | completing _ | finished _ | aborted _ | releasing (.failed _) | awaiting (.failed _) _ => false
  | _ => true

theorem TaskOwner.Knows.of_early {owner : TaskOwner ρ} (he : owner.early = true)
    (hidle : upload.state.owner.hasAsked = false) (task : ProducerTask ρ σ) : owner.Knows task upload := by
  cases owner with
  | held | finishing | cancelling | closing => exact hidle
  | completing | finished | aborted => cases he
  | releasing why | awaiting why =>
    cases why with
    | failed => cases he
    | abort | drop => exact hidle
  | dropped => exact fun hasked => absurd (hidle.symm.trans hasked) Bool.false_ne_true

theorem TaskOwner.Knows.running {owner : TaskOwner ρ} {p : σ} (hk : owner.Knows (.running p) upload) :
    owner.early = true ∧ upload.state.owner.hasAsked = false := by
  cases owner with
  | held | finishing | cancelling | closing => exact ⟨rfl, hk⟩
  | completing => cases hk.1
  | releasing why | awaiting why =>
    cases why with
    | failed => cases hk.1
    | abort | drop => exact ⟨rfl, hk⟩
  | finished result =>
    cases result with
    | ok => cases hk.1
    | error e =>
      cases e with
      | task => cases hk.1
      | upload =>
        obtain ⟨⟨_, hk⟩, -⟩ := hk
        cases hk
  | aborted => cases hk.1
  | dropped =>
    refine ⟨rfl, Bool.eq_false_iff.mpr fun hasked => ?_⟩
    obtain ⟨_, hk⟩ := hk hasked
    cases hk

/-- An object is asked for behind a producer that returned a value. -/
theorem TaskOwner.Knows.asked {owner : TaskOwner ρ} {task : ProducerTask ρ σ} (hk : owner.Knows task upload)
    (hasked : upload.state.owner.hasAsked = true) : ∃ value, task = .ended (.ok value) := by
  have hidle : ¬upload.state.owner.hasAsked = false := by simp [hasked]
  cases owner with
  | held | finishing | cancelling | closing => exact absurd hk hidle
  | completing value => exact ⟨value, hk.1⟩
  | releasing why | awaiting why =>
    cases why with
    | failed => exact absurd hk.2 hidle
    | abort | drop => exact absurd hk hidle
  | finished result =>
    cases result with
    | ok value => exact ⟨value, hk.1⟩
    | error e =>
      cases e with
      | task => exact absurd hk.2.1 hidle
      | upload => exact hk.1
  | aborted => exact absurd hk.2.1 hidle
  | dropped => exact hk hasked

theorem TaskOwner.Knows.uploading {owner : TaskOwner ρ} {task : ProducerTask ρ σ} (hk : owner.Knows task upload)
    (hu : upload'.state.owner = upload.state.owner)
    (hpc : upload.pc.isEnded = true → upload'.pc = upload.pc) : owner.Knows task upload' := by
  have hcompleted : ∀ result, upload.completed = some result → upload'.completed = some result := by
    intro result h
    have hsame := hpc (completed_asked h).1
    rwa [ObjectUpload.completed, hsame, hu]
  have hidle : upload.state.owner.hasAsked = false → upload'.state.owner.hasAsked = false := by
    rw [hu]
    exact id
  have hended : upload.pc.isEnded = true → upload'.pc.isEnded = true := fun h => by rwa [hpc h]
  cases owner with
  | held | finishing | cancelling | closing => exact hidle hk
  | completing => exact ⟨hk.1, hu ▸ hk.2⟩
  | releasing why | awaiting why =>
    cases why with
    | failed => exact ⟨hk.1, hidle hk.2⟩
    | abort | drop => exact hidle hk
  | finished result =>
    cases result with
    | ok => exact ⟨hk.1, hcompleted _ hk.2⟩
    | error e =>
      cases e with
      | task => exact ⟨hk.1, hidle hk.2.1, hended hk.2.2⟩
      | upload => exact ⟨hk.1, hcompleted _ hk.2⟩
  | aborted => exact ⟨hk.1, hidle hk.2.1, hended hk.2.2⟩
  | dropped => exact fun hasked => hk (hu ▸ hasked)

namespace ObjectUploadTask

theorem step_knows {t t' : ObjectUploadTask α ρ σ} (h : Step s P depth t t')
    (hk : t.owner.Knows t.task t.upload) : t'.owner.Knows t'.task t'.upload := by
  cases h with
  | accept _ _ ht | work ht | look ht | receive ht | ended ht | wrote ht | returned ht | preempted ht
  | panicked ht =>
    rw [ht] at hk
    exact .of_early hk.running.1 hk.running.2 _
  | write ht _ _ hu | send ht _ hu | writeFailed ht _ _ hu =>
    rw [ht, hu] at hk
    exact .of_early hk.running.1 hk.running.2 _
  | uploadTask hu h =>
    rw [hu] at hk
    exact hk.uploading (taskStep_owner h) (by cases h <;> exact fun hended => nomatch hended)
  | uploadPart hu h =>
    rw [hu] at hk
    exact hk.uploading (partStep_writer h).1 fun _ => rfl
  | finish ho | cancel ho | close ho | abort ho | drop ho | dropFinish ho =>
    rw [ho] at hk
    exact hk
  | joined ho ht h hu => exact ⟨ht, _, hu⟩
  | joinFailed ho ht =>
    rw [ho] at hk
    exact ⟨ht, hk⟩
  | @completed value result ho hc =>
    rw [ho] at hk
    cases result with
    | ok => exact ⟨hk.1, hc⟩
    | error e => exact ⟨⟨value, hk.1⟩, hc⟩
  | @cancelUpload why _ _ ho h hu =>
    rw [ho] at hk ⊢
    cases why with
    | failed => exact ⟨hk.1, congrArg Owner.hasAsked hu⟩
    | abort | drop => exact congrArg Owner.hasAsked hu
  | @releaseUpload why _ _ ho h hu =>
    rw [ho] at hk
    cases why with
    | failed => exact ⟨hk.1, congrArg Owner.hasAsked hu⟩
    | abort | drop => exact congrArg Owner.hasAsked hu
  | failed ho hpc =>
    rw [ho] at hk
    exact ⟨hk.1, hk.2, congrArg Pc.isEnded hpc⟩
  | aborted ho ht hpc =>
    rw [ho] at hk
    exact ⟨congrArg ProducerTask.isFinished ht, hk, congrArg Pc.isEnded hpc⟩
  | dropComplete ho =>
    rw [ho] at hk
    exact fun _ => ⟨_, hk.1⟩
  | @dropCleanup why _ ho =>
    rw [ho] at hk
    intro hasked
    cases why with
    | failed => exact absurd (hk.2.symm.trans hasked) Bool.false_ne_true
    | abort | drop => exact absurd (hk.symm.trans hasked) Bool.false_ne_true
  | cancelDropped ho => exact hk

/-- The token is cancelled only on behalf of an owner that gives up. -/
theorem step_token {t t' : ObjectUploadTask α ρ σ} (h : Step s P depth t t')
    (hk : t.owner.live = true → t.cancelled = false) : t'.owner.live = true → t'.cancelled = false := by
  cases h with
  | cancel | close | abort | drop | aborted | dropFinish | dropComplete | dropCleanup => exact nofun
  | finish ho | joined ho | joinFailed ho | completed ho | failed ho =>
    rw [ho] at hk
    exact hk
  | @releaseUpload why _ _ ho =>
    rw [ho] at hk
    cases why with
    | failed => exact hk
    | abort | drop => exact nofun
  | cancelDropped ho =>
    intro hlive
    rcases ho with ho | ho
    · exact nomatch ho ▸ hlive
    · exact nomatch ho ▸ hlive
  | _ => exact hk

theorem step_sender {t t' : ObjectUploadTask α ρ σ} (h : Step s P depth t t')
    (hk : t.sender = true → t.owner.sends = true) : t'.sender = true → t'.owner.sends = true := by
  cases h with
  | finish | close => exact nofun
  | cancel => exact fun _ => rfl
  | abort ho | drop ho | joined ho | joinFailed ho | completed ho | releaseUpload ho | failed ho | aborted ho
  | dropFinish ho | dropComplete ho | dropCleanup ho =>
    rw [ho] at hk
    exact fun hs => nomatch hk hs
  | _ => exact hk

-- ---------------------------------------------------------------------------
-- The producer's history
-- ---------------------------------------------------------------------------

structure Handed (t : ObjectUploadTask α ρ σ) (written : Bytes) : Prop where
  accepted : t.upload.state.accepted.flatten ++
    (t.upload.state.writer.map fun writer => writer.pending.flatten).getD [] =
      written ++ t.writing.getD []
  idle : t.writing = none → ∀ writer, t.upload.state.writer = some writer → writer.pending = []

/-- A producer that runs has received, in order, what is no longer queued. -/
structure Fed (P : Producer α ρ σ) (t : ObjectUploadTask α ρ σ) (h : History α) (p : σ) : Prop where
  run : P.Run h p
  received : h.received ++ t.queue = t.accepted
  ended : h.ended = true → t.sender = false ∧ t.queue = []
  handed : h.intact = true → t.Handed h.written

structure Returned (P : Producer α ρ σ) (t : ObjectUploadTask α ρ σ) (value : ρ) (h : History α) (p : σ) :
    Prop where
  run : P.Run h p
  returns : P.returns p (.ok value)
  received : h.received <+: t.accepted
  ended : h.ended = true → t.sender = false ∧ h.received = t.accepted
  handed : h.intact = true → t.upload.state.accepted.flatten = h.written

def Traced (P : Producer α ρ σ) (t : ObjectUploadTask α ρ σ) : Prop :=
  t.cancelled = false ∨ t.upload.state.owner.hasAsked = true →
    match t.task with
    | .running p => ∃ h, Fed P t h p
    | .ended (.ok value) => ∃ h p, Returned P t value h p
    | .ended (.error _) => True

structure Framed (t t' : ObjectUploadTask α ρ σ) : Prop where
  task : t'.task = t.task
  queue : t'.queue = t.queue
  accepted : t'.accepted = t.accepted
  writing : t'.writing = t.writing
  writer : t'.upload.state.writer = t.upload.state.writer
  uploaded : t'.upload.state.accepted = t.upload.state.accepted
  sender : t.sender = false → t'.sender = false

theorem Handed.framed {t t' : ObjectUploadTask α ρ σ} (hh : t.Handed written) (hf : Framed t t') :
    t'.Handed written where
  accepted := by
    rw [hf.uploaded, hf.writer, hf.writing]
    exact hh.accepted
  idle := by
    rw [hf.writing, hf.writer]
    exact hh.idle

theorem Traced.framed {t t' : ObjectUploadTask α ρ σ} (hT : Traced P t) (hf : Framed t t')
    (hc : t'.cancelled = false ∨ t'.upload.state.owner.hasAsked = true →
      t.cancelled = false ∨ t.upload.state.owner.hasAsked = true) : Traced P t' := by
  intro hcond
  have hT := hT (hc hcond)
  rw [hf.task]
  split at hT
  · obtain ⟨h, hfed⟩ := hT
    exact ⟨h,
      { run := hfed.run
        received := by rw [hf.queue, hf.accepted]; exact hfed.received
        ended := fun he => ⟨hf.sender (hfed.ended he).1, hf.queue ▸ (hfed.ended he).2⟩
        handed := fun hi => (hfed.handed hi).framed hf }⟩
  · obtain ⟨h, p, hreturned⟩ := hT
    exact ⟨h, p,
      { run := hreturned.run
        returns := hreturned.returns
        received := hf.accepted ▸ hreturned.received
        ended := fun he => ⟨hf.sender (hreturned.ended he).1, hf.accepted ▸ (hreturned.ended he).2⟩
        handed := fun hi => by rw [hf.uploaded]; exact hreturned.handed hi }⟩
  · trivial

theorem Traced.running {t : ObjectUploadTask α ρ σ} (hT : Traced P t) (ht : t.task = .running p)
    (hc : t.cancelled = false) : ∃ h, Fed P t h p := by
  have hT := hT (.inl hc)
  rwa [ht] at hT

theorem Traced.advance {t t' : ObjectUploadTask α ρ σ} (hT : Traced P t) (ht : t.task = .running p)
    (hc : t'.cancelled = false ∨ t'.upload.state.owner.hasAsked = true → t.cancelled = false)
    (ht' : t'.task = .running p') (hfed : ∀ h, Fed P t h p → t.cancelled = false → ∃ h', Fed P t' h' p') :
    Traced P t' := by
  intro hcond
  have hc := hc hcond
  obtain ⟨h, hfed'⟩ := hT.running ht hc
  rw [ht']
  exact hfed h hfed' hc

theorem Fed.returned {t : ObjectUploadTask α ρ σ} (hfed : Fed P t h p) (hw : t.writing = none)
    (hp : P.returns p (.ok value)) : Returned P (t.stop (.ok value)) value h p where
  run := hfed.run
  returns := hp
  received := ⟨t.queue, hfed.received⟩
  ended he := by
    obtain ⟨hs, hq⟩ := hfed.ended he
    refine ⟨hs, ?_⟩
    show h.received = t.accepted
    rw [← hfed.received, hq, List.append_nil]
  handed hi := by
    obtain ⟨haccepted, hidle⟩ := hfed.handed hi
    have hpending : (t.upload.state.writer.map fun writer => writer.pending.flatten).getD [] = [] := by
      cases hwriter : t.upload.state.writer with
      | none => rfl
      | some writer => simp [hidle hw writer hwriter]
    rw [hpending, hw] at haccepted
    show t.upload.state.accepted.flatten = h.written
    simpa using haccepted

/-- Looking at the token or at the channel, and being told nothing new about
what was written. -/
theorem Fed.act {t t' : ObjectUploadTask α ρ σ} (hfed : Fed P t h p) (hp : P.step p action p')
    (hadd : h.add action = some h') (hreceived : h'.received ++ t'.queue = t'.accepted)
    (hended : h'.ended = true → t'.sender = false ∧ t'.queue = [])
    (hhanded : h'.intact = true → h.intact = true ∧ h'.written = h.written)
    (hsame : t'.upload = t.upload) (hwriting : t'.writing = t.writing) : Fed P t' h' p' where
  run := .step hfed.run hadd hp
  received := hreceived
  ended := hended
  handed hi := by
    obtain ⟨hintact, hwritten⟩ := hhanded hi
    obtain ⟨haccepted, hidle⟩ := hfed.handed hintact
    rw [hwritten]
    exact ⟨by rw [hsame, hwriting]; exact haccepted, by rw [hsame, hwriting]; exact hidle⟩

theorem step_traced {t t' : ObjectUploadTask α ρ σ} (h : Step s P depth t t')
    (hknows : t.owner.Knows t.task t.upload) (htoken : t.owner.live = true → t.cancelled = false)
    (hT : Traced P t) : Traced P t' := by
  have hrunning : ∀ {p}, t.task = .running p →
      t.cancelled = false ∨ t.upload.state.owner.hasAsked = true → t.cancelled = false := by
    intro p ht hcond
    have hidle := (ht ▸ hknows).running.2
    simpa [hidle] using hcond
  cases h with
  | accept ho hs ht hq a =>
    refine hT.advance ht (hrunning ht) ht fun h hfed _ => ⟨h, hfed.run, ?_, ?_, ?_⟩
    · show h.received ++ (t.queue ++ [a]) = t.accepted ++ [a]
      rw [← hfed.received, List.append_assoc]
    · exact fun he => absurd (hs.symm.trans (hfed.ended he).1) (by decide)
    · exact fun hi => ⟨(hfed.handed hi).accepted, (hfed.handed hi).idle⟩
  | finish | close => exact hT.framed ⟨rfl, rfl, rfl, rfl, rfl, rfl, fun _ => rfl⟩ id
  | cancel ho =>
    rw [ho] at hknows
    rintro (hc | hasked)
    · cases hc
    · exact absurd (hknows.symm.trans hasked) Bool.false_ne_true
  | abort | drop | joinFailed | completed | failed | aborted | dropFinish | dropComplete | dropCleanup =>
    exact hT.framed ⟨rfl, rfl, rfl, rfl, rfl, rfl, id⟩ id
  | joined ho ht h hu =>
    obtain ⟨hwriter, haccepted⟩ := ownerStep_writer h (by simp [hu])
    exact hT.framed ⟨rfl, rfl, rfl, rfl, hwriter, haccepted, id⟩ fun _ => .inl (htoken (by rw [ho]; rfl))
  | cancelUpload ho h hu | releaseUpload ho h hu =>
    obtain ⟨hwriter, haccepted⟩ := ownerStep_writer h (by simp [hu])
    refine hT.framed ⟨rfl, rfl, rfl, rfl, hwriter, haccepted, id⟩ fun hcond => .inl ?_
    simpa [hu, Owner.hasAsked] using hcond
  | cancelDropped ho =>
    exact hT.framed ⟨rfl, rfl, rfl, rfl, rfl, rfl, id⟩ fun hcond => .inr (by simpa using hcond)
  | work ht hw hp =>
    exact hT.advance ht (hrunning ht) rfl fun h hfed _ =>
      ⟨h, hfed.act hp rfl hfed.received hfed.ended (fun hi => ⟨hi, rfl⟩) rfl rfl⟩
  | look ht hw hp =>
    refine hT.advance ht (hrunning ht) rfl fun h hfed hc => ?_
    rw [hc] at hp
    exact ⟨h, hfed.act hp rfl hfed.received hfed.ended (fun hi => ⟨hi, rfl⟩) rfl rfl⟩
  | @receive _ a _ rest ht hw hp hq =>
    refine hT.advance ht (hrunning ht) rfl fun h hfed _ => ?_
    have hopen : h.ended = false :=
      Bool.eq_false_iff.mpr fun he => List.cons_ne_nil a rest (hq.symm.trans (hfed.ended he).2)
    refine ⟨{ h with received := h.received ++ [a] }, hfed.act hp (by simp [History.add, hopen]) ?_
      (fun he => absurd (hopen.symm.trans he) Bool.false_ne_true) (fun hi => ⟨hi, rfl⟩) rfl rfl⟩
    show h.received ++ [a] ++ rest = t.accepted
    rw [← hfed.received, hq, List.append_assoc, List.singleton_append]
  | ended ht hw hp hs hq =>
    exact hT.advance ht (hrunning ht) rfl fun h hfed _ =>
      ⟨{ h with ended := true }, hfed.act hp rfl hfed.received (fun _ => ⟨hs, hq⟩) (fun hi => ⟨hi, rfl⟩) rfl rfl⟩
  | @write _ bytes _ pc u kind ht hw hp hu hk =>
    refine hT.advance ht (by rw [hu] at hrunning; exact hrunning ht) ht fun h hfed _ =>
      ⟨h, hfed.run, hfed.received, hfed.ended, fun hi => ⟨?_, nofun⟩⟩
    obtain ⟨haccepted, -⟩ := hfed.handed hi
    have hbytes : u.accepted.flatten = h.written := by simpa [hu, hk, hw] using haccepted
    show u.accepted.flatten ++ (kind.chunks s.partSize bytes).flatten = h.written ++ bytes
    rw [hbytes, kind.flatten_chunks s.partSize_pos]
  | send ht hw hu hk hopen hq =>
    refine hT.advance ht (by rw [hu] at hrunning; exact hrunning ht) ht fun h hfed _ =>
      ⟨h, hfed.run, hfed.received, hfed.ended, fun hi => ⟨?_, fun hnone => nomatch hw.symm.trans hnone⟩⟩
    obtain ⟨haccepted, -⟩ := hfed.handed hi
    simpa [hu, hk] using haccepted
  | @wrote _ bytes _ kind ht hw hp hk =>
    refine hT.advance ht (hrunning ht) rfl fun h hfed _ =>
      ⟨{ h with written := h.written ++ bytes }, .step hfed.run rfl hp, hfed.received, hfed.ended, fun hi => ⟨?_, ?_⟩⟩
    · obtain ⟨haccepted, -⟩ := hfed.handed hi
      simpa [hw] using haccepted
    · intro _ writer hwriter
      obtain rfl := Option.some.inj (hk.symm.trans hwriter)
      rfl
  | writeFailed ht hw hp hu hk hopen =>
    exact hT.advance ht (by rw [hu] at hrunning; exact hrunning ht) rfl fun h hfed _ =>
      ⟨{ h with intact := false }, .step hfed.run rfl hp, hfed.received, hfed.ended, nofun⟩
  | @returned p result ht hw hp =>
    intro hcond
    cases result with
    | error => trivial
    | ok value =>
      obtain ⟨h, hfed⟩ := hT.running ht (hrunning ht hcond)
      exact ⟨h, p, hfed.returned hw hp⟩
  | preempted | panicked => exact fun _ => trivial
  | uploadTask hu h =>
    obtain ⟨hwriter, haccepted⟩ := taskStep_writer h
    have howner := taskStep_owner h
    exact hT.framed ⟨rfl, rfl, rfl, rfl, by rw [hu]; exact hwriter, by rw [hu]; exact haccepted, id⟩
      (by rw [hu]; simp [howner])
  | uploadPart hu h =>
    obtain ⟨howner, hwriter, haccepted⟩ := partStep_writer h
    exact hT.framed ⟨rfl, rfl, rfl, rfl, by rw [hu]; exact hwriter, by rw [hu]; exact haccepted, id⟩
      (by rw [hu]; simp [howner])

-- ---------------------------------------------------------------------------
-- Every interleaving
-- ---------------------------------------------------------------------------

end ObjectUploadTask

def Call.durable : Call → Bool
  | stored _ | completed => true
  | _ => false

theorem storedObject_call {u : UploadState} (hstored : storedObject (u.call c).log ≠ none)
    (hc : c.durable = false) : storedObject u.log ≠ none := by
  intro hlog
  unfold storedObject at hlog
  split at hlog
  · cases hlog
  · next hnot => cases c <;> simp [storedObject, UploadState.call, hnot, hlog, Call.durable] at hstored hc

theorem uploadStep_durable (h : UploadStep s permit pc u pc' u')
    (hd : storedObject u.log ≠ none → pc = .ended (.ok true)) :
    storedObject u'.log ≠ none → pc' = .ended (.ok true) := by
  cases h with
  | task h =>
    cases h with
    | putOk | completed => exact fun _ => rfl
    | created | spawnPart | completePut | flushPart | joinedAll | shutdownDone =>
      exact fun hstored => nomatch hd (storedObject_call hstored rfl)
    | _ => exact fun hstored => nomatch hd hstored
  | part h =>
    cases h with
    | succeeded => exact hd
    | failed => exact fun hstored => hd (storedObject_call hstored rfl)
  | owner h =>
    cases h with
    | start | completeUnstarted | releaseUnstarted => exact fun hstored => nomatch hd hstored
    | _ => exact hd
  | writer h => cases h <;> exact hd

namespace ObjectUploadTask

theorem stored_stores (hstored : storedObject log ≠ none) : ∃ c ∈ log, c.stores = true := by
  by_contra hnone
  have hnone : ∀ c ∈ log, c.stores = false := by simpa using hnone
  have hcompleted : .completed ∉ log := fun h => nomatch hnone _ h
  rw [storedObject, if_neg hcompleted] at hstored
  obtain ⟨object, hobject⟩ := Option.ne_none_iff_exists'.mp hstored
  obtain ⟨c, hmem, hc⟩ := List.exists_of_findSome?_eq_some hobject
  have hc' := hnone c hmem
  cases c <;> simp [Call.stores] at hc hc'

/-- An upload that had returned when it was asked for an object has none. -/
def Late (upload : ObjectUpload) : Prop :=
  upload.state.owner = .asked false → upload.pc.isEnded = true ∧ storedObject upload.state.log = none

structure Uploading (s : ObjectUploadSettings) (upload : ObjectUpload) : Prop where
  lifecycle : Lifecycle upload
  faithful : Faithful s upload.state.bytes upload.state.Shut upload.pc
  durable : storedObject upload.state.log ≠ none → upload.pc = .ended (.ok true)
  late : Late upload

theorem Uploading.stores {upload : ObjectUpload} (hu : Uploading s upload)
    (hidle : upload.state.owner.hasAsked = false) : ∀ c ∈ upload.state.log, c.stores = false := fun c hc =>
  Bool.eq_false_iff.mpr fun hstores =>
    absurd (hidle.symm.trans (hu.lifecycle.asked (.inr (.inr ⟨c, hc, hstores⟩)))) Bool.false_ne_true

theorem Uploading.unasked {upload : ObjectUpload} (hu : Uploading s upload)
    (hidle : upload.state.owner.hasAsked = false) : storedObject upload.state.log = none := by
  by_contra hstored
  obtain ⟨c, hmem, hc⟩ := stored_stores hstored
  exact absurd ((hu.stores hidle c hmem).symm.trans hc) Bool.false_ne_true

theorem uploadStep_late (hu : Uploading s ⟨pc, u⟩) (h : UploadStep s permit pc u pc' u') : Late ⟨pc', u'⟩ := by
  intro howner
  cases h with
  | task h =>
    have hended : pc.isEnded = true := (hu.late ((taskStep_owner h).symm.trans howner)).1
    cases h <;> cases hended
  | part h =>
    obtain ⟨hended, hnone⟩ := hu.late ((partStep_writer h).1.symm.trans howner)
    refine ⟨hended, ?_⟩
    cases h with
    | succeeded => exact hnone
    | failed =>
      by_contra hstored
      exact storedObject_call hstored rfl hnone
  | owner h =>
    cases h with
    | completeUnstarted | releaseUnstarted | cancel | release => cases howner
    | start ho => cases ho.symm.trans howner
    | complete ho =>
      have hended : pc.isEnded = true := by simpa using howner
      exact ⟨hended, hu.unasked (congrArg Owner.hasAsked ho.1)⟩
  | writer h =>
    cases h <;> exact hu.late howner

theorem uploading_started (kind : WriterKind) : Uploading s (startedUpload kind) where
  lifecycle :=
    { recorded := .inl ⟨rfl, rfl, rfl⟩
      orderly := Throughout.nil
      asked := by
        rintro (h | h | ⟨c, hmem, -⟩)
        · cases h
        · cases h
        · cases hmem }
  faithful := .inl ⟨rfl, rfl, rfl, s.partSize_pos, rfl⟩
  durable h := absurd rfl h
  late := nofun

theorem uploadStep_uploading (hu : Uploading s ⟨pc, u⟩) (h : UploadStep s permit pc u pc' u') :
    Uploading s ⟨pc', u'⟩ where
  lifecycle :=
    ⟨uploadStep_recorded h hu.lifecycle.recorded,
      uploadStep_orderly h hu.lifecycle.recorded hu.lifecycle.orderly,
      uploadStep_asked h hu.lifecycle.asked⟩
  faithful := uploadStep_faithful h hu.faithful
  durable := uploadStep_durable h hu.durable
  late := uploadStep_late hu h

theorem Uploading.object {upload : ObjectUpload} {object : Bytes} (hu : Uploading s upload)
    (hstored : storedObject upload.state.log = some object) :
    upload.pc = .ended (.ok true) ∧ upload.state.owner.hasAsked = true ∧
      object = upload.state.accepted.flatten := by
  have hpc := hu.durable (by simp [hstored])
  have hfaithful := hu.faithful
  rw [hpc] at hfaithful
  refine ⟨hpc, ?_, Option.some.inj (hstored.symm.trans hfaithful.1.1.object)⟩
  exact hu.lifecycle.asked (.inr (.inr (stored_stores (by simp [hstored]))))

theorem Uploading.completed {upload : ObjectUpload} (hu : Uploading s upload)
    (hc : upload.completed = some result) :
    upload.pc.isEnded = true ∧
      storedObject upload.state.log = if result = .ok () then some upload.state.accepted.flatten else none := by
  refine ⟨(completed_asked hc).1, ?_⟩
  split
  next hok =>
    subst hok
    have hfaithful := hu.faithful
    rw [completed_ok hc] at hfaithful
    exact hfaithful.1.1.object
  next hne =>
    by_contra hstored
    have hpc := hu.durable hstored
    unfold ObjectUpload.completed at hc
    split at hc
    next sent _ howner hpc' =>
      rw [hpc] at hpc'
      cases hpc'
      cases sent with
      | false => exact hstored (hu.late howner).2
      | true => exact hne (Option.some.inj hc).symm
    next => cases hc

structure Sound (s : ObjectUploadSettings) (P : Producer α ρ σ) (t : ObjectUploadTask α ρ σ) : Prop where
  uploading : Uploading s t.upload
  knows : t.owner.Knows t.task t.upload
  token : t.owner.live = true → t.cancelled = false
  sender : t.sender = true → t.owner.sends = true
  traced : Traced P t

theorem reachable_sound {t : ObjectUploadTask α ρ σ} (hkind : kind ≠ .direct)
    (h : Reachable s P depth kind t) : Sound s P t := by
  have hupload := (reachable_upload hkind (uploading_started kind)
    (fun _ _ _ _ _ hu step => uploadStep_uploading hu step) h).2
  suffices hrest : t.owner.Knows t.task t.upload ∧ (t.owner.live = true → t.cancelled = false) ∧
      (t.sender = true → t.owner.sends = true) ∧ Traced P t from
    ⟨hupload, hrest.1, hrest.2.1, hrest.2.2.1, hrest.2.2.2⟩
  clear hupload
  induction h with
  | refl =>
    refine ⟨rfl, fun _ => rfl, fun _ => rfl, fun _ => ⟨.new, .init, rfl, nofun, fun _ => ⟨rfl, fun _ writer hw => ?_⟩⟩⟩
    obtain rfl := Option.some.inj hw
    rfl
  | tail _ step ih =>
    obtain ⟨hknows, htoken, hsender, htraced⟩ := ih
    exact ⟨step_knows step hknows, step_token step htoken, step_sender step hsender,
      step_traced step hknows htoken htraced⟩

/-- What asking the store for an object says about the producer. -/
theorem Sound.asked {t : ObjectUploadTask α ρ σ} (hsound : Sound s P t)
    (hcall : ∃ c ∈ t.upload.state.log, c.stores = true) :
    ∃ value h p, t.task = .ended (.ok value) ∧ Returned P t value h p := by
  have hasked := hsound.uploading.lifecycle.asked (.inr (.inr hcall))
  have htraced := hsound.traced (.inr hasked)
  obtain ⟨value, htask⟩ := hsound.knows.asked hasked
  rw [htask] at htraced
  obtain ⟨h, p, hreturned⟩ := htraced
  exact ⟨value, h, p, htask, hreturned⟩

theorem Sound.stored {t : ObjectUploadTask α ρ σ} {object : Bytes} (hsound : Sound s P t)
    (hobject : storedObject t.upload.state.log = some object) :
    ∃ value h p, t.task = .ended (.ok value) ∧ Returned P t value h p ∧ (h.intact = true → object = h.written) := by
  obtain ⟨value, h, p, htask, hreturned⟩ := hsound.asked (stored_stores (by simp [hobject]))
  obtain ⟨-, -, rfl⟩ := hsound.uploading.object hobject
  exact ⟨value, h, p, htask, hreturned, hreturned.handed⟩

theorem Sound.finished {t : ObjectUploadTask α ρ σ} (hsound : Sound s P t) (ho : t.owner = .finished result) :
    t.upload.pc.isEnded = true ∧
      ((∃ value, result = .ok value) ↔ storedObject t.upload.state.log ≠ none) ∧
      (∀ value, result = .ok value → t.task = .ended (.ok value)) := by
  have hknows := hsound.knows
  rw [ho] at hknows
  cases result with
  | ok value =>
    obtain ⟨htask, hcompleted⟩ := hknows
    obtain ⟨hended, hobject⟩ := hsound.uploading.completed hcompleted
    exact ⟨hended, by simp [hobject], fun _ hv => by cases hv; exact htask⟩
  | error e =>
    have hnone : t.upload.pc.isEnded = true ∧ storedObject t.upload.state.log = none := by
      cases e with
      | task => exact ⟨hknows.2.2, hsound.uploading.unasked hknows.2.1⟩
      | upload =>
        obtain ⟨hended, hobject⟩ := hsound.uploading.completed hknows.2
        exact ⟨hended, by simpa using hobject⟩
    exact ⟨hnone.1, by simp [hnone.2], nofun⟩

/-- `finish` returns a value exactly when the object is in the store, whoever
ran when; the value is the producer's, the object is what the producer wrote
unless one of its writes failed, and nobody had cancelled the producer. After
an abort the producer is joined and nothing was ever stored. A created
multipart upload is ended once by the time either returns. -/
theorem reachable_settles {t : ObjectUploadTask α ρ σ} (hkind : kind ≠ .direct)
    (h : Reachable s P depth kind t) :
    (∀ result, t.owner = .finished result →
      t.upload.pc.isEnded = true ∧
        ((∃ value, result = .ok value) ↔ storedObject t.upload.state.log ≠ none) ∧
        (∀ value, result = .ok value → t.task = .ended (.ok value))) ∧
    (∀ result, t.owner = .aborted result →
      t.task.isFinished = true ∧ t.upload.pc.isEnded = true ∧ ∀ c ∈ t.upload.state.log, c.stores = false) ∧
    (∀ object, storedObject t.upload.state.log = some object →
      ∃ value h p, t.task = .ended (.ok value) ∧ Returned P t value h p ∧ (h.intact = true → object = h.written)) ∧
    (t.upload.pc.isEnded = true →
      endings t.upload.state.log = if .created ∈ t.upload.state.log then 1 else 0) := by
  have hsound := reachable_sound hkind h
  refine ⟨fun _ ho => hsound.finished ho, fun result ho => ?_, fun _ hobject => hsound.stored hobject,
    hsound.uploading.lifecycle.recorded.ended⟩
  have hknows := hsound.knows
  rw [ho] at hknows
  exact ⟨hknows.1, hknows.2.2, hsound.uploading.stores hknows.2.1⟩

def oneByteProducer : Producer Unit Unit Bool where
  init := false
  step p action p' := p = false ∧ action = .wrote [7] ∧ p' = true
  returns p result := p = true ∧ result = .ok ()
  preempted := False

def oneByteTask : ObjectUploadTask Unit Unit Bool where
  owner := .finished (.ok ())
  cancelled := false
  sender := false
  queue := []
  accepted := []
  task := .ended (.ok ())
  writing := none
  upload :=
    { pc := .ended (.ok true)
      state :=
        { UploadState.new with
          owner := .asked true
          terminal := .taken
          buffer := [7]
          accepted := [[7]]
          log := [.put [7], .stored [7]] } }

theorem oneByteTask_reachable : Reachable twoByteParts oneByteProducer 1 .sink oneByteTask := by
  have h : Reachable twoByteParts oneByteProducer 1 .sink (spawn .sink oneByteProducer) := .refl
  have h := h.tail (.finish rfl)
  have h := h.tail (.write rfl rfl (show Producer.step _ _ (.wrote [7]) _ from ⟨rfl, rfl, rfl⟩) rfl rfl)
  have h := h.tail (.send rfl rfl rfl rfl rfl (by decide))
  have h := h.tail (.wrote rfl rfl ⟨rfl, rfl, rfl⟩ rfl)
  have h := h.tail (.returned rfl rfl ⟨rfl, rfl⟩)
  have h := h.tail (.joined rfl rfl (.complete ⟨rfl, nofun⟩ nofun) rfl)
  have h := h.tail (.uploadTask rfl (.takeComplete rfl))
  have h := h.tail (.uploadTask rfl .close)
  have h := h.tail (.uploadTask rfl (.drainNext rfl))
  have h := h.tail (.uploadTask rfl (.writeBuffered rfl rfl (by decide)))
  have h := h.tail (.uploadTask rfl (.drained rfl))
  have h := h.tail (.uploadTask rfl (.completePut rfl))
  have h := h.tail (.uploadTask rfl .putOk)
  exact h.tail (.completed rfl (show ObjectUpload.completed _ = some (.ok ()) from rfl))

theorem reachable_settles_oneByte :
    (∀ result, oneByteTask.owner = .finished result →
      oneByteTask.upload.pc.isEnded = true ∧
        ((∃ value, result = .ok value) ↔ storedObject oneByteTask.upload.state.log ≠ none) ∧
        (∀ value, result = .ok value → oneByteTask.task = .ended (.ok value))) ∧
    (∀ result, oneByteTask.owner = .aborted result →
      oneByteTask.task.isFinished = true ∧ oneByteTask.upload.pc.isEnded = true ∧
        ∀ c ∈ oneByteTask.upload.state.log, c.stores = false) ∧
    (∀ object, storedObject oneByteTask.upload.state.log = some object →
      ∃ value h p, oneByteTask.task = .ended (.ok value) ∧ Returned oneByteProducer oneByteTask value h p ∧
        (h.intact = true → object = h.written)) ∧
    (oneByteTask.upload.pc.isEnded = true →
      endings oneByteTask.upload.state.log = if .created ∈ oneByteTask.upload.state.log then 1 else 0) :=
  reachable_settles (by decide) oneByteTask_reachable

end ObjectUploadTask

end SilkChiffon.Storage
