import SilkChiffon.Lib.Chunking
import SilkChiffon.Lib.Emit

/-!
# Row groups from record batches

The ingestion stage of the Parquet pipeline cuts the incoming batches into
row groups. In passthrough mode one `BatchCoalescer` carries rows over from
batch to batch. In analyze mode a `HardLimitBatchCoalescer` splits batches by
hand, so that every group's analysis is fed that group's rows and no others.

A batch is the list of its rows. Arrow's coalescer is a parameter, and
`BatchCoalescer.Lawful` states what its documentation promises. A send to the
encoding channel is an emission; `Emit.taken` is what a receiver that goes
away gets to see.
-/

namespace SilkChiffon.Ingestion

open Chunking

abbrev Batch (α : Type) := List α

/-- How a stage ends without success. `fault` and `bail` are its errors. -/
inductive Stop (ε : Type)
  | fault (error : ε)
  | bail (message : String)
  | panic (message : String)
  | outOfFuel
  deriving DecidableEq, Repr

def Stop.Reported : Stop ε → Prop
  | .fault _ | .bail _ => True
  | .panic _ | .outOfFuel => False

structure BatchCoalescer (α ε : Type) where
  State : Type
  new : Nat → State
  pushBatch : State → Batch α → Except ε State
  finishBufferedBatch : State → Except ε State
  nextCompletedBatch : State → Option (Batch α) × State

/-- What a coalescer holds: finished batches waiting to be taken, and rows. -/
structure Buffers (α : Type) where
  target : Nat
  completed : List (Batch α)
  buffered : Batch α
  deriving DecidableEq, Repr

/-- Pushed rows come out in order in batches of exactly the target size, and
finishing adds the remainder as one last batch. -/
structure BatchCoalescer.Lawful (C : BatchCoalescer α ε) (view : C.State → Buffers α) : Prop where
  new : view (C.new n) = ⟨n, [], []⟩
  push : C.pushBatch s batch = .ok s' → (view s).buffered.length < (view s).target →
    ∃ cut rest, view s' = ⟨(view s).target, (view s).completed ++ cut, rest⟩ ∧
      cut.flatten ++ rest = (view s).buffered ++ batch ∧
      (∀ c ∈ cut, c.length = (view s).target) ∧ rest.length < (view s).target
  finish : C.finishBufferedBatch s = .ok s' →
    view s' = ⟨(view s).target, (view s).completed ++ flush (view s).buffered, []⟩
  next : (C.nextCompletedBatch s).1 = (view s).completed.head? ∧
    view (C.nextCompletedBatch s).2 = { view s with completed := (view s).completed.tail }

theorem BatchCoalescer.Lawful.next_some {C : BatchCoalescer α ε} {view : C.State → Buffers α} {s s' : C.State}
    (hC : C.Lawful view) (hs : view s = ⟨n, completed, rest⟩)
    (hnext : C.nextCompletedBatch s = (some batch, s')) :
    ∃ tail, completed = batch :: tail ∧ view s' = ⟨n, tail, rest⟩ := by
  obtain ⟨hhead, hview⟩ := hC.next (s := s)
  rw [hnext, hs] at hhead hview
  cases completed with
  | nil => cases hhead
  | cons head tail =>
    obtain rfl := Option.some.inj hhead
    exact ⟨tail, rfl, hview⟩

theorem BatchCoalescer.Lawful.next_none {C : BatchCoalescer α ε} {view : C.State → Buffers α} {s s' : C.State}
    (hC : C.Lawful view) (hs : view s = ⟨n, completed, rest⟩)
    (hnext : C.nextCompletedBatch s = (none, s')) :
    completed = [] ∧ view s' = ⟨n, [], rest⟩ := by
  obtain ⟨hhead, hview⟩ := hC.next (s := s)
  rw [hnext, hs] at hhead hview
  obtain rfl := List.head?_eq_none_iff.mp hhead.symm
  exact ⟨rfl, hview⟩

/-- The background cardinality query of one row group, as a function of the
batches it was fed. A push fails once the query has gone. -/
structure Analyzer (α ε A : Type) where
  push : List (Batch α) → Batch α → Except ε Unit
  finalize : List (Batch α) → Except ε A

structure RowGroupWork (α P : Type) where
  batch : Batch α
  props : P
  deriving DecidableEq, Repr

/-- The configuration both modes read, with the schema and the resolved
column policies already applied to `buildRowGroupProperties`. -/
structure Config (α ε A P : Type) where
  coalescer : BatchCoalescer α ε
  maxRowGroupSize : Nat
  columnsToAnalyze : List String
  analyzer : Analyzer α ε A
  emptyAnalysis : A
  buildRowGroupProperties : A → Nat → Except ε P

variable {α ε A P : Type}

inductive Config.PassthroughFails (cfg : Config α ε A P) : Stop ε → Prop
  | push (h : cfg.coalescer.pushBatch s batch = .error e) : cfg.PassthroughFails (.fault e)
  | finish (h : cfg.coalescer.finishBufferedBatch s = .error e) : cfg.PassthroughFails (.fault e)
  | properties (h : cfg.buildRowGroupProperties analysis rows = .error e) :
    cfg.PassthroughFails (.fault e)

/-- Analyze mode calls the analyzer as well, and refuses an empty choice of columns. -/
inductive Config.AnalyzeFails (cfg : Config α ε A P) : Stop ε → Prop
  | cutting (h : cfg.PassthroughFails stop) : cfg.AnalyzeFails stop
  | push (h : cfg.analyzer.push fed batch = .error e) : cfg.AnalyzeFails (.fault e)
  | finalize (h : cfg.analyzer.finalize fed = .error e) : cfg.AnalyzeFails (.fault e)
  | noColumns (h : cfg.columnsToAnalyze = []) :
    cfg.AnalyzeFails (.bail "no columns to analyze; use passthrough mode instead")

theorem Config.PassthroughFails.reported {cfg : Config α ε A P} (h : cfg.PassthroughFails stop) :
    stop.Reported := by
  cases h <;> trivial

theorem Config.AnalyzeFails.reported {cfg : Config α ε A P} (h : cfg.AnalyzeFails stop) :
    stop.Reported := by
  cases h with
  | cutting h => exact h.reported
  | push _ | finalize _ | noColumns _ => trivial

abbrev Task (α ε P β : Type) := Emit (RowGroupWork α P) (Stop ε) β

def fallible (x : Except ε β) : Task α ε P β := .lift (x.mapError .fault)

theorem map_eq_error {x : Except ε β} {f : β → γ} (h : x.map f = .error e) : x = .error e := by
  cases x with
  | error e' => exact congrArg Except.error (Except.error.inj h)
  | ok a => cases h

def sendRowGroup (cfg : Config α ε A P) (analysis : A) (batch : Batch α) : Task α ε P PUnit := do
  let props ← fallible (cfg.buildRowGroupProperties analysis batch.length)
  .emit ⟨batch, props⟩

-- ---------------------------------------------------------------------------
-- Passthrough mode
-- ---------------------------------------------------------------------------

/-- `while let Some(batch) = coalescer.next_completed_batch()`. -/
def drainCompleted (cfg : Config α ε A P) :
    Nat → cfg.coalescer.State → Task α ε P cfg.coalescer.State
  | 0, _ => .throw .outOfFuel
  | fuel + 1, coalescer =>
    match cfg.coalescer.nextCompletedBatch coalescer with
    | (none, coalescer) => pure coalescer
    | (some batch, coalescer) => do
      sendRowGroup cfg cfg.emptyAnalysis batch
      drainCompleted cfg fuel coalescer

/-- One received batch. It completes at most as many groups as it has rows. -/
def passthroughBatch (cfg : Config α ε A P) (coalescer : cfg.coalescer.State) (batch : Batch α) :
    Task α ε P cfg.coalescer.State := do
  let coalescer ← fallible (cfg.coalescer.pushBatch coalescer batch)
  drainCompleted cfg (batch.length + 1) coalescer

def passthroughEnd (cfg : Config α ε A P) (coalescer : cfg.coalescer.State) :
    Task α ε P PUnit := do
  let coalescer ← fallible (cfg.coalescer.finishBufferedBatch coalescer)
  match (cfg.coalescer.nextCompletedBatch coalescer).1 with
  | some batch => sendRowGroup cfg cfg.emptyAnalysis batch
  | none => pure ⟨⟩

def passthroughFrom (cfg : Config α ε A P) :
    cfg.coalescer.State → List (Batch α) → Task α ε P PUnit
  | coalescer, [] => passthroughEnd cfg coalescer
  | coalescer, batch :: rest => do
    let coalescer ← passthroughBatch cfg coalescer batch
    passthroughFrom cfg coalescer rest

def ingestionTaskPassthrough (cfg : Config α ε A P) (batches : List (Batch α)) :
    Task α ε P PUnit :=
  passthroughFrom cfg (cfg.coalescer.new cfg.maxRowGroupSize) batches

-- ---------------------------------------------------------------------------
-- Analyze mode
-- ---------------------------------------------------------------------------

structure HardLimitBatchCoalescer (C : BatchCoalescer α ε) where
  coalescer : C.State
  maxRows : Nat
  rows : Nat

namespace HardLimitBatchCoalescer

variable {C : BatchCoalescer α ε}

def new (C : BatchCoalescer α ε) (maxRows : Nat) : HardLimitBatchCoalescer C :=
  ⟨C.new maxRows, maxRows, 0⟩

def pushBatch (c : HardLimitBatchCoalescer C) (batch : Batch α) :
    Except ε ((Batch α × Option (Batch α)) × HardLimitBatchCoalescer C) :=
  let spaceLeft := c.maxRows - c.rows
  if spaceLeft = 0 then .ok (([], some batch), c)
  else
    let (toPush, remaining) :=
      if batch.length ≤ spaceLeft then (batch, none)
      else (batch.take spaceLeft, some (batch.drop spaceLeft))
    (C.pushBatch c.coalescer toPush).map fun coalescer =>
      ((toPush, remaining), { c with coalescer, rows := c.rows + toPush.length })

theorem pushBatch_error {c : HardLimitBatchCoalescer C} (h : c.pushBatch batch = .error e) :
    ∃ toPush, C.pushBatch c.coalescer toPush = .error e := by
  simp only [pushBatch] at h
  split at h
  · cases h
  · exact ⟨_, map_eq_error h⟩

def isFull (c : HardLimitBatchCoalescer C) : Bool := c.maxRows ≤ c.rows

def finish (c : HardLimitBatchCoalescer C) :
    Except ε (Option (Batch α) × HardLimitBatchCoalescer C) :=
  (C.finishBufferedBatch c.coalescer).map fun coalescer =>
    ((C.nextCompletedBatch coalescer).1,
      { c with coalescer := (C.nextCompletedBatch coalescer).2, rows := 0 })

theorem finish_error {c : HardLimitBatchCoalescer C} (h : c.finish = .error e) :
    C.finishBufferedBatch c.coalescer = .error e :=
  map_eq_error h

end HardLimitBatchCoalescer

/-- The coalescer of the group being gathered, and the batches its analysis
was fed. -/
structure AnalyzeState (C : BatchCoalescer α ε) where
  coalescer : HardLimitBatchCoalescer C
  fed : List (Batch α)

def AnalyzeState.tryNew (cfg : Config α ε A P) : Task α ε P (AnalyzeState cfg.coalescer) :=
  if cfg.columnsToAnalyze = [] then
    .throw (.bail "no columns to analyze; use passthrough mode instead")
  else pure ⟨.new cfg.coalescer cfg.maxRowGroupSize, []⟩

def pushAnalysis (cfg : Config α ε A P) (fed : List (Batch α)) (pushed : Batch α) :
    Task α ε P (List (Batch α)) :=
  if 0 < pushed.length then do
    fallible (cfg.analyzer.push fed pushed)
    pure (fed ++ [pushed])
  else pure fed

def sendIfFull (cfg : Config α ε A P) (state : AnalyzeState cfg.coalescer) :
    Task α ε P (AnalyzeState cfg.coalescer) :=
  if state.coalescer.isFull then do
    let (finished, _) ← fallible state.coalescer.finish
    match finished with
    | none => .throw (.panic "coalescer was full")
    | some batch =>
      let analysis ← fallible (cfg.analyzer.finalize state.fed)
      sendRowGroup cfg analysis batch
      AnalyzeState.tryNew cfg
  else pure state

/-- `while let Some(batch) = remaining.take()`. -/
def analyzeRemaining (cfg : Config α ε A P) :
    Nat → AnalyzeState cfg.coalescer → Option (Batch α) → Task α ε P (AnalyzeState cfg.coalescer)
  | _, state, none => pure state
  | 0, _, some _ => .throw .outOfFuel
  | fuel + 1, state, some batch => do
    let ((pushed, remaining), coalescer) ← fallible (state.coalescer.pushBatch batch)
    let fed ← pushAnalysis cfg state.fed pushed
    let state ← sendIfFull cfg ⟨coalescer, fed⟩
    analyzeRemaining cfg fuel state remaining

/-- One received batch. Every turn but the first takes at least one row. -/
def analyzeBatch (cfg : Config α ε A P) (state : AnalyzeState cfg.coalescer) (batch : Batch α) :
    Task α ε P (AnalyzeState cfg.coalescer) :=
  analyzeRemaining cfg (batch.length + 1) state (some batch)

def analyzeEnd (cfg : Config α ε A P) (state : AnalyzeState cfg.coalescer) :
    Task α ε P PUnit := do
  let (finished, _) ← fallible state.coalescer.finish
  match finished with
  | some batch =>
    let analysis ← fallible (cfg.analyzer.finalize state.fed)
    sendRowGroup cfg analysis batch
  | none => pure ⟨⟩

def analyzeFrom (cfg : Config α ε A P) :
    AnalyzeState cfg.coalescer → List (Batch α) → Task α ε P PUnit
  | state, [] => analyzeEnd cfg state
  | state, batch :: rest => do
    let state ← analyzeBatch cfg state batch
    analyzeFrom cfg state rest

def ingestionTaskAnalyze (cfg : Config α ε A P) (batches : List (Batch α)) :
    Task α ε P PUnit := do
  let state ← AnalyzeState.tryNew cfg
  analyzeFrom cfg state batches

def ingestionTask (cfg : Config α ε A P) (batches : List (Batch α)) : Task α ε P PUnit :=
  if cfg.columnsToAnalyze = [] then ingestionTaskPassthrough cfg batches
  else ingestionTaskAnalyze cfg batches

-- ---------------------------------------------------------------------------
-- What was sent
-- ---------------------------------------------------------------------------

def batches (sent : List (RowGroupWork α P)) : List (Batch α) := sent.map (·.batch)

@[simp] theorem batches_nil : batches ([] : List (RowGroupWork α P)) = [] := rfl

@[simp] theorem batches_cons (g : RowGroupWork α P) (sent : List (RowGroupWork α P)) :
    batches (g :: sent) = g.batch :: batches sent := rfl

@[simp] theorem batches_append (v w : List (RowGroupWork α P)) :
    batches (v ++ w) = batches v ++ batches w := List.map_append

/-- Full groups of `rows` with properties as `G` wants them, while `rest` is
still held. -/
structure Filled (G : RowGroupWork α P → Prop) (n : Nat) (rows : List α)
    (sent : List (RowGroupWork α P)) (rest : List α) : Prop
    extends Filling n rows (batches sent) rest where
  groups : ∀ g ∈ sent, G g

structure Completed (G : RowGroupWork α P → Prop) (n : Nat) (rows : List α)
    (sent : List (RowGroupWork α P)) : Prop extends Chunked n rows (batches sent) where
  groups : ∀ g ∈ sent, G g

/-- A stage that stopped with one of the failures `F` sent only full groups, in order. -/
structure StoppedAfter (F : Stop ε → Prop) (G : RowGroupWork α P → Prop) (n : Nat) (rows : List α)
    (sent : List (RowGroupWork α P)) (stop : Stop ε) : Prop where
  full : ∀ c ∈ batches sent, c.length = n
  flatten : (batches sent).flatten <+: rows
  groups : ∀ g ∈ sent, G g
  failed : F stop

variable {F : Stop ε → Prop} {G : RowGroupWork α P → Prop} {sent later : List (RowGroupWork α P)} {stop : Stop ε}
  {rest more rows : List α} {n : Nat}

theorem Filled.none (h : rest.length < n) :
    Filled G n rest ([] : List (RowGroupWork α P)) rest :=
  ⟨⟨by simp, by simp, h⟩, by simp⟩

theorem Filled.append (h : Filled G n rows sent rest) (h' : Filled G n (rest ++ more) later rest') :
    Filled G n (rows ++ more) (sent ++ later) rest' := by
  refine ⟨?_, ?_⟩
  · rw [batches_append]
    exact h.extend h'.flatten h'.full h'.rest_lt
  · intro g hg
    exact (List.mem_append.mp hg).elim (h.groups g) (h'.groups g)

theorem Filled.complete (h : Filled G n rows sent rest) (h' : Completed G n (rest ++ more) later) :
    Completed G n (rows ++ more) (sent ++ later) := by
  refine ⟨?_, ?_⟩
  · rw [batches_append]
    exact h.append_chunked h'.toChunked
  · intro g hg
    exact (List.mem_append.mp hg).elim (h.groups g) (h'.groups g)

/-- After full groups were sent, what follows is about the remaining rows. -/
theorem Filled.stopped (h : Filled G n rows sent rest) (h' : StoppedAfter F G n (rest ++ more) later stop) :
    StoppedAfter F G n (rows ++ more) (sent ++ later) stop := by
  refine ⟨?_, ?_, ?_, h'.failed⟩
  · intro c hc
    rw [batches_append] at hc
    exact (List.mem_append.mp hc).elim (h.full c) (h'.full c)
  · rw [batches_append, List.flatten_append, ← h.flatten, List.append_assoc]
    exact (List.prefix_append_right_inj _).mpr h'.flatten
  · intro g hg
    exact (List.mem_append.mp hg).elim (h.groups g) (h'.groups g)

theorem StoppedAfter.none (hf : F stop) :
    StoppedAfter F G n rows ([] : List (RowGroupWork α P)) stop :=
  ⟨by simp, by simp, by simp, hf⟩

theorem StoppedAfter.extend (h : StoppedAfter F G n rows sent stop) :
    StoppedAfter F G n (rows ++ more) sent stop :=
  ⟨h.full, h.flatten.trans (List.prefix_append ..), h.groups, h.failed⟩

theorem Completed.remainder {g : RowGroupWork α P} (hne : g.batch ≠ []) (hlt : g.batch.length < n)
    (hg : G g) : Completed G n g.batch [g] := by
  have h : Filling n g.batch [] g.batch := ⟨by simp, by simp, hlt⟩
  have hc := h.flush
  rw [flush_of_ne hne] at hc
  exact ⟨by simpa using hc, by simpa using hg⟩

theorem Completed.none : Completed G n ([] : List α) [] := ⟨.nil n, by simp⟩

theorem ensures_fallible {x : Except ε β} {Q : List (RowGroupWork α P) → β → Prop}
    {E : List (RowGroupWork α P) → Stop ε → Prop} (hq : ∀ a, x = .ok a → Q [] a)
    (he : ∀ e, x = .error e → E [] (.fault e)) : (fallible x : Task α ε P β).Ensures Q E := by
  apply Emit.ensures_lift
  · intro a ha
    cases x with
    | ok b => exact hq a (by simpa [Except.mapError] using ha)
    | error e => simp [Except.mapError] at ha
  · intro e h
    cases x with
    | ok b => simp [Except.mapError] at h
    | error e' =>
      simp only [Except.mapError, Except.error.injEq] at h
      subst h
      exact he _ rfl

theorem ensures_fallible_bind {x : Except ε β} {f : β → Task α ε P γ}
    {R : List (RowGroupWork α P) → γ → Prop} {E : List (RowGroupWork α P) → Stop ε → Prop}
    (he : ∀ e, x = .error e → E [] (.fault e)) (hf : ∀ a, x = .ok a → (f a).Ensures R E) :
    (fallible x >>= f).Ensures R E := by
  apply (ensures_fallible (Q := fun w a => w = [] ∧ x = .ok a) (fun a ha => ⟨rfl, ha⟩) he).bind
  rintro w a ⟨rfl, ha⟩
  exact hf a ha

theorem ensures_sendRowGroup {cfg : Config α ε A P} {Q : List (RowGroupWork α P) → PUnit → Prop}
    {E : List (RowGroupWork α P) → Stop ε → Prop}
    (he : ∀ stop, cfg.PassthroughFails stop → E [] stop)
    (hq : ∀ props, cfg.buildRowGroupProperties a batch.length = .ok props →
      Q [⟨batch, props⟩] ⟨⟩) : (sendRowGroup cfg a batch).Ensures Q E := by
  apply ensures_fallible_bind fun e h => he _ (.properties h)
  intro props hp
  exact Emit.ensures_emit (hq props hp)

-- ---------------------------------------------------------------------------
-- Passthrough mode
-- ---------------------------------------------------------------------------

variable {cfg : Config α ε A P} {view : cfg.coalescer.State → Buffers α}

def Unanalyzed (cfg : Config α ε A P) (g : RowGroupWork α P) : Prop :=
  cfg.buildRowGroupProperties cfg.emptyAnalysis g.batch.length = .ok g.props

theorem ensures_drainCompleted (hC : cfg.coalescer.Lawful view)
    (hfuel : (view s).completed.length < fuel) :
    (drainCompleted cfg fuel s).Ensures
      (fun w s' => batches w = (view s).completed ∧ (∀ g ∈ w, Unanalyzed cfg g) ∧
        view s' = { view s with completed := [] })
      (fun w stop => batches w <+: (view s).completed ∧ (∀ g ∈ w, Unanalyzed cfg g) ∧
        cfg.PassthroughFails stop) := by
  induction fuel generalizing s with
  | zero => omega
  | succ fuel ih =>
    obtain ⟨hhead, htail⟩ := hC.next (s := s)
    unfold drainCompleted
    split
    · rename_i s' hnext
      rw [hnext] at hhead htail
      have hnil : (view s).completed = [] := by simpa using hhead.symm
      refine Emit.ensures_pure ⟨by simp [hnil], by simp, ?_⟩
      simpa [hnil] using htail
    · rename_i batch s' hnext
      rw [hnext] at hhead htail
      obtain ⟨tail, hcons⟩ : ∃ tail, (view s).completed = batch :: tail :=
        List.head?_eq_some_iff.mp hhead.symm
      simp only [hcons, List.tail_cons] at htail
      apply Emit.Ensures.bind (Q := fun w _ => batches w = [batch] ∧ ∀ g ∈ w, Unanalyzed cfg g)
      · refine ensures_sendRowGroup (fun e he => ⟨by simp, by simp, he⟩) fun props hp => ?_
        exact ⟨rfl, by simpa [Unanalyzed] using hp⟩
      · rintro w ⟨⟩ ⟨hw, hgroups⟩
        refine (ih (s := s') ?_).mono ?_ ?_
        · rw [hcons] at hfuel
          simpa [htail] using hfuel
        · rintro w' s'' ⟨hw', hgroups', hview⟩
          refine ⟨by simp [hw, hw', hcons, htail], ?_, by simp [hview, htail]⟩
          exact fun g hg => (List.mem_append.mp hg).elim (hgroups g) (hgroups' g)
        · rintro w' stop ⟨hw', hgroups', hr⟩
          refine ⟨?_, fun g hg => (List.mem_append.mp hg).elim (hgroups g) (hgroups' g), hr⟩
          simpa [hw, hcons, htail] using hw'

/-- A pushed batch completes fewer groups than the drain has turns. -/
theorem Filling.count_lt {pieces : List (List α)} (h : Filling n (rest ++ more) pieces rest')
    (hlt : rest.length < n) : pieces.length < more.length + 1 := by
  have hlen := congrArg List.length h.flatten
  rw [List.length_append, length_flatten_of_full h.full, List.length_append] at hlen
  rcases pieces with _ | ⟨c, tail⟩
  · simp
  · rw [List.length_cons, Nat.add_mul] at hlen
    have : tail.length ≤ tail.length * n := Nat.le_mul_of_pos_right _ (by omega)
    simp only [List.length_cons]
    omega

theorem ensures_passthroughBatch (hC : cfg.coalescer.Lawful view) (hs : view s = ⟨n, [], rest⟩)
    (hlt : rest.length < n) :
    (passthroughBatch cfg s batch).Ensures
      (fun w s' => ∃ rest', Filled (Unanalyzed cfg) n (rest ++ batch) w rest' ∧
        view s' = ⟨n, [], rest'⟩)
      (StoppedAfter cfg.PassthroughFails (Unanalyzed cfg) n (rest ++ batch)) := by
  apply ensures_fallible_bind fun e he => .none (.push he)
  intro s' hpush
  obtain ⟨cut, rest', hview, hflat, hfull, hrest⟩ := hC.push hpush (by simpa [hs] using hlt)
  simp only [hs, List.nil_append] at hview hflat hfull hrest
  have hfill : Filling n (rest ++ batch) cut rest' := ⟨hflat, hfull, hrest⟩
  refine (ensures_drainCompleted hC ?_).mono ?_ ?_
  · simpa [hview] using Filling.count_lt hfill hlt
  · rintro w s'' ⟨hw, hgroups, hs''⟩
    rw [hview] at hw
    refine ⟨rest', ⟨?_, hgroups⟩, by simp [hs'', hview]⟩
    simpa [hw] using hfill
  · rintro w stop ⟨hw, hgroups, hr⟩
    rw [hview] at hw
    obtain ⟨tail, rfl⟩ := hw
    refine ⟨fun c hc => hfull c (List.mem_append_left _ hc), ?_, hgroups, hr⟩
    exact ⟨tail.flatten ++ rest', by rw [← List.append_assoc, ← List.flatten_append, hflat]⟩

theorem ensures_passthroughEnd (hC : cfg.coalescer.Lawful view) (hs : view s = ⟨n, [], rest⟩)
    (hlt : rest.length < n) :
    (passthroughEnd cfg s).Ensures (fun w _ => Completed (Unanalyzed cfg) n rest w)
      (StoppedAfter cfg.PassthroughFails (Unanalyzed cfg) n rest) := by
  apply ensures_fallible_bind fun e he => .none (.finish he)
  intro s' hfinish
  have hview := hC.finish hfinish
  simp only [hs, List.nil_append] at hview
  have hhead := (hC.next (s := s')).1
  rw [hview] at hhead
  by_cases hrest : rest = []
  · subst hrest
    rw [show (cfg.coalescer.nextCompletedBatch s').1 = none by simpa using hhead]
    exact Emit.ensures_pure .none
  · rw [show (cfg.coalescer.nextCompletedBatch s').1 = some rest by simpa [hrest, flush] using hhead]
    refine ensures_sendRowGroup (fun e he => .none he) fun props hp => ?_
    exact .remainder (g := ⟨rest, props⟩) hrest hlt hp

theorem ensures_passthroughFrom (hC : cfg.coalescer.Lawful view) (hs : view s = ⟨n, [], rest⟩)
    (hlt : rest.length < n) :
    (passthroughFrom cfg s received).Ensures
      (fun w _ => Completed (Unanalyzed cfg) n (rest ++ received.flatten) w)
      (StoppedAfter cfg.PassthroughFails (Unanalyzed cfg) n (rest ++ received.flatten)) := by
  induction received generalizing s rest with
  | nil => simpa [passthroughFrom] using ensures_passthroughEnd hC hs hlt
  | cons batch received ih =>
    rw [List.flatten_cons, ← List.append_assoc]
    apply ((ensures_passthroughBatch hC hs hlt).mono (fun w s' h => h) fun w e h => h.extend).bind
    rintro w s' ⟨rest', hfilled, hs'⟩
    exact (ih hs' hfilled.rest_lt).mono (fun w' _ h => hfilled.complete h) fun w' e h =>
      hfilled.stopped h

theorem ensures_passthrough (hC : cfg.coalescer.Lawful view) (hmax : 0 < cfg.maxRowGroupSize) :
    (ingestionTaskPassthrough cfg received).Ensures
      (fun w _ => Completed (Unanalyzed cfg) cfg.maxRowGroupSize received.flatten w)
      (StoppedAfter cfg.PassthroughFails (Unanalyzed cfg) cfg.maxRowGroupSize received.flatten) :=
  ensures_passthroughFrom hC hC.new (by simpa using hmax)

-- ---------------------------------------------------------------------------
-- Analyze mode
-- ---------------------------------------------------------------------------

/-- The analysis behind the group's properties was fed that group's rows. -/
def Analyzed (cfg : Config α ε A P) (g : RowGroupWork α P) : Prop :=
  ∃ fed analysis, fed.flatten = g.batch ∧ cfg.analyzer.finalize fed = .ok analysis ∧
    cfg.buildRowGroupProperties analysis g.batch.length = .ok g.props

/-- `rows` went into this coalescer, which is its counter's account of them. -/
structure Gathering (view : C.State → Buffers α) (n : Nat) (c : HardLimitBatchCoalescer C)
    (rows : List α) : Prop where
  maxRows : c.maxRows = n
  counted : c.rows = rows.length
  held : rows.length < n ∧ view c.coalescer = ⟨n, [], rows⟩ ∨
    rows.length = n ∧ view c.coalescer = ⟨n, [rows], []⟩

theorem Gathering.new {C : BatchCoalescer α ε} {view : C.State → Buffers α} (hC : C.Lawful view)
    (hn : 0 < n) : Gathering view n (.new C n) [] :=
  ⟨rfl, rfl, .inl ⟨by simpa using hn, hC.new⟩⟩

/-- What one push takes never crosses the limit, so it completes no batch, or
the one that is the group. -/
theorem Gathering.push {C : BatchCoalescer α ε} {view : C.State → Buffers α} (hC : C.Lawful view)
    {c c' : HardLimitBatchCoalescer C} (h : Gathering view n c rest) (hlt : rest.length < n)
    (hpush : c.pushBatch batch = .ok ((pushed, remaining), c')) :
    Gathering view n c' (rest ++ pushed) ∧ pushed ++ remaining.getD [] = batch ∧
      ∀ r, remaining = some r → r.length < batch.length ∧ rest.length + pushed.length = n := by
  obtain ⟨coalescer, maxRows, count⟩ := c
  obtain ⟨rfl, rfl, hheld⟩ := h
  have hview : view coalescer = ⟨maxRows, [], rest⟩ := by
    rcases hheld with ⟨_, hview⟩ | ⟨hfull, _⟩
    · exact hview
    · exact absurd hfull (by simp only at hlt ⊢; omega)
  simp only at hlt
  -- the two ways to split, each with the coalescer's push still to run
  have hsplit : ∃ toPush, pushed = toPush ∧ toPush ++ remaining.getD [] = batch ∧
      rest.length + toPush.length ≤ maxRows ∧
      (∀ r, remaining = some r → r.length < batch.length ∧ rest.length + toPush.length = maxRows) ∧
      ∃ coalescer', C.pushBatch coalescer toPush = .ok coalescer' ∧
        c' = ⟨coalescer', maxRows, rest.length + toPush.length⟩ := by
    simp only [HardLimitBatchCoalescer.pushBatch] at hpush
    rw [if_neg (by omega)] at hpush
    by_cases hfits : batch.length ≤ maxRows - rest.length
    · simp only [if_pos hfits] at hpush
      cases hrun : C.pushBatch coalescer batch with
      | error e => simp [hrun, Except.map] at hpush
      | ok coalescer' =>
        simp only [hrun, Except.map, Except.ok.injEq, Prod.mk.injEq] at hpush
        obtain ⟨⟨rfl, rfl⟩, rfl⟩ := hpush
        exact ⟨_, rfl, by simp, by omega, by simp, _, hrun, rfl⟩
    · simp only [if_neg hfits] at hpush
      cases hrun : C.pushBatch coalescer (batch.take (maxRows - rest.length)) with
      | error e => simp [hrun, Except.map] at hpush
      | ok coalescer' =>
        simp only [hrun, Except.map, Except.ok.injEq, Prod.mk.injEq] at hpush
        obtain ⟨⟨rfl, rfl⟩, rfl⟩ := hpush
        refine ⟨_, rfl, by simp, by simp; omega, ?_, _, hrun, rfl⟩
        rintro r ⟨rfl⟩
        simp only [List.length_drop, List.length_take]
        omega
  obtain ⟨_, rfl, hbatch, hle, hremaining, coalescer', hrun, rfl⟩ := hsplit
  refine ⟨⟨rfl, by simp, ?_⟩, hbatch, hremaining⟩
  obtain ⟨cut, rest', hview', hflat, hfull, hrest⟩ := hC.push hrun (by simpa [hview] using hlt)
  simp only [hview, List.nil_append] at hview' hflat hfull hrest
  have hcut : Filling maxRows (rest ++ pushed) cut rest' := ⟨hflat, hfull, hrest⟩
  have hbefore : Filling maxRows rest [] rest := ⟨by simp, by simp, hlt⟩
  by_cases hexact : rest.length + pushed.length = maxRows
  · obtain ⟨rfl, rfl⟩ := hcut.unique (hbefore.fill hexact)
    exact .inr ⟨by simpa using hexact, by simpa using hview'⟩
  · have hless : rest.length + pushed.length < maxRows := by omega
    obtain ⟨rfl, rfl⟩ := hcut.unique (hbefore.push hless)
    exact .inl ⟨by simpa using hless, hview'⟩

theorem Gathering.finish {C : BatchCoalescer α ε} {view : C.State → Buffers α} (hC : C.Lawful view)
    {c c' : HardLimitBatchCoalescer C} (h : Gathering view n c rows) (hn : 0 < n)
    (hfinish : c.finish = .ok (finished, c')) : finished = if rows = [] then none else some rows := by
  simp only [HardLimitBatchCoalescer.finish] at hfinish
  cases hrun : C.finishBufferedBatch c.coalescer with
  | error e => simp [hrun, Except.map] at hfinish
  | ok coalescer' =>
    simp only [hrun, Except.map, Except.ok.injEq, Prod.mk.injEq] at hfinish
    obtain ⟨rfl, rfl⟩ := hfinish
    have hview := hC.finish hrun
    rw [(hC.next (s := coalescer')).1, hview]
    rcases h.held with ⟨_, hheld⟩ | ⟨hlen, hheld⟩
    · by_cases hrows : rows = [] <;> simp [hheld, hrows, flush]
    · have hrows : rows ≠ [] := by
        rintro rfl
        simp at hlen
        omega
      simp [hheld, hrows]

theorem Gathering.isFull_iff {C : BatchCoalescer α ε} {view : C.State → Buffers α}
    {c : HardLimitBatchCoalescer C} (h : Gathering view n c rows) :
    c.isFull = true ↔ rows.length = n := by
  simp only [HardLimitBatchCoalescer.isFull, h.maxRows, h.counted, decide_eq_true_eq]
  rcases h.held with ⟨hlt, _⟩ | ⟨heq, _⟩ <;> omega

/-- Between two turns of the loop the group is not full, and its analysis was
fed what the coalescer holds. -/
structure Between (cfg : Config α ε A P) (view : cfg.coalescer.State → Buffers α) (n : Nat)
    (state : AnalyzeState cfg.coalescer) (rest : List α) : Prop where
  gathering : Gathering view n state.coalescer rest
  lt : rest.length < n
  fed : state.fed.flatten = rest

theorem ensures_tryNew (hC : cfg.coalescer.Lawful view) (hmax : 0 < cfg.maxRowGroupSize)
    {E : List (RowGroupWork α P) → Stop ε → Prop} (he : ∀ stop, cfg.AnalyzeFails stop → E [] stop) :
    (AnalyzeState.tryNew cfg).Ensures
      (fun w state => w = [] ∧ Between cfg view cfg.maxRowGroupSize state []) E := by
  unfold AnalyzeState.tryNew
  split
  · exact Emit.ensures_throw (he _ (.noColumns ‹_›))
  · exact Emit.ensures_pure ⟨rfl, .new hC hmax, by simpa using hmax, rfl⟩

theorem ensures_pushAnalysis {E : List (RowGroupWork α P) → Stop ε → Prop}
    (he : ∀ stop, cfg.AnalyzeFails stop → E [] stop) :
    (pushAnalysis cfg fed pushed).Ensures
      (fun w fed' => w = [] ∧ fed'.flatten = fed.flatten ++ pushed) E := by
  unfold pushAnalysis
  split
  · exact ensures_fallible_bind (fun e h => he _ (.push h)) fun _ _ => Emit.ensures_pure ⟨rfl, by simp⟩
  · rename_i hempty
    obtain rfl : pushed = [] := by simpa using hempty
    exact Emit.ensures_pure ⟨rfl, by simp⟩

theorem ensures_sendIfFull (hC : cfg.coalescer.Lawful view) (hmax : 0 < cfg.maxRowGroupSize)
    {state : AnalyzeState cfg.coalescer}
    (h : Gathering view cfg.maxRowGroupSize state.coalescer rows) (hfed : state.fed.flatten = rows) :
    (sendIfFull cfg state).Ensures
      (fun w state' => ∃ rest, Filled (Analyzed cfg) cfg.maxRowGroupSize rows w rest ∧
        Between cfg view cfg.maxRowGroupSize state' rest ∧
        (rows.length = cfg.maxRowGroupSize → rest = []))
      (StoppedAfter cfg.AnalyzeFails (Analyzed cfg) cfg.maxRowGroupSize rows) := by
  unfold sendIfFull
  split
  · rename_i hfull
    have hlen := h.isFull_iff.mp hfull
    have hrows : rows ≠ [] := by
      rintro rfl
      simp at hlen
      omega
    apply ensures_fallible_bind fun e he =>
      .none (.cutting (.finish (HardLimitBatchCoalescer.finish_error he)))
    rintro ⟨finished, _⟩ hfinish
    obtain rfl := h.finish hC hmax hfinish
    simp only [if_neg hrows]
    apply ensures_fallible_bind fun e he => .none (.finalize he)
    intro analysis hanalysis
    have hfilled : ∀ props, cfg.buildRowGroupProperties analysis rows.length = .ok props →
        Filled (Analyzed cfg) cfg.maxRowGroupSize rows [⟨rows, props⟩] [] := fun props hp =>
      ⟨⟨by simp, by simpa using hlen, by simpa using hmax⟩, by
        simpa using ⟨state.fed, analysis, hfed, hanalysis, hp⟩⟩
    apply Emit.Ensures.bind (Q := fun w _ => Filled (Analyzed cfg) cfg.maxRowGroupSize rows w [])
    · exact ensures_sendRowGroup (fun _ he => .none (.cutting he)) fun props hp => hfilled props hp
    · rintro w ⟨⟩ hw
      refine (ensures_tryNew hC hmax (E := fun w' e => w' = [] ∧ cfg.AnalyzeFails e)
        fun e he => ⟨rfl, he⟩).mono ?_ ?_
      · rintro _ state' ⟨rfl, hstate'⟩
        exact ⟨[], by simpa using hw, hstate', fun _ => rfl⟩
      · rintro _ stop ⟨rfl, hr⟩
        have hnone : StoppedAfter cfg.AnalyzeFails (Analyzed cfg) cfg.maxRowGroupSize ([] ++ [])
            [] stop := .none hr
        simpa using hw.stopped hnone
  · rename_i hfull
    have hlt : rows.length < cfg.maxRowGroupSize := by
      rcases h.held with ⟨hlt, _⟩ | ⟨heq, _⟩
      · exact hlt
      · exact absurd (h.isFull_iff.mpr heq) hfull
    exact Emit.ensures_pure ⟨rows, .none hlt, ⟨h, hlt, hfed⟩, by omega⟩

/-- One batch, turn by turn: a remaining portion only follows a full group, so
every turn that is followed by another took at least one row. -/
theorem ensures_analyzeRemaining (hC : cfg.coalescer.Lawful view) (hmax : 0 < cfg.maxRowGroupSize)
    {state : AnalyzeState cfg.coalescer} {remaining : Option (Batch α)}
    (h : Between cfg view cfg.maxRowGroupSize state rest)
    (hfuel : ∀ r, remaining = some r → r.length < fuel) :
    (analyzeRemaining cfg fuel state remaining).Ensures
      (fun w state' => ∃ rest', Filled (Analyzed cfg) cfg.maxRowGroupSize
        (rest ++ remaining.getD []) w rest' ∧ Between cfg view cfg.maxRowGroupSize state' rest')
      (StoppedAfter cfg.AnalyzeFails (Analyzed cfg) cfg.maxRowGroupSize (rest ++ remaining.getD [])) := by
  induction fuel generalizing state remaining rest with
  | zero =>
    cases remaining with
    | none => exact Emit.ensures_pure ⟨rest, by simpa using .none h.lt, h⟩
    | some batch => exact absurd (hfuel batch rfl) (by omega)
  | succ fuel ih =>
    cases remaining with
    | none => exact Emit.ensures_pure ⟨rest, by simpa using .none h.lt, h⟩
    | some batch =>
      simp only [Option.getD_some]
      apply ensures_fallible_bind fun e he =>
        .none (.cutting (.push (HardLimitBatchCoalescer.pushBatch_error he).choose_spec))
      rintro ⟨⟨pushed, remaining⟩, coalescer⟩ hpush
      obtain ⟨hgather, hbatch, hremaining⟩ := h.gathering.push hC h.lt hpush
      rw [← hbatch, ← List.append_assoc]
      apply (ensures_pushAnalysis (fun e he => .none he)).bind
      rintro _ fed ⟨rfl, hfed⟩
      rw [h.fed] at hfed
      have hsend : (sendIfFull cfg ⟨coalescer, fed⟩).Ensures _ _ :=
        ensures_sendIfFull hC hmax hgather hfed
      simp only [List.nil_append]
      apply (hsend.mono (fun w state' h => h) fun w e h => h.extend).bind
      rintro w state' ⟨rest', hfilled, hbetween, _⟩
      refine (ih hbetween ?_).mono ?_ ?_
      · intro r hr
        have := (hremaining r hr).1
        have := hfuel batch rfl
        omega
      · rintro w' state'' ⟨rest'', hfilled', hbetween'⟩
        exact ⟨rest'', hfilled.append hfilled', hbetween'⟩
      · exact fun w' e h => hfilled.stopped h

theorem ensures_analyzeEnd (hC : cfg.coalescer.Lawful view) (hmax : 0 < cfg.maxRowGroupSize)
    {state : AnalyzeState cfg.coalescer} (h : Between cfg view cfg.maxRowGroupSize state rest) :
    (analyzeEnd cfg state).Ensures
      (fun w _ => Completed (Analyzed cfg) cfg.maxRowGroupSize rest w)
      (StoppedAfter cfg.AnalyzeFails (Analyzed cfg) cfg.maxRowGroupSize rest) := by
  apply ensures_fallible_bind fun e he =>
    .none (.cutting (.finish (HardLimitBatchCoalescer.finish_error he)))
  rintro ⟨finished, _⟩ hfinish
  have hfinished := h.gathering.finish hC hmax hfinish
  by_cases hrest : rest = []
  · obtain rfl : finished = none := by simpa [hrest] using hfinished
    subst hrest
    exact Emit.ensures_pure .none
  · obtain rfl : finished = some rest := by simpa [hrest] using hfinished
    apply ensures_fallible_bind fun e he => .none (.finalize he)
    intro analysis hanalysis
    refine ensures_sendRowGroup (fun _ he => .none (.cutting he)) fun props hp => ?_
    exact .remainder (g := ⟨rest, props⟩) hrest h.lt ⟨state.fed, analysis, h.fed, hanalysis, hp⟩

theorem ensures_analyzeFrom (hC : cfg.coalescer.Lawful view) (hmax : 0 < cfg.maxRowGroupSize)
    {state : AnalyzeState cfg.coalescer} (h : Between cfg view cfg.maxRowGroupSize state rest) :
    (analyzeFrom cfg state received).Ensures
      (fun w _ => Completed (Analyzed cfg) cfg.maxRowGroupSize (rest ++ received.flatten) w)
      (StoppedAfter cfg.AnalyzeFails (Analyzed cfg) cfg.maxRowGroupSize (rest ++ received.flatten)) := by
  induction received generalizing state rest with
  | nil => simpa [analyzeFrom] using ensures_analyzeEnd hC hmax h
  | cons batch received ih =>
    rw [List.flatten_cons, ← List.append_assoc]
    have hbatch : (analyzeBatch cfg state batch).Ensures _ _ :=
      ensures_analyzeRemaining hC hmax h (by simp)
    apply (hbatch.mono (fun w state' h => h) fun w e h => h.extend).bind
    rintro w state' ⟨rest', hfilled, hbetween⟩
    exact (ih hbetween).mono (fun w' _ h => hfilled.complete h) fun w' e h => hfilled.stopped h

theorem ensures_analyze (hC : cfg.coalescer.Lawful view) (hmax : 0 < cfg.maxRowGroupSize) :
    (ingestionTaskAnalyze cfg received).Ensures
      (fun w _ => Completed (Analyzed cfg) cfg.maxRowGroupSize received.flatten w)
      (StoppedAfter cfg.AnalyzeFails (Analyzed cfg) cfg.maxRowGroupSize received.flatten) := by
  apply (ensures_tryNew hC hmax fun e he => .none he).bind
  rintro _ state ⟨rfl, hstate⟩
  exact ensures_analyzeFrom hC hmax hstate

-- ---------------------------------------------------------------------------
-- Agreement of the modes
-- ---------------------------------------------------------------------------

/-- A task sends these groups, or as many of them as a failure or a receiver
that goes away lets it, and fails only with a reported error, which is one of
`F`: where nothing can fail it succeeds. -/
structure Sends (limit : Option Nat) (F : Stop ε → Prop) (G : RowGroupWork α P → Prop)
    (groups : List (Batch α)) (task : Task α ε P PUnit) : Prop where
  ok : task.result = .ok ⟨⟩ → batches (task.taken limit) = groups.take (limit.getD groups.length)
  error : ∀ stop, task.result = .error stop → stop.Reported ∧ F stop
  succeeds : (∀ stop, ¬ F stop) → task.result = .ok ⟨⟩
  sent_prefix : batches (task.taken limit) <+: groups
  properties : ∀ g ∈ task.taken limit, G g

theorem batches_taken (limit : Option Nat) (task : Task α ε P β) :
    batches (task.taken limit) =
      (batches task.emitted).take (limit.getD (batches task.emitted).length) := by
  cases limit with
  | none => simp [Emit.taken]
  | some k => simp [Emit.taken, batches]

theorem taken_subset (limit : Option Nat) (task : Task α ε P β) (hg : g ∈ task.taken limit) :
    g ∈ task.emitted := by
  cases limit with
  | none => exact hg
  | some k => exact List.mem_of_mem_take hg

theorem sends_of_ensures {task : Task α ε P PUnit} (hn : 0 < n) (hgroups : Chunked n rows groups)
    (hF : ∀ stop, F stop → stop.Reported)
    (h : task.Ensures (fun w _ => Completed G n rows w) (StoppedAfter F G n rows)) :
    Sends limit F G groups task := by
  have hpre : batches task.emitted <+: groups ∧ ∀ g ∈ task.emitted, G g := by
    cases hresult : task.result with
    | ok a =>
      have hall := h.ok hresult
      exact ⟨hall.toChunked.unique hn hgroups ▸ List.prefix_rfl, hall.groups⟩
    | error stop =>
      have hstop := h.error hresult
      exact ⟨hgroups.prefix_of_full hn hstop.full hstop.flatten, hstop.groups⟩
  refine ⟨?_, ?_, ?_, ?_, ?_⟩
  · intro hresult
    rw [batches_taken, (h.ok hresult).toChunked.unique hn hgroups]
  · intro stop hresult
    have hfailed := (h.error hresult).failed
    exact ⟨hF stop hfailed, hfailed⟩
  · intro hnone
    cases hresult : task.result with
    | ok _ => rfl
    | error stop => exact absurd (h.error hresult).failed (hnone stop)
  · rw [batches_taken]
    exact (List.take_prefix ..).trans hpre.1
  · exact fun g hg => hpre.2 g (taken_subset limit task hg)

/-- Both modes cut any input into the same row groups. -/
theorem modes_agree (hC : cfg.coalescer.Lawful view) (hmax : 0 < cfg.maxRowGroupSize)
    (received : List (Batch α)) (limit : Option Nat) :
    ∃ groups, Chunked cfg.maxRowGroupSize received.flatten groups ∧
      (groups = [] ↔ received.flatten = []) ∧
      Sends limit cfg.PassthroughFails (Unanalyzed cfg) groups
        (ingestionTaskPassthrough cfg received) ∧
      Sends limit cfg.AnalyzeFails (Analyzed cfg) groups (ingestionTaskAnalyze cfg received) := by
  obtain ⟨groups, hgroups⟩ := Chunked.exists hmax received.flatten
  exact ⟨groups, hgroups, hgroups.eq_nil_iff hmax,
    sends_of_ensures hmax hgroups (fun _ h => h.reported) (ensures_passthrough hC hmax),
    sends_of_ensures hmax hgroups (fun _ h => h.reported) (ensures_analyze hC hmax)⟩

-- ---------------------------------------------------------------------------
-- A coalescer that keeps the law
-- ---------------------------------------------------------------------------

def pushRow (b : Buffers α) (row : α) : Buffers α :=
  if b.buffered.length + 1 < b.target then { b with buffered := b.buffered ++ [row] }
  else { b with completed := b.completed ++ [b.buffered ++ [row]], buffered := [] }

def rowCoalescer (α ε : Type) : BatchCoalescer α ε where
  State := Buffers α
  new target := ⟨target, [], []⟩
  pushBatch b batch := .ok (batch.foldl pushRow b)
  finishBufferedBatch b :=
    .ok { b with completed := b.completed ++ flush b.buffered, buffered := [] }
  nextCompletedBatch b := (b.completed.head?, { b with completed := b.completed.tail })

theorem foldl_pushRow (b : Buffers α) (batch : Batch α) (hlt : b.buffered.length < b.target) :
    ∃ cut rest, batch.foldl pushRow b = ⟨b.target, b.completed ++ cut, rest⟩ ∧
      Filling b.target (b.buffered ++ batch) cut rest := by
  induction batch using List.reverseRecOn with
  | nil => exact ⟨[], b.buffered, by simp, by simp, by simp, hlt⟩
  | append_singleton batch row ih =>
    obtain ⟨cut, rest, hfold, hfill⟩ := ih
    have hrest := hfill.rest_lt
    rw [List.foldl_append, hfold, List.foldl_cons, List.foldl_nil, pushRow, ← List.append_assoc]
    by_cases hpush : rest.length + 1 < b.target
    · exact ⟨cut, rest ++ [row], by simp [hpush], hfill.push hpush⟩
    · refine ⟨cut ++ [rest ++ [row]], [], by simp [hpush], hfill.fill ?_⟩
      simp only [List.length_singleton]
      omega

theorem rowCoalescer_lawful : (rowCoalescer α ε).Lawful id where
  new := rfl
  push := by
    rintro b batch b' ⟨rfl⟩ hlt
    obtain ⟨cut, rest, hfold, hfill⟩ := foldl_pushRow b batch hlt
    exact ⟨cut, rest, hfold, hfill.flatten, hfill.full, hfill.rest_lt⟩
  finish := by
    rintro b b' ⟨rfl⟩
    rfl
  next := ⟨rfl, rfl⟩

def pairsConfig : Config Nat String (List (Batch Nat)) (List (Batch Nat)) where
  coalescer := rowCoalescer Nat String
  maxRowGroupSize := 2
  columnsToAnalyze := ["id"]
  analyzer := ⟨fun _ _ => .ok (), .ok⟩
  emptyAnalysis := []
  buildRowGroupProperties analysis _ := .ok analysis

theorem not_passthroughFails_pairs (stop : Stop String) : ¬ pairsConfig.PassthroughFails stop := by
  rintro (h | h | h) <;> cases h

theorem not_analyzeFails_pairs (stop : Stop String) : ¬ pairsConfig.AnalyzeFails stop := by
  rintro (h | h | h | h)
  · exact not_passthroughFails_pairs stop h
  all_goals cases h

theorem modes_agree_pairs :
    ∃ groups, Chunked 2 [1, 2, 3, 4, 5] groups ∧ (groups = [] ↔ [1, 2, 3, 4, 5] = []) ∧
      (ingestionTaskPassthrough pairsConfig [[1, 2, 3], [], [4, 5]]).result = .ok ⟨⟩ ∧
      (ingestionTaskAnalyze pairsConfig [[1, 2, 3], [], [4, 5]]).result = .ok ⟨⟩ ∧
      batches (ingestionTaskPassthrough pairsConfig [[1, 2, 3], [], [4, 5]]).emitted = groups ∧
      batches (ingestionTaskAnalyze pairsConfig [[1, 2, 3], [], [4, 5]]).emitted = groups ∧
      ∀ g ∈ (ingestionTaskAnalyze pairsConfig [[1, 2, 3], [], [4, 5]]).emitted,
        Analyzed pairsConfig g := by
  obtain ⟨groups, hgroups, hnil, hpassthrough, hanalyze⟩ :=
    @modes_agree _ _ _ _ pairsConfig _ rowCoalescer_lawful (by decide) [[1, 2, 3], [], [4, 5]] none
  have hp := hpassthrough.succeeds not_passthroughFails_pairs
  have ha := hanalyze.succeeds not_analyzeFails_pairs
  exact ⟨groups, hgroups, hnil, hp, ha, by simpa [Emit.taken] using hpassthrough.ok hp,
    by simpa [Emit.taken] using hanalyze.ok ha, hanalyze.properties⟩

end SilkChiffon.Ingestion
