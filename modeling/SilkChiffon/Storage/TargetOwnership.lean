import SilkChiffon.Storage.OutputTargets
import Mathlib.Data.List.Nodup

/-!
# One owner for each output target

Whatever the interleaving, a target is claimed once, before anything is asked
about it, and stays claimed. Two spellings are one target when they have one
store root and one decoded path.
-/

namespace SilkChiffon.Storage

-- ---------------------------------------------------------------------------
-- Orderly logs
-- ---------------------------------------------------------------------------

namespace TargetEvent

def claim : TargetEvent U P → Option (CallId × OutputTargetIdentity U P)
  | claimed i t => some (i, t)
  | _ => none

def check : TargetEvent U P → Option (CallId × OutputTargetIdentity U P)
  | headed i t | prepared i t => some (i, t)
  | _ => none

def call : TargetEvent U P → CallId
  | claimed i _ | rejected i _ | headed i _ | prepared i _ => i

end TargetEvent

def claims (log : List (TargetEvent U P)) : List (CallId × OutputTargetIdentity U P) :=
  log.filterMap TargetEvent.claim

@[simp] theorem claims_snoc (log : List (TargetEvent U P)) (e : TargetEvent U P) :
    claims (log ++ [e]) = claims log ++ e.claim.toList := by
  cases h : e.claim <;> simp [claims, h]

def Allowed (log : List (TargetEvent U P)) : TargetEvent U P → Prop
  | .claimed _ t => t ∉ (claims log).map (·.2)
  | .rejected i t => ∃ j, j ≠ i ∧ (j, t) ∈ claims log
  | .headed i t | .prepared i t => (i, t) ∈ claims log

inductive ClaimLog : List (TargetEvent U P) → Prop
  | nil : ClaimLog []
  | snoc : ClaimLog log → Allowed log e → ClaimLog (log ++ [e])

variable {U P : Type} {session : StorageSession U P} {calls : CallId → PrepareCall U}
  {s s' : ClaimState U P} {log : List (TargetEvent U P)}

theorem ClaimLog.allowed {e : TargetEvent U P} (h : ClaimLog (before ++ e :: after)) : Allowed before e := by
  generalize hlog : before ++ e :: after = log at h
  induction h generalizing after with
  | nil => simp at hlog
  | @snoc log e' hlog' he ih =>
    rcases List.eq_nil_or_concat after with rfl | ⟨after, last, rfl⟩
    · obtain ⟨rfl, heq⟩ := List.append_inj' hlog rfl
      exact (List.cons.inj heq).1 ▸ he
    · rw [List.concat_eq_append, ← List.cons_append, ← List.append_assoc] at hlog
      exact ih (List.append_inj' hlog rfl).1

theorem ClaimLog.nodup (h : ClaimLog log) : ((claims log).map (·.2)).Nodup := by
  induction h with
  | nil => exact List.nodup_nil
  | @snoc log e _ he ih =>
    rw [claims_snoc, List.map_append]
    cases e with
    | claimed i t =>
      have hnew : ∀ a ∈ (claims log).map (·.2), a ≠ t := fun a ha h => he (h ▸ ha)
      simpa [TargetEvent.claim, List.nodup_append, ih] using hnew
    | rejected | headed | prepared => simpa [TargetEvent.claim] using ih

theorem ClaimLog.claimant_unique (h : ClaimLog log) (hi : (i, t) ∈ claims log) (hj : (j, t) ∈ claims log) :
    i = j := (Prod.mk.inj (List.inj_on_of_nodup_map h.nodup hi hj rfl)).1

-- ---------------------------------------------------------------------------
-- What a state remembers
-- ---------------------------------------------------------------------------

theorem createHandle_ok [DecidableEq U]
    (h : session.createHandle cache creation input .output = .ok (target, cache')) :
    session.target input = .ok target := by
  unfold StorageSession.createHandle at h
  obtain ⟨⟨location, i⟩, hlocate, h⟩ := Lists.bind_eq_ok.mp h
  obtain ⟨handle, hhandle, h⟩ := Lists.bind_eq_ok.mp h
  obtain ⟨_, _, h⟩ := Lists.bind_eq_ok.mp h
  obtain ⟨rfl, -⟩ := Prod.mk.inj (Except.ok.inj h)
  exact Lists.bind_eq_ok.mpr ⟨_, hlocate, hhandle⟩

theorem prepared_ok (h : session.prepared target answer = .ok target') : target' = target := by
  unfold StorageSession.prepared at h
  split at h
  · cases h
  · cases answer with
    | error e => simp [Except.map, Except.mapError] at h
    | ok _ => simpa [Except.map, Except.mapError] using h.symm

namespace CallState

def target : CallState U P → Option (OutputTarget U P)
  | resolved t | claimed t | checked t | done (.ok t) => some t
  | _ => none

def owned : CallState U P → Option (OutputTarget U P)
  | claimed t | checked t | done (.ok t) => some t
  | _ => none

theorem target_of_owned {call : CallState U P} (h : call.owned = some t) : call.target = some t := by
  unfold owned at h
  split at h <;> simp_all [target]

def unclaimed : CallState U P → Bool
  | waiting | resolved _ => true
  | _ => false

end CallState

structure ClaimInvariant (session : StorageSession U P) (calls : CallId → PrepareCall U)
    (s : ClaimState U P) : Prop where
  orderly : ClaimLog s.log
  claimed : ∀ t, t ∈ s.claimedOutputTargets ↔ t ∈ (claims s.log).map (·.2)
  target : ∀ i t, (s.calls i).target = some t → session.target (calls i).input = .ok t
  owned : ∀ i t, (s.calls i).owned = some t → (i, t.identity) ∈ claims s.log
  fresh : ∀ i, (s.calls i).unclaimed → ∀ e ∈ s.log, e.call ≠ i

theorem ClaimInvariant.setCall (hs : ClaimInvariant session calls s) {call : CallState U P}
    (htarget : ∀ t, call.target = some t → session.target (calls i).input = .ok t)
    (howned : ∀ t, call.owned = some t → (i, t.identity) ∈ claims s.log)
    (hfresh : call.unclaimed → (s.calls i).unclaimed) :
    ClaimInvariant session calls (s.setCall i call) where
  orderly := hs.orderly
  claimed := hs.claimed
  target := by
    intro j t hj
    by_cases hij : j = i
    · subst hij
      exact htarget t (by simpa using hj)
    · exact hs.target j t (by simpa [hij] using hj)
  owned := by
    intro j t hj
    by_cases hij : j = i
    · subst hij
      exact howned t (by simpa using hj)
    · exact hs.owned j t (by simpa [hij] using hj)
  fresh := by
    intro j hj
    by_cases hij : j = i
    · subst hij
      exact hs.fresh j (hfresh (by simpa using hj))
    · exact hs.fresh j (by simpa [hij] using hj)

theorem ClaimInvariant.cached (hs : ClaimInvariant session calls s) :
    ClaimInvariant session calls { s with objectStoreCache := cache } :=
  ⟨hs.orderly, hs.claimed, hs.target, hs.owned, hs.fresh⟩

theorem ClaimInvariant.ended (hs : ClaimInvariant session calls s) {call : CallState U P}
    (htarget : call.target = none) (howned : call.owned = none) (hclaimed : call.unclaimed = false) :
    ClaimInvariant session calls (s.setCall i call) :=
  hs.setCall (by simp [htarget]) (by simp [howned]) (by simp [hclaimed])

theorem ClaimInvariant.keeping (hs : ClaimInvariant session calls s) {call : CallState U P}
    (hcall : (s.calls i).owned = some t) (howned : call.owned = some t)
    (hclaimed : call.unclaimed = false) : ClaimInvariant session calls (s.setCall i call) := by
  refine hs.setCall ?_ ?_ (by simp [hclaimed])
  · intro t' ht'
    obtain rfl : t = t' := by simpa [CallState.target_of_owned howned] using ht'
    exact hs.target i t (CallState.target_of_owned hcall)
  · intro t' ht'
    obtain rfl : t = t' := by simpa [howned] using ht'
    exact hs.owned i t hcall

theorem ClaimInvariant.note (hs : ClaimInvariant session calls s) (he : Allowed s.log e)
    (hclaim : e.claim = none) (hcall : (s.calls e.call).unclaimed = false) :
    ClaimInvariant session calls (s.note e) where
  orderly := hs.orderly.snoc he
  claimed := by simpa [hclaim] using hs.claimed
  target := hs.target
  owned := by simpa [hclaim] using hs.owned
  fresh := by
    intro i hi e' he'
    rcases List.mem_append.mp he' with he' | he'
    · exact hs.fresh i hi e' he'
    · obtain rfl := List.mem_singleton.mp he'
      rintro rfl
      rw [ClaimState.note_calls, hcall] at hi
      cases hi

theorem ClaimInvariant.claim [DecidableEq U] (hs : ClaimInvariant session calls s)
    (hcall : s.calls i = .resolved t) (hnew : t.identity ∉ s.claimedOutputTargets) :
    ClaimInvariant session calls
      (({ s with claimedOutputTargets := t.identity :: s.claimedOutputTargets }.setCall i
        (.claimed t)).note (.claimed i t.identity)) where
  orderly := hs.orderly.snoc fun h => hnew ((hs.claimed _).mpr h)
  claimed := by
    intro t'
    simp only [ClaimState.note_claimedOutputTargets, ClaimState.setCall_claimedOutputTargets,
      ClaimState.note_log, ClaimState.setCall_log, claims_snoc, TargetEvent.claim, List.map_append,
      List.mem_cons, List.mem_append, hs.claimed]
    simp [or_comm]
  target := by
    intro j t' hj
    by_cases hij : j = i
    · subst hij
      obtain rfl : t = t' := by simpa [CallState.target] using hj
      exact hs.target j t (by rw [hcall]; rfl)
    · exact hs.target j t' (by simpa [hij] using hj)
  owned := by
    intro j t' hj
    simp only [ClaimState.note_log, ClaimState.setCall_log, claims_snoc, TargetEvent.claim,
      List.mem_append]
    by_cases hij : j = i
    · subst hij
      obtain rfl : t = t' := by simpa [CallState.owned] using hj
      exact .inr (by simp)
    · exact .inl (hs.owned j t' (by simpa [hij] using hj))
  fresh := by
    intro j hj e he
    have hij : j ≠ i := by
      rintro rfl
      simp [CallState.unclaimed] at hj
    rcases List.mem_append.mp he with he | he
    · exact hs.fresh j (by simpa [hij] using hj) e he
    · obtain rfl := List.mem_singleton.mp he
      exact Ne.symm hij

theorem claimInvariant_step [DecidableEq U] (hs : ClaimInvariant session calls s)
    (h : ClaimStep session calls s s') : ClaimInvariant session calls s' := by
  cases h with
  | unresolved hcall h => exact hs.ended rfl rfl rfl
  | resolve hcall h =>
    refine hs.cached.setCall ?_ ?_ ?_
    · rintro t ⟨rfl⟩
      exact createHandle_ok h
    · simp [CallState.owned]
    · intro _
      simp [hcall, CallState.unclaimed]
  | claim hcall h => exact hs.claim hcall h
  | @reject _ i target hcall h =>
    obtain ⟨⟨j, t⟩, hj, heq⟩ := List.mem_map.mp ((hs.claimed _).mp h)
    obtain rfl : t = target.identity := heq
    have hother : j ≠ i := by
      obtain ⟨e, he, hclaim⟩ := List.mem_filterMap.mp hj
      have := hs.fresh i (by rw [hcall]; rfl) e he
      cases e with
      | claimed j' t' =>
        obtain ⟨rfl, -⟩ : j' = j ∧ t' = target.identity := by simpa [TargetEvent.claim] using hclaim
        exact this
      | rejected | headed | prepared => cases hclaim
    exact (hs.ended rfl rfl rfl).note ⟨j, hother, hj⟩ rfl
      (by simp [TargetEvent.call, CallState.unclaimed])
  | @head _ i target answer hcall h =>
    have hset : ClaimInvariant session calls (s.setCall i (observed target answer)) := by
      cases answer with
      | notFound => exact hs.keeping (by rw [hcall]; rfl) rfl rfl
      | found | failed => exact hs.ended rfl rfl rfl
    refine hset.note (hs.owned i target (by rw [hcall]; rfl)) rfl ?_
    cases answer <;> simp [TargetEvent.call, observed, CallState.unclaimed]
  | skipHead hcall h => exact hs.keeping (by rw [hcall]; rfl) rfl rfl
  | @prepare _ i target answer hcall =>
    have hset : ClaimInvariant session calls
        (s.setCall i (.done (session.prepared target answer))) := by
      cases hprep : session.prepared target answer with
      | error e => exact hs.ended rfl rfl rfl
      | ok target' =>
        obtain rfl := prepared_ok hprep
        exact hs.keeping (by rw [hcall]; rfl) rfl rfl
    exact hset.note (hs.owned i target (by rw [hcall]; rfl)) rfl
      (by simp [TargetEvent.call, CallState.unclaimed])
  | drop hcall => exact hs.ended rfl rfl rfl

theorem Claims.invariant [DecidableEq U] (h : Claims session calls s) : ClaimInvariant session calls s := by
  induction h with
  | initial => exact ⟨.nil, by simp [ClaimState.initial, claims], by simp [ClaimState.initial, CallState.target],
      by simp [ClaimState.initial, CallState.owned], by simp [ClaimState.initial]⟩
  | step _ h ih => exact claimInvariant_step ih h

-- ---------------------------------------------------------------------------
-- Ownership
-- ---------------------------------------------------------------------------

/-- The locations of two inputs have one store root and one decoded path. -/
def SameTarget (session : StorageSession U P) (a b : LocationInput U) : Prop :=
  ∃ left right, session.locate a .output = .ok left ∧ session.locate b .output = .ok right ∧
    session.storeUrl left.1.url = session.storeUrl right.1.url ∧
    Percent.decode (asBytes (session.crate.path left.1.url)) =
      Percent.decode (asBytes (session.crate.path right.1.url))

/-- A URL path is read by what it decodes to. -/
def StorageSession.DecodesPaths (session : StorageSession U P) : Prop :=
  ∀ path path' objectPath, Percent.decode (asBytes path) = Percent.decode (asBytes path') →
    session.fromUrlPath path = .ok objectPath → session.fromUrlPath path' = .ok objectPath

def Succeeded (s : ClaimState U P) (i : CallId) : Prop := ∃ target, s.calls i = .done (.ok target)

theorem SameTarget.identity_eq (hpaths : session.DecodesPaths) (hsame : SameTarget session a b)
    (ha : session.target a = .ok target) (hb : session.target b = .ok target') :
    target.identity = target'.identity := by
  obtain ⟨left, right, hleft, hright, hroot, hdecoded⟩ := hsame
  obtain ⟨left', hleft', ha⟩ := Lists.bind_eq_ok.mp ha
  obtain rfl := Except.ok.inj (hleft.symm.trans hleft')
  obtain ⟨right', hright', hb⟩ := Lists.bind_eq_ok.mp hb
  obtain rfl := Except.ok.inj (hright.symm.trans hright')
  obtain ⟨hrootA, hpathA⟩ := handleForLocation_ok ha
  obtain ⟨hrootB, hpathB⟩ := handleForLocation_ok hb
  have hpath := Except.ok.inj ((hpaths _ _ _ hdecoded hpathA).symm.trans hpathB)
  simp [OutputTarget.identity, hrootA, hrootB, hroot, hpath]

theorem claimStep_resolved [DecidableEq U] (h : ClaimStep session calls s s')
    (hj : s.calls j = .resolved target) : s'.calls j = .resolved target ∨
      (target.identity ∉ s.claimedOutputTargets ∧ s'.calls j = .claimed target) ∨
      (target.identity ∈ s.claimedOutputTargets ∧
        s'.calls j = .done (.error (.outputTargetAlreadyClaimed target.url))) := by
  cases h with
  | @unresolved _ _ _ i hcall | @resolve _ _ _ i _ hcall | @skipHead _ i _ hcall | @head _ i _ _ hcall | @prepare _ i _ _ hcall =>
    have hij : j ≠ i := by
      rintro rfl
      simp [hj] at hcall
    exact .inl (by simpa [hij] using hj)
  | @drop _ i _ hcall =>
    have hij : j ≠ i := by
      rintro rfl
      simp [hj] at hcall
    exact .inl (by simpa [hij] using hj)
  | @claim _ i target' hcall hnew =>
    by_cases hij : j = i
    · subst hij
      obtain rfl : target = target' := by simpa [hj] using hcall
      exact .inr (.inl ⟨hnew, by simp⟩)
    · exact .inl (by simpa [hij] using hj)
  | @reject _ i target' hcall hold =>
    by_cases hij : j = i
    · subst hij
      obtain rfl : target = target' := by simpa [hj] using hcall
      exact .inr (.inr ⟨hold, by simp⟩)
    · exact .inl (by simpa [hij] using hj)

theorem claimStep_log [DecidableEq U] (h : ClaimStep session calls s s') : s.log <+: s'.log := by
  cases h with
  | claim | reject | head | prepare => exact List.prefix_append ..
  | unresolved | resolve | skipHead | drop => exact List.prefix_refl _

theorem claims_mono (h : log <+: log') (hmem : c ∈ claims log) : c ∈ claims log' := by
  obtain ⟨rest, rfl⟩ := h
  rw [claims, List.filterMap_append]
  exact List.mem_append_left _ hmem

/-- What holds of the claims of a session at every moment. -/
structure TargetOwnership [DecidableEq U] (session : StorageSession U P) (calls : CallId → PrepareCall U)
    (s : ClaimState U P) : Prop where
  /-- At most one call for a target succeeds, however it is spelled. -/
  exclusive : ∀ i j, i ≠ j → SameTarget session (calls i).input (calls j).input →
    ¬ (Succeeded s i ∧ Succeeded s j)
  /-- The store and the backend are asked about claimed targets only. -/
  claimFirst : ∀ before e after i t, s.log = before ++ e :: after → e.check = some (i, t) →
    (i, t) ∈ claims before
  /-- Whatever becomes of the call, its claim stays. -/
  staysClaimed : ∀ i t, (i, t) ∈ claims s.log → t ∈ s.claimedOutputTargets ∧
    ∀ s', ClaimStep session calls s s' → (i, t) ∈ claims s'.log
  /-- No other call gets a claimed target, and one that asks for it is rejected. -/
  laterRejected : ∀ i j t, i ≠ j → (i, t.identity) ∈ claims s.log →
    session.target (calls j).input = .ok t → (s.calls j).owned = none ∧
      (s.calls j = .resolved t → ∀ s', ClaimStep session calls s s' → s'.calls j = .resolved t ∨
        s'.calls j = .done (.error (.outputTargetAlreadyClaimed t.url)))
  /-- A call for a target that nobody claimed gets it, whatever happened to other targets. -/
  othersUnaffected : ∀ j t, s.calls j = .resolved t → (∀ i, (i, t.identity) ∉ claims s.log) →
    ∀ s', ClaimStep session calls s s' → s'.calls j = .resolved t ∨ s'.calls j = .claimed t
  /-- A rejection is due to another call's earlier claim of the same target. -/
  rejectedForClaim : ∀ before i t after, s.log = before ++ .rejected i t :: after →
    ∃ j, j ≠ i ∧ (j, t) ∈ claims before

theorem one_owner [DecidableEq U] (hpaths : session.DecodesPaths) (h : Claims session calls s) :
    TargetOwnership session calls s := by
  have hs := h.invariant
  refine ⟨?_, ?_, ?_, ?_, ?_, ?_⟩
  · rintro i j hij hsame ⟨⟨target, hi⟩, ⟨target', hj⟩⟩
    have hidentity := hsame.identity_eq hpaths (hs.target i target (by rw [hi]; rfl))
      (hs.target j target' (by rw [hj]; rfl))
    have hmine := hs.owned i target (by rw [hi]; rfl)
    have hother := hs.owned j target' (by rw [hj]; rfl)
    rw [← hidentity] at hother
    exact hij (hs.orderly.claimant_unique hmine hother)
  · intro before e after i t hlog hcheck
    have hallowed : Allowed before e := ClaimLog.allowed (hlog ▸ hs.orderly)
    cases e with
    | claimed | rejected => cases hcheck
    | headed i' t' | prepared i' t' =>
      obtain ⟨rfl, rfl⟩ := Prod.mk.inj (Option.some.inj hcheck)
      exact hallowed
  · intro i t hclaim
    refine ⟨(hs.claimed t).mpr (List.mem_map_of_mem hclaim), fun s' hstep => ?_⟩
    exact claims_mono (claimStep_log hstep) hclaim
  · intro i j t hij hclaim htarget
    refine ⟨?_, fun hj s' hstep => ?_⟩
    · by_contra hsome
      obtain ⟨t', ht'⟩ := Option.ne_none_iff_exists'.mp hsome
      obtain rfl : t' = t :=
        Except.ok.inj ((hs.target j t' (CallState.target_of_owned ht')).symm.trans htarget)
      exact hij (hs.orderly.claimant_unique hclaim (hs.owned j t' ht'))
    · rcases claimStep_resolved hstep hj with hsame | ⟨hnew, _⟩ | ⟨_, hrejected⟩
      · exact .inl hsame
      · exact absurd ((hs.claimed _).mpr (List.mem_map_of_mem hclaim)) hnew
      · exact .inr hrejected
  · intro j t hj hnone s' hstep
    rcases claimStep_resolved hstep hj with hsame | ⟨_, hclaimed⟩ | ⟨hold, _⟩
    · exact .inl hsame
    · exact .inr hclaimed
    · obtain ⟨⟨i, t'⟩, hi, rfl⟩ := List.mem_map.mp ((hs.claimed _).mp hold)
      exact absurd hi (hnone i)
  · intro before i t after hlog
    exact ClaimLog.allowed (hlog ▸ hs.orderly)

-- ---------------------------------------------------------------------------
-- Two spellings of one target
-- ---------------------------------------------------------------------------

def memoryBackend : BackendBinding String := ⟨"memory", fun _ => true, none, fun _ => .ok ()⟩

/-- A session over one bucket, whose URLs are their texts. -/
def memorySession : StorageSession String Bytes where
  crate := {
    parse := .ok
    asStr := id
    scheme _ := "memory"
    username _ := ""
    password _ := none
    path url := String.ofList (url.toList.drop 10)
    toFilePath _ := none
    fromFilePath _ := none
    setRootPath _ := "memory://b/"
    clearQuery := id
    clearFragment := id
    withSegments _ _ := none }
  fromUrlPath path := .ok ((Percent.decode (asBytes path)).drop 1)
  backends := [memoryBackend]
  backendIndexByScheme scheme := if scheme = "memory" then some ⟨0, Nat.zero_lt_one⟩ else none
  bareLocationBackendIndex := none

def twoSpellings (i : CallId) : PrepareCall String :=
  ⟨.url ⟨if i = 0 then "memory://b/a" else "memory://b/%61"⟩, .rejectIfObserved⟩

theorem one_owner_spellings : ∃ s, Claims memorySession twoSpellings s ∧
    s.calls 1 = .done (.error (.outputTargetAlreadyClaimed "memory://b/%61")) ∧
    TargetOwnership memorySession twoSpellings s := by
  have hfirst : memorySession.createHandle [] (.ok ()) (twoSpellings 0).input .output =
      .ok (⟨"memory://b/a", "memory://b/", [97]⟩, ["memory://b/"]) := rfl
  have hsecond : memorySession.createHandle ["memory://b/"] (.ok ()) (twoSpellings 1).input .output =
      .ok (⟨"memory://b/%61", "memory://b/", [97]⟩, ["memory://b/"]) := rfl
  have h₁ := Claims.initial.step (.resolve rfl hfirst)
  have h₂ := h₁.step (.claim (i := 0) rfl (by simp [ClaimState.initial]))
  have h₃ := h₂.step (.head (i := 0) (.failed "timeout") rfl rfl)
  have h₄ := h₃.step (.resolve rfl hsecond)
  have h₅ := h₄.step (.reject (i := 1) rfl (by decide))
  refine ⟨_, h₅, rfl, one_owner ?_ h₅⟩
  intro path path' objectPath hdecoded hpath
  simpa [memorySession, hdecoded] using hpath

end SilkChiffon.Storage
