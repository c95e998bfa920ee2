import Mathlib.Data.String.Basic
import Mathlib.Logic.Relation
import SilkChiffon.Core.InputStoreView

/-!
# File groups

The objects of one input become a group of files that the engine reads from a
store registered for it: a view of the objects' storage root, under a name made
of the root. A session prepares many groups, and a later one replaces the view
of its root. What an object store answers is a parameter.
-/

namespace SilkChiffon.ExactFiles

open InputStoreView
open Storage (ObjectPath)

variable {U σ μ ο ε ν : Type}

-- ---------------------------------------------------------------------------
-- Objects and stores
-- ---------------------------------------------------------------------------

structure ObjectMeta (μ : Type) where
  location : ObjectPath
  size : Nat
  attested : μ

structure InputHandle (U σ : Type) where
  url : U
  objectStore : σ
  objectPath : ObjectPath
  storeUrl : U

structure InputObject (U σ μ : Type) where
  inputHandle : InputHandle U σ
  metadata : ObjectMeta μ

structure GetResult (μ ε : Type) where
  payload : List (Except ε Bytes)
  objectMeta : ObjectMeta μ
  range : Nat × Nat
  attributes : List (String × String)

/-- How objects are read, with options or in ranges, and how an error prints. -/
structure StoreReads (σ μ ο ε : Type) where
  getOpts : σ → ObjectPath → ο → Except ε (GetResult μ ε)
  getRanges : σ → ObjectPath → List (Nat × Nat) → Except ε (List Bytes)
  display : ε → String

/-- The view of a storage root that the engine reads from. -/
structure StoreView (U σ : Type) where
  inner : σ
  storeRoot : U

inductive ViewError (U ε : Type)
  | path (fault : PathFault)
  | canonical (canonicalUrl : U) (error : ε)

/-- The messages; `utf8` is the standard library's. -/
def ViewError.display (urls : ViewUrls U) (reads : StoreReads σ μ ο ε) (utf8 : String) : ViewError U ε → String
  | path fault => fault.display utf8
  | canonical canonicalUrl error => s!"input {urls.asStr canonicalUrl}: {reads.display error}"

def GetResult.seenAs (canonicalUrl : U) (location : ObjectPath) (result : GetResult μ ε) :
    GetResult μ (ViewError U ε) where
  payload := result.payload.map (·.mapError (.canonical canonicalUrl))
  objectMeta := { result.objectMeta with location }
  range := result.range
  attributes := result.attributes

namespace StoreView

variable [DecidableEq U] (urls : ViewUrls U) (paths : ViewPaths) (reads : StoreReads σ μ ο ε)

def getOpts (view : StoreView U σ) (location : ObjectPath) (options : ο) :
    Except (ViewError U ε) (GetResult μ (ViewError U ε)) := do
  let (canonicalUrl, innerPath) ← (decodePath urls paths view.storeRoot location).mapError .path
  let result ← (reads.getOpts view.inner innerPath options).mapError (.canonical canonicalUrl)
  return result.seenAs canonicalUrl location

def getRanges (view : StoreView U σ) (location : ObjectPath) (ranges : List (Nat × Nat)) :
    Except (ViewError U ε) (List Bytes) := do
  let (canonicalUrl, innerPath) ← (decodePath urls paths view.storeRoot location).mapError .path
  (reads.getRanges view.inner innerPath ranges).mapError (.canonical canonicalUrl)

/-- The message blames the path, when it cannot be decoded, or names the input. -/
def Blames (utf8 : String) (view : StoreView U σ) (location : ObjectPath) (error : ViewError U ε) : Prop :=
  match decodePath urls paths view.storeRoot location with
  | .error fault => error.display urls reads utf8 = fault.display utf8
  | .ok (canonicalUrl, _) => Text.Mentions (error.display urls reads utf8) (urls.asStr canonicalUrl)

variable {urls paths reads}

theorem blames_of_bind {utf8 : String} {view : StoreView U σ}
    {read : U × ObjectPath → Except (ViewError U ε) β}
    (hread : ∀ decoded error, read decoded = .error error → ∃ cause, error = .canonical decoded.1 cause)
    (h : (decodePath urls paths view.storeRoot location).mapError .path >>= read = .error error) :
    Blames urls paths reads utf8 view location error := by
  unfold Blames
  cases hdecode : decodePath urls paths view.storeRoot location with
  | error fault =>
    rw [hdecode] at h
    obtain rfl := Except.error.inj h
    rfl
  | ok decoded =>
    rw [hdecode] at h
    obtain ⟨cause, rfl⟩ := hread decoded error h
    exact (((Text.mentions_self _).prepend _).append _).append _

theorem getOpts_blames {utf8 : String} {view : StoreView U σ}
    (h : view.getOpts urls paths reads location options = .error error) :
    Blames urls paths reads utf8 view location error := by
  refine blames_of_bind (fun decoded error hread => ?_) h
  cases hresult : reads.getOpts view.inner decoded.2 options with
  | error cause =>
    simp only [hresult] at hread
    exact ⟨cause, (Except.error.inj hread).symm⟩
  | ok result =>
    simp only [hresult] at hread
    cases hread

theorem getRanges_blames {utf8 : String} {view : StoreView U σ}
    (h : view.getRanges urls paths reads location ranges = .error error) :
    Blames urls paths reads utf8 view location error := by
  refine blames_of_bind (fun decoded error hread => ?_) h
  cases hresult : reads.getRanges view.inner decoded.2 ranges with
  | error cause =>
    simp only [hresult] at hread
    exact ⟨cause, (Except.error.inj hread).symm⟩
  | ok bytes =>
    simp only [hresult] at hread
    cases hread

end StoreView

structure RuntimeEnv (U σ : Type) where
  objectStores : List Char → Option (StoreView U σ)

def RuntimeEnv.new : RuntimeEnv U σ := ⟨fun _ => none⟩

def RuntimeEnv.registerObjectStore (env : RuntimeEnv U σ) (url : List Char) (view : StoreView U σ) :
    RuntimeEnv U σ :=
  ⟨fun other => if other = url then some view else env.objectStores other⟩

-- ---------------------------------------------------------------------------
-- Preparing a group
-- ---------------------------------------------------------------------------

structure InputFile (U μ : Type) where
  objectMeta : ObjectMeta μ
  canonicalUrl : U

inductive GroupError
  | emptyGroup | emptyRegistration | severalRoots
  deriving DecidableEq, Repr

def GroupError.display : GroupError → String
  | emptyGroup => "cannot build an empty file-input group"
  | emptyRegistration => "cannot register an empty input group"
  | severalRoots => "input group spans multiple object-store roots"

theorem GroupError.display_injective : Function.Injective GroupError.display := by
  intro error error' h
  cases error <;> cases error' <;> first | rfl | simp [display] at h

def objectStoreUrl (urls : ViewUrls U) (storeUrl : U) : List Char :=
  "silk-input://".toList ++ encode (asBytes (urls.asStr storeUrl))

def InputObject.file (urls : ViewUrls U) (paths : ViewPaths) (object : InputObject U σ μ) : InputFile U μ where
  objectMeta := { object.metadata with
    location := scopedPath urls paths object.inputHandle.url object.inputHandle.objectPath }
  canonicalUrl := object.inputHandle.url

def registerInputStore [DecidableEq U] (urls : ViewUrls U) (paths : ViewPaths) (env : RuntimeEnv U σ) :
    List (InputObject U σ μ) → Except GroupError (List Char × List (InputFile U μ) × RuntimeEnv U σ)
  | [] => .error .emptyRegistration
  | object :: objects =>
    let handle := object.inputHandle
    if (object :: objects).any fun object => object.inputHandle.storeUrl ≠ handle.storeUrl then
      .error .severalRoots
    else
      let url := objectStoreUrl urls handle.storeUrl
      .ok (url, (object :: objects).map (·.file urls paths),
        env.registerObjectStore url ⟨handle.objectStore, handle.storeUrl⟩)

/-- The largest by `cmp`, and of equal ones the last. -/
def maxBy {α : Type} (cmp : α → α → Ordering) : List α → Option α
  | [] => none
  | a :: l => some (l.foldl (fun best b => if cmp best b = .gt then best else b) a)

/-- By size, and of one size the smaller URL is the greater. -/
def compareObjects (urls : ViewUrls U) (left right : InputObject U σ μ) : Ordering :=
  (compare left.metadata.size right.metadata.size).then
    (compare (urls.asStr right.inputHandle.url) (urls.asStr left.inputHandle.url))

def representativeIndex (urls : ViewUrls U) (objects : List (InputObject U σ μ)) : Option Nat :=
  (maxBy (fun left right => compareObjects urls left.1 right.1) objects.zipIdx).map Prod.snd

structure FileInputGroup (U μ ν : Type) where
  objectStoreUrl : List Char
  files : List (InputFile U μ)
  representativeIndex : Nat
  variant : ν
  representative_lt : representativeIndex < files.length

def FileInputGroup.representative (group : FileInputGroup U μ ν) : InputFile U μ :=
  group.files.get ⟨group.representativeIndex, group.representative_lt⟩

-- ---------------------------------------------------------------------------
-- The representative
-- ---------------------------------------------------------------------------

theorem foldl_best {α : Type} {cmp : α → α → Ordering} [Std.TransCmp cmp] {a : α} {l : List α} :
    l.foldl (fun best b => if cmp best b = .gt then best else b) a ∈ a :: l ∧
      ∀ b ∈ a :: l, (cmp b (l.foldl (fun best b => if cmp best b = .gt then best else b) a)).isLE := by
  induction l generalizing a with
  | nil => exact ⟨List.mem_cons_self, List.forall_mem_singleton.mpr Std.ReflCmp.isLE_rfl⟩
  | cons b l ih =>
    rw [List.foldl_cons]
    split
    · rename_i hgt
      obtain ⟨hmem, hbest⟩ := ih (a := a)
      refine ⟨List.mem_cons.mpr ((List.mem_cons.mp hmem).imp_right (List.mem_cons_of_mem _)), ?_⟩
      rw [List.forall_mem_cons] at hbest
      have hba : (cmp b a).isLE := Ordering.isLE_of_eq_lt (Std.OrientedCmp.gt_iff_lt.mp hgt)
      simp only [List.forall_mem_cons]
      exact ⟨hbest.1, Std.TransCmp.isLE_trans hba hbest.1, hbest.2⟩
    · rename_i hle
      obtain ⟨hmem, hbest⟩ := ih (a := b)
      refine ⟨List.mem_cons_of_mem _ hmem, List.forall_mem_cons.mpr ⟨?_, hbest⟩⟩
      have hab : (cmp a b).isLE := Ordering.isLE_iff_ne_gt.mpr hle
      exact Std.TransCmp.isLE_trans hab (hbest b List.mem_cons_self)

theorem maxBy_ok {α : Type} {cmp : α → α → Ordering} [Std.TransCmp cmp] {a : α} {l : List α} (h : maxBy cmp l = some a) :
    a ∈ l ∧ ∀ b ∈ l, (cmp b a).isLE := by
  cases l with
  | nil => cases h
  | cons b l =>
    obtain rfl := Option.some.inj h
    exact foldl_best

instance compareObjects_trans (urls : ViewUrls U) : Std.TransCmp (compareObjects (σ := σ) (μ := μ) urls) :=
  inferInstanceAs (Std.TransCmp (compareLex (compareOn fun object : InputObject U σ μ => object.metadata.size)
    fun left right => compareOn (fun object : InputObject U σ μ => urls.asStr object.inputHandle.url) right left))

instance compareIndexed_trans (urls : ViewUrls U) :
    Std.TransCmp fun left right : InputObject U σ μ × Nat => compareObjects urls left.1 right.1 where
  eq_swap {a b} := Std.OrientedCmp.eq_swap (a := a.1) (b := b.1)
  isLE_trans {a b c} := Std.TransCmp.isLE_trans (a := a.1) (b := b.1) (c := c.1)

variable {urls : ViewUrls U} {paths : ViewPaths}

theorem compareObjects_isLE {left right : InputObject U σ μ} (h : (compareObjects urls left right).isLE) :
    left.metadata.size < right.metadata.size ∨ left.metadata.size = right.metadata.size ∧
      urls.asStr right.inputHandle.url ≤ urls.asStr left.inputHandle.url := by
  rw [compareObjects, Ordering.isLE_then_iff_or] at h
  rcases h with hlt | ⟨heq, hle⟩
  · exact .inl (Nat.compare_eq_lt.mp hlt)
  · exact .inr ⟨Nat.compare_eq_eq.mp heq, compare_le_iff_le.mp (Ordering.isLE_iff_ne_gt.mp hle)⟩

def Represents (urls : ViewUrls U) (objects : List (InputObject U σ μ)) (object : InputObject U σ μ) : Prop :=
  ∀ other ∈ objects, other.metadata.size < object.metadata.size ∨ other.metadata.size = object.metadata.size ∧
    urls.asStr object.inputHandle.url ≤ urls.asStr other.inputHandle.url

theorem representativeIndex_ok {objects : List (InputObject U σ μ)} (h : representativeIndex urls objects = some i) :
    ∃ object, objects[i]? = some object ∧ Represents urls objects object := by
  obtain ⟨⟨object, j⟩, hmax, rfl⟩ := Option.map_eq_some_iff.mp h
  obtain ⟨hmem, hbest⟩ := maxBy_ok hmax
  refine ⟨object, List.mem_zipIdx_iff_getElem?.mp hmem, fun other hother => ?_⟩
  obtain ⟨k, hk⟩ := List.mem_iff_getElem?.mp hother
  exact compareObjects_isLE (hbest (other, k) (List.mem_zipIdx_iff_getElem?.mpr hk))

-- ---------------------------------------------------------------------------
-- Preparing a group
-- ---------------------------------------------------------------------------

theorem registerInputStore_ok [DecidableEq U] {objects : List (InputObject U σ μ)} {env env' : RuntimeEnv U σ}
    (h : registerInputStore urls paths env objects = .ok (url, files, env')) :
    ∃ first ∈ objects, (∀ object ∈ objects, object.inputHandle.storeUrl = first.inputHandle.storeUrl) ∧
      url = objectStoreUrl urls first.inputHandle.storeUrl ∧ files = objects.map (·.file urls paths) ∧
      env' = env.registerObjectStore url ⟨first.inputHandle.objectStore, first.inputHandle.storeUrl⟩ := by
  cases objects with
  | nil => cases h
  | cons first objects =>
    unfold registerInputStore at h
    dsimp only at h
    split at h
    · cases h
    · rename_i hsame
      obtain ⟨rfl, hrest⟩ := Prod.mk.inj (Except.ok.inj h)
      obtain ⟨rfl, rfl⟩ := Prod.mk.inj hrest
      refine ⟨first, List.mem_cons_self, fun object hobject => ?_, rfl, rfl, rfl⟩
      by_contra hother
      exact hsame (List.any_eq_true.mpr ⟨object, hobject, decide_eq_true hother⟩)

theorem index_lt [DecidableEq U] {objects : List (InputObject U σ μ)} {env env' : RuntimeEnv U σ}
    (hindex : representativeIndex urls objects = some index)
    (h : registerInputStore urls paths env objects = .ok (url, files, env')) : index < files.length := by
  obtain ⟨_, hobject, -⟩ := representativeIndex_ok hindex
  obtain ⟨-, -, -, -, rfl, -⟩ := registerInputStore_ok h
  rw [List.length_map]
  exact (List.getElem?_eq_some_iff.mp hobject).1

def FileInputGroup.tryNew [DecidableEq U] (urls : ViewUrls U) (paths : ViewPaths) (env : RuntimeEnv U σ)
    (objects : List (InputObject U σ μ)) (variant : ν) : Except GroupError (RuntimeEnv U σ × FileInputGroup U μ ν) :=
  match hindex : ExactFiles.representativeIndex urls objects with
  | none => .error .emptyGroup
  | some index =>
    match hregistered : registerInputStore urls paths env objects with
    | .error e => .error e
    | .ok (url, files, env) => .ok (env, ⟨url, files, index, variant, index_lt hindex hregistered⟩)

structure GroupOf (urls : ViewUrls U) (paths : ViewPaths) (objects : List (InputObject U σ μ)) (root : U)
    (group : FileInputGroup U μ ν) : Prop where
  rooted : ∀ object ∈ objects, object.inputHandle.storeUrl = root
  url : group.objectStoreUrl = objectStoreUrl urls root
  files : group.files = objects.map (·.file urls paths)
  representative : representativeIndex urls objects = some group.representativeIndex

theorem FileInputGroup.tryNew_ok [DecidableEq U] {objects : List (InputObject U σ μ)} {env env' : RuntimeEnv U σ}
    {variant : ν} {group : FileInputGroup U μ ν}
    (h : FileInputGroup.tryNew urls paths env objects variant = .ok (env', group)) :
    ∃ first ∈ objects, GroupOf urls paths objects first.inputHandle.storeUrl group ∧
      env' = env.registerObjectStore group.objectStoreUrl
        ⟨first.inputHandle.objectStore, first.inputHandle.storeUrl⟩ := by
  unfold FileInputGroup.tryNew at h
  split at h
  · cases h
  · rename_i index hindex
    split at h
    · cases h
    · rename_i url files env'' hregistered
      obtain ⟨rfl, rfl⟩ := Prod.mk.inj (Except.ok.inj h)
      obtain ⟨first, hfirst, hrooted, hurl, hfiles, henv⟩ := registerInputStore_ok hregistered
      exact ⟨first, hfirst, ⟨hrooted, hurl, hfiles, hindex⟩, henv⟩

-- ---------------------------------------------------------------------------
-- Sessions
-- ---------------------------------------------------------------------------

theorem objectStoreUrl_inj (hurls : urls.Lawful) {root root' : U}
    (h : objectStoreUrl urls root = objectStoreUrl urls root') : root = root' := by
  have htext := congrArg decodeText (List.append_cancel_left h)
  rw [asBytes, asBytes, decodeText_encode, decodeText_encode, String.ofList_toList, String.ofList_toList] at htext
  have hparsed := hurls.ownText root
  rw [Except.ok.inj htext, hurls.ownText root'] at hparsed
  exact (Except.ok.inj hparsed).symm

theorem registerObjectStore_self (env : RuntimeEnv U σ) (url : List Char) (view : StoreView U σ) :
    (env.registerObjectStore url view).objectStores url = some view := if_pos rfl

theorem registerObjectStore_other (env : RuntimeEnv U σ) (view : StoreView U σ) (h : other ≠ url) :
    (env.registerObjectStore url view).objectStores other = env.objectStores other := if_neg h

/-- A handle as a storage session makes it: at the root of its URL, with the one
store that is kept for the root. `stores` are these. -/
structure InputHandle.Resolved (urls : ViewUrls U) (stores : U → σ) (handle : InputHandle U σ) : Prop where
  rooted : handle.storeUrl = urls.storeUrl handle.url
  kept : handle.objectStore = stores handle.storeUrl
  named : handle.objectPath.text ≠ []

/-- What the engine has registered, and the groups prepared so far. -/
structure Session (U σ μ ν : Type) where
  env : RuntimeEnv U σ
  prepared : List (List (InputObject U σ μ) × FileInputGroup U μ ν)

def Session.new : Session U σ μ ν := ⟨.new, []⟩

variable {stores : U → σ} {s s' : Session U σ μ ν}

structure Session.Sound (urls : ViewUrls U) (paths : ViewPaths) (stores : U → σ) (s : Session U σ μ ν) : Prop where
  registered : ∀ root view, s.env.objectStores (objectStoreUrl urls root) = some view → view = ⟨stores root, root⟩
  prepared : ∀ entry ∈ s.prepared, (∀ object ∈ entry.1, object.inputHandle.Resolved urls stores) ∧
    ∃ root, GroupOf urls paths entry.1 root entry.2 ∧ s.env.objectStores (objectStoreUrl urls root) ≠ none

theorem Session.sound_new : (Session.new : Session U σ μ ν).Sound urls paths stores where
  registered _ _ hview := by cases hview
  prepared := List.forall_mem_nil _

section
variable [DecidableEq U]

inductive Session.Step (urls : ViewUrls U) (paths : ViewPaths) (stores : U → σ) :
    Session U σ μ ν → Session U σ μ ν → Prop
  | prepare {s : Session U σ μ ν} {env : RuntimeEnv U σ} {objects : List (InputObject U σ μ)} {variant : ν}
      {group : FileInputGroup U μ ν}
      (hresolved : ∀ object ∈ objects, object.inputHandle.Resolved urls stores)
      (h : FileInputGroup.tryNew urls paths s.env objects variant = .ok (env, group)) :
      Step urls paths stores s ⟨env, s.prepared ++ [(objects, group)]⟩

def Session.Reachable (urls : ViewUrls U) (paths : ViewPaths) (stores : U → σ) (s : Session U σ μ ν) : Prop :=
  Relation.ReflTransGen (Session.Step urls paths stores) .new s

theorem Session.Sound.step (hurls : urls.Lawful) (hs : s.Sound urls paths stores)
    (h : Session.Step urls paths stores s s') : s'.Sound urls paths stores := by
  cases h with
  | @prepare env objects _ group hresolved h =>
    obtain ⟨first, hfirst, hgroup, rfl⟩ := FileInputGroup.tryNew_ok h
    have hkept := (hresolved first hfirst).kept
    constructor
    · intro root view hview
      by_cases hroot : objectStoreUrl urls root = group.objectStoreUrl
      · obtain rfl := objectStoreUrl_inj hurls (hroot.trans hgroup.url)
        rw [hroot, registerObjectStore_self] at hview
        rw [← Option.some.inj hview, hkept]
      · rw [registerObjectStore_other _ _ hroot] at hview
        exact hs.registered root view hview
    · intro entry hentry
      rcases List.mem_append.mp hentry with hentry | hentry
      · obtain ⟨hobjects, root, hroot, hview⟩ := hs.prepared entry hentry
        refine ⟨hobjects, root, hroot, ?_⟩
        by_cases hsame : objectStoreUrl urls root = group.objectStoreUrl
        · rw [hsame, registerObjectStore_self]
          exact Option.some_ne_none _
        · rwa [registerObjectStore_other _ _ hsame]
      · obtain rfl := List.mem_singleton.mp hentry
        refine ⟨hresolved, _, hgroup, ?_⟩
        rw [← hgroup.url, registerObjectStore_self]
        exact Option.some_ne_none _

theorem reachable_sound (hurls : urls.Lawful) (h : s.Reachable urls paths stores) : s.Sound urls paths stores := by
  induction h with
  | refl => exact Session.sound_new
  | tail _ hstep ih => exact ih.step hurls hstep

theorem view_reads (hurls : urls.Lawful) (hpaths : paths.Lawful) (reads : StoreReads σ μ ο ε)
    {object : InputObject U σ μ} (h : object.inputHandle.Resolved urls stores) :
    (∀ options, StoreView.getOpts urls paths reads ⟨stores object.inputHandle.storeUrl, object.inputHandle.storeUrl⟩
        (object.file urls paths).objectMeta.location options =
      ((reads.getOpts object.inputHandle.objectStore object.inputHandle.objectPath options).mapError
        (.canonical object.inputHandle.url)).map
          (·.seenAs object.inputHandle.url (object.file urls paths).objectMeta.location)) ∧
    ∀ ranges, StoreView.getRanges urls paths reads ⟨stores object.inputHandle.storeUrl, object.inputHandle.storeUrl⟩
        (object.file urls paths).objectMeta.location ranges =
      (reads.getRanges object.inputHandle.objectStore object.inputHandle.objectPath ranges).mapError
        (.canonical object.inputHandle.url) := by
  have hdecoded : decodePath urls paths object.inputHandle.storeUrl (object.file urls paths).objectMeta.location =
      .ok (object.inputHandle.url, object.inputHandle.objectPath) := by
    have hdecode := decodePath_scopedPath hurls hpaths object.inputHandle.storeUrl object.inputHandle.url h.named
    rwa [if_neg (by simpa using h.rooted.symm)] at hdecode
  refine ⟨fun options => ?_, fun ranges => ?_⟩
  · unfold StoreView.getOpts
    rw [hdecoded, ← h.kept]
    simp only [Except.mapError, bind, Except.bind]
    cases reads.getOpts object.inputHandle.objectStore object.inputHandle.objectPath options <;> rfl
  · unfold StoreView.getRanges
    rw [hdecoded, ← h.kept]
    rfl

/-- Whatever is prepared in a session and in which order, the engine reads every
file of every group, through the store registered under the group's name, as its
own object from the object's own store, and each error names the object's URL.
A group has its objects' files in their order, and is represented by its largest
object, of several by the one with the smallest URL. -/
theorem prepared_groups_read (hurls : urls.Lawful) (hpaths : paths.Lawful) (reads : StoreReads σ μ ο ε)
    (h : s.Reachable urls paths stores) {objects : List (InputObject U σ μ)} {group : FileInputGroup U μ ν}
    (hprepared : (objects, group) ∈ s.prepared) :
    group.files = objects.map (·.file urls paths) ∧
    (∃ representative, objects[group.representativeIndex]? = some representative ∧
      group.representative = representative.file urls paths ∧ Represents urls objects representative) ∧
    ∃ view, s.env.objectStores group.objectStoreUrl = some view ∧ ∀ object ∈ objects,
      (∀ options, view.getOpts urls paths reads (object.file urls paths).objectMeta.location options =
        ((reads.getOpts object.inputHandle.objectStore object.inputHandle.objectPath options).mapError
          (.canonical object.inputHandle.url)).map
            (·.seenAs object.inputHandle.url (object.file urls paths).objectMeta.location)) ∧
      ∀ ranges, view.getRanges urls paths reads (object.file urls paths).objectMeta.location ranges =
        (reads.getRanges object.inputHandle.objectStore object.inputHandle.objectPath ranges).mapError
          (.canonical object.inputHandle.url) := by
  have hsound := reachable_sound hurls h
  obtain ⟨hresolved, root, hgroup, hview⟩ := hsound.prepared _ hprepared
  refine ⟨hgroup.files, ?_, ?_⟩
  · obtain ⟨representative, hindex, hlargest⟩ := representativeIndex_ok hgroup.representative
    refine ⟨representative, hindex, ?_, hlargest⟩
    have hfile : group.files[group.representativeIndex]? = some (representative.file urls paths) := by
      rw [hgroup.files, List.getElem?_map, hindex]
      rfl
    exact Option.some.inj ((List.getElem?_eq_getElem group.representative_lt).symm.trans hfile)
  · obtain ⟨view, hview⟩ := Option.ne_none_iff_exists'.mp hview
    obtain rfl := hsound.registered root view hview
    refine ⟨_, hgroup.url ▸ hview, fun object hobject => ?_⟩
    obtain rfl := hgroup.rooted object hobject
    exact view_reads hurls hpaths reads (hresolved object hobject)

end

def sampleReads : StoreReads SampleUrl Unit Unit Unit where
  getOpts store path _ :=
    .ok ⟨[.ok [if store = .bucket then 1 else 2]], ⟨path, 1, ()⟩, (0, 1), []⟩
  getRanges _ _ _ := .error ()
  display _ := "unavailable"

theorem onePath_valid : Storage.IsObjectPath ['o', 'n', 'e'] := by decide

def onePath : ObjectPath := ⟨['o', 'n', 'e'], onePath_valid⟩

def sampleObject (url : SampleUrl) : InputObject SampleUrl SampleUrl Unit :=
  ⟨⟨url, sampleUrls.storeUrl url, onePath, sampleUrls.storeUrl url⟩, ⟨onePath, 1, ()⟩⟩

theorem sampleObject_resolved (url : SampleUrl) :
    ∀ object ∈ [sampleObject url], object.inputHandle.Resolved sampleUrls id :=
  List.forall_mem_singleton.mpr ⟨rfl, rfl, List.cons_ne_nil _ _⟩

theorem prepared_groups_read_buckets : ∃ (s : Session SampleUrl SampleUrl Unit Unit) (group : _) (view : _),
    ([sampleObject .version], group) ∈ s.prepared ∧ s.env.objectStores group.objectStoreUrl = some view ∧
      (view.getOpts sampleUrls plainPaths sampleReads
        (InputObject.file sampleUrls plainPaths (sampleObject .version)).objectMeta.location ()).map
          GetResult.payload = .ok [.ok [1]] := by
  have h : Session.Reachable sampleUrls plainPaths id (Session.new : Session SampleUrl SampleUrl Unit Unit) := .refl
  have h := h.tail (.prepare (sampleObject_resolved .version)
    (show FileInputGroup.tryNew sampleUrls plainPaths _ _ () = .ok (_, _) from rfl))
  have h := h.tail (.prepare (sampleObject_resolved .otherObject)
    (show FileInputGroup.tryNew sampleUrls plainPaths _ _ () = .ok (_, _) from rfl))
  obtain ⟨-, -, view, hview, hreads⟩ := prepared_groups_read sampleUrls_lawful plainPaths_lawful sampleReads h
    (List.mem_cons_self ..)
  refine ⟨_, _, view, List.mem_cons_self .., hview, ?_⟩
  rw [(hreads _ (List.mem_singleton_self _)).1 ()]
  rfl

end SilkChiffon.ExactFiles
