import Mathlib.Data.List.Flatten
import SilkChiffon.Lib.Emit
import SilkChiffon.Registration.Registries

/-!
# Detecting formats

A registry detects the format of an object among its definitions, and the
transform bindings of a command do it among themselves, each over indexes of
their own. Where all detecting formats can provide input, both try the same
formats in the same order.
-/

namespace SilkChiffon.Registration

variable {μ ν ε : Type}

structure InputObject (μ : Type) where
  url : String
  /-- The extension of its object path. -/
  extension : Option String
  metadata : μ

inductive InputDetection (ν ε : Type)
  | mismatch
  | matched (variant : ν)
  | malformed (source : ε)

abbrev InputDetector (μ ν ε : Type) := InputObject μ → Except ε (InputDetection ν ε)

inductive FormatOperation
  | detection | inspection | inputProviderCreation | sinkBinding
  deriving DecidableEq, Repr

inductive FormatOperationError (ε : Type)
  | unsupported (format : String) (operation : FormatOperation)
  | failed (format : String) (operation : FormatOperation) (source : ε)
  | malformedInput (format input : String) (source : ε)
  deriving DecidableEq, Repr

/-- Input providers are created by the transform definition. -/
structure DetectableFormat (μ ν ε : Type) extends FormatDefinition where
  displayName : String
  detector : Option (InputDetector μ ν ε)
  hasInputProvider : Bool
  hasDetector_eq : hasDetector = detector.isSome
  transform_of_inputProvider : hasInputProvider = true → transform.isSome = true

structure DetectedFormat (ν : Type) where
  format : String
  displayName : String
  variant : ν

structure TransformBinding (μ ν ε : Type) where
  format : String
  detector : Option (InputDetector μ ν ε)
  hasInputProvider : Bool

/-- A detection emits the name of each format whose detector it runs. -/
abbrev Detection (ε β : Type) := Emit String (FormatOperationError ε) β

def runDetector (format : String) (detector : Option (InputDetector μ ν ε)) (object : InputObject μ) :
    Detection ε (Option ν) :=
  match detector with
  | none => Emit.throw (.unsupported format .detection)
  | some detector => do
    Emit.emit format
    match ← Emit.lift ((detector object).mapError (.failed format .detection)) with
    | .mismatch => pure none
    | .matched variant => pure (some variant)
    | .malformed source => Emit.throw (.malformedInput format object.url source)

def DetectableFormat.detect (format : DetectableFormat μ ν ε) (object : InputObject μ) :
    Detection ε (Option (DetectedFormat ν)) :=
  (Option.map fun variant => ⟨format.name, format.displayName, variant⟩) <$>
    runDetector format.name format.detector object

def TransformBinding.detect (binding : TransformBinding μ ν ε) (object : InputObject μ) : Detection ε (Option ν) :=
  runDetector binding.format binding.detector object

-- ---------------------------------------------------------------------------
-- The two detections
-- ---------------------------------------------------------------------------

def preferred (extensions : List (String × Nat)) (object : InputObject μ) : Option Nat :=
  object.extension.bind fun extension => KeyClaims.latest extensions (toAsciiLowercase extension)

/-- The loop over the detection order, past the one that was tried already. -/
def detectInOrder (detect : Nat → Detection ε (Option β)) (preferred : Option Nat) :
    List Nat → Detection ε (Option β)
  | [] => pure none
  | index :: indices =>
    if some index = preferred then detectInOrder detect preferred indices
    else do
      match ← detect index with
      | some detected => pure (some detected)
      | none => detectInOrder detect preferred indices

/-- The extension's owner first, if it is one to try. -/
def detectPreferredFirst (detect : Nat → Detection ε (Option β)) (tries : Nat → Bool) (preferred : Option Nat)
    (detectionOrder : List Nat) : Detection ε (Option β) :=
  match preferred with
  | some index =>
    if tries index then do
      match ← detect index with
      | some detected => pure (some detected)
      | none => detectInOrder detect preferred detectionOrder
    else detectInOrder detect preferred detectionOrder
  | none => detectInOrder detect preferred detectionOrder

structure DetectingRegistry (μ ν ε : Type) where
  formats : List (DetectableFormat μ ν ε)
  registry : FormatRegistry
  built : FormatRegistry.fromFormats (formats.map (·.toFormatDefinition)) = .ok registry

namespace DetectingRegistry

/-- An index is that of a format. -/
def detectAt (r : DetectingRegistry μ ν ε) (object : InputObject μ) (index : Nat) :
    Detection ε (Option (DetectedFormat ν)) :=
  match r.formats[index]? with
  | some format => format.detect object
  | none => pure none

def detect (r : DetectingRegistry μ ν ε) (object : InputObject μ) : Detection ε (Option (DetectedFormat ν)) :=
  detectPreferredFirst (r.detectAt object) (fun index => r.formats[index]?.any (·.detector.isSome))
    (preferred r.registry.extensions object) r.registry.detectionOrder

end DetectingRegistry

structure TransformBindings (μ ν ε : Type) where
  bindings : List (TransformBinding μ ν ε)
  names : List (String × Nat)
  extensions : List (String × Nat)
  detectionOrder : List Nat

namespace TransformBindings

def detectAt (b : TransformBindings μ ν ε) (object : InputObject μ) (index : Nat) :
    Detection ε (Option (TransformBinding μ ν ε × ν)) :=
  match b.bindings[index]? with
  | some binding => (Option.map fun variant => (binding, variant)) <$> binding.detect object
  | none => pure none

def tries (b : TransformBindings μ ν ε) (index : Nat) : Bool :=
  b.bindings[index]?.any fun binding => binding.detector.isSome && binding.hasInputProvider

def detect (b : TransformBindings μ ν ε) (object : InputObject μ) :
    Detection ε (Option (TransformBinding μ ν ε × ν)) :=
  detectPreferredFirst (b.detectAt object) b.tries (preferred b.extensions object) b.detectionOrder

end TransformBindings

def beforeInOrder (a b : Nat × Nat) : Bool := a.1 < b.1 || (a.1 = b.1 && a.2 ≤ b.2)

/-- The formats that a command transforms with, each with an index of its own;
`bind` is the parser of a format's arguments. -/
def DetectingRegistry.bindTransform (r : DetectingRegistry μ ν ε) (bind : FormatDefinition → Except κ Unit) :
    Except κ (TransformBindings μ ν ε) := do
  let bound := r.formats.filter (·.transform.isSome)
  let bindings ← bound.mapM fun format =>
    (bind format.toFormatDefinition).map fun _ => (⟨format.name, format.detector, format.hasInputProvider⟩ : TransformBinding μ ν ε)
  let priorities := (bound.zipIdx.map fun (format, i) => (format.detectionPriority, i)).mergeSort beforeInOrder
  return {
    bindings
    names := bound.zipIdx.flatMap fun (format, i) => format.names.map (·, i)
    extensions := bound.zipIdx.flatMap fun (format, i) =>
      (format.extensions.map FormatDefinition.canonicalExtension).map (·, i)
    detectionOrder := (priorities.map (·.2)).filter fun index =>
      bindings[index]?.any fun binding => binding.detector.isSome && binding.hasInputProvider }

-- ---------------------------------------------------------------------------
-- One order
-- ---------------------------------------------------------------------------

def firstOf (detect : Nat → Detection ε (Option β)) : List Nat → Detection ε (Option β)
  | [] => pure none
  | index :: indices => do
    match ← detect index with
    | some detected => pure (some detected)
    | none => firstOf detect indices

def tryOrder (tries : Nat → Bool) (preferred : Option Nat) (detectionOrder : List Nat) : List Nat :=
  (preferred.filter tries).toList ++ detectionOrder.filter fun index => decide (some index ≠ preferred)

theorem detectInOrder_eq (detect : Nat → Detection ε (Option β)) (preferred : Option Nat) (order : List Nat) :
    detectInOrder detect preferred order = firstOf detect (order.filter fun index => decide (some index ≠ preferred)) := by
  induction order with
  | nil => rfl
  | cons index order ih =>
    rw [detectInOrder]
    split
    · rename_i heq
      rw [List.filter_cons_of_neg (by simpa using heq), ih]
    · rename_i hne
      rw [List.filter_cons_of_pos (by simpa using hne), firstOf, ih]

/-- Both detections go along one list. -/
theorem detectPreferredFirst_eq (detect : Nat → Detection ε (Option β)) (tries : Nat → Bool)
    (preferred : Option Nat) (order : List Nat) :
    detectPreferredFirst detect tries preferred order = firstOf detect (tryOrder tries preferred order) := by
  unfold detectPreferredFirst tryOrder
  cases preferred with
  | none => exact detectInOrder_eq ..
  | some index =>
    dsimp only
    split
    · rename_i htries
      rw [Option.filter_some, if_pos htries, detectInOrder_eq]
      rfl
    · rename_i htries
      rw [Option.filter_some, if_neg htries, detectInOrder_eq]
      rfl

theorem map_firstOf (f : β → γ) (detect : Nat → Detection ε (Option β)) (order : List Nat) :
    Option.map f <$> firstOf detect order = firstOf (fun index => Option.map f <$> detect index) order := by
  induction order with
  | nil => exact map_pure (Option.map f) none
  | cons index order ih =>
    rw [firstOf, firstOf, map_bind, bind_map_left]
    refine congrArg _ (funext fun detected => ?_)
    cases detected with
    | none => exact ih
    | some detected => exact map_pure (Option.map f) (some detected)

theorem firstOf_map (detect : Nat → Detection ε (Option β)) (rename : Nat → Nat) (order : List Nat) :
    firstOf detect (order.map rename) = firstOf (fun index => detect (rename index)) order := by
  induction order with
  | nil => rfl
  | cons index order ih => rw [List.map_cons, firstOf, firstOf, ih]

theorem firstOf_congr {detect detect' : Nat → Detection ε (Option β)} {order : List Nat}
    (h : ∀ index ∈ order, detect index = detect' index) : firstOf detect order = firstOf detect' order := by
  induction order with
  | nil => rfl
  | cons index order ih =>
    rw [firstOf, firstOf, h index List.mem_cons_self, ih fun i hi => h i (List.mem_cons_of_mem _ hi)]

/-- The detectors that run are the first ones of the order, and all of them if
none recognizes the object. -/
theorem firstOf_emitted (detect : Nat → Detection ε (Option β)) (name : Nat → String) {order : List Nat}
    (h : ∀ index ∈ order, (detect index).emitted = [name index]) :
    (firstOf detect order).emitted <+: order.map name ∧
      ((firstOf detect order).result = .ok none → (firstOf detect order).emitted = order.map name) := by
  induction order with
  | nil => exact ⟨List.prefix_refl _, fun _ => rfl⟩
  | cons index order ih =>
    obtain ⟨hstart, hall⟩ := ih fun i hi => h i (List.mem_cons_of_mem _ hi)
    have hfirst := h index List.mem_cons_self
    have hrun : firstOf detect (index :: order) = Emit.bind (detect index) fun detected =>
        match detected with
        | some detected => pure (some detected)
        | none => firstOf detect order := rfl
    rw [List.map_cons, hrun, Emit.bind]
    cases hresult : (detect index).result with
    | error e =>
      refine ⟨?_, fun h => nomatch h⟩
      show (detect index).emitted <+: _
      rw [hfirst]
      exact List.prefix_append [name index] _
    | ok detected =>
      cases detected with
      | some detected =>
        refine ⟨?_, fun h => nomatch h⟩
        show (detect index).emitted ++ [] <+: _
        rw [hfirst]
        exact List.prefix_append [name index] _
      | none =>
        show (detect index).emitted ++ (firstOf detect order).emitted <+: _ ∧
          ((firstOf detect order).result = .ok none → (detect index).emitted ++ (firstOf detect order).emitted = _)
        rw [hfirst]
        exact ⟨(List.prefix_cons_inj (name index)).mpr hstart, fun h => congrArg _ (hall h)⟩

-- ---------------------------------------------------------------------------
-- Extensions
-- ---------------------------------------------------------------------------

def FormatDefinition.canonicalExtensions (format : FormatDefinition) : List String :=
  format.extensions.map canonicalExtension

def FormatDefinition.owns (format : FormatDefinition) (object : InputObject μ) : Prop :=
  ∃ extension, object.extension = some extension ∧ toAsciiLowercase extension ∈ format.canonicalExtensions

def extensionTable (formats : List FormatDefinition) : List (String × Nat) :=
  formats.zipIdx.flatMap fun (format, i) => format.canonicalExtensions.map (·, i)

theorem extensionTable_keys (formats : List FormatDefinition) :
    (extensionTable formats).map (·.1) = formats.flatMap (·.canonicalExtensions) := by
  conv_rhs => rw [← List.zipIdx_map_fst 0 formats, List.flatMap_map]
  rw [extensionTable, List.map_flatMap]
  simp [Function.comp_def]

theorem preferred_eq_some {formats : List FormatDefinition} {object : InputObject μ}
    (hnodup : (formats.flatMap (·.canonicalExtensions)).Nodup) :
    preferred (extensionTable formats) object = some index ↔
      ∃ format, formats[index]? = some format ∧ format.owns object := by
  have hkeys : ((extensionTable formats).map (·.1)).Nodup := by rwa [extensionTable_keys]
  have hmem : ∀ key, (key, index) ∈ extensionTable formats ↔
      ∃ format, formats[index]? = some format ∧ key ∈ format.canonicalExtensions := by
    intro key
    simp only [extensionTable, List.mem_flatMap, List.mem_map, Prod.mk.injEq, Prod.exists]
    constructor
    · rintro ⟨format, i, hformat, key', hkey, rfl, rfl⟩
      exact ⟨format, List.mk_mem_zipIdx_iff_getElem?.mp hformat, hkey⟩
    · rintro ⟨format, hformat, hkey⟩
      exact ⟨format, index, List.mk_mem_zipIdx_iff_getElem?.mpr hformat, key, hkey, rfl, rfl⟩
  simp only [preferred, Option.bind_eq_some_iff, KeyClaims.latest_eq_some hkeys, hmem, FormatDefinition.owns]
  constructor
  · rintro ⟨extension, hextension, format, hformat, hkey⟩
    exact ⟨format, hformat, extension, hextension, hkey⟩
  · rintro ⟨format, hformat, extension, hextension, hkey⟩
    exact ⟨extension, hextension, format, hformat, hkey⟩

theorem fromFormats_ok (h : FormatRegistry.fromFormats formats = .ok registry) :
    registry.extensions = extensionTable formats ∧ registry.detectionOrder = detectionOrder formats ∧
      (formats.flatMap (·.names)).Nodup ∧ (formats.flatMap (·.canonicalExtensions)).Nodup := by
  unfold FormatRegistry.fromFormats at h
  dsimp only at h
  split at h
  · cases h
  · rename_i hnames
    split at h
    · cases h
    · rename_i hextensions
      split at h
      · cases h
      · obtain rfl := Except.ok.inj h
        refine ⟨rfl, rfl, ?_, ?_⟩
        · have hkeys := KeyClaims.sorted_eq_none.mp hnames
          simpa [List.map_flatMap, Function.comp_def] using hkeys
        · have hkeys := KeyClaims.sorted_eq_none.mp hextensions
          simpa [List.map_flatMap, Function.comp_def, FormatDefinition.canonicalExtensions] using hkeys

-- ---------------------------------------------------------------------------
-- Indexes of bindings
-- ---------------------------------------------------------------------------

section Indexes

variable {formats : List (DetectableFormat μ ν ε)}

def bound (formats : List (DetectableFormat μ ν ε)) : List (DetectableFormat μ ν ε) :=
  formats.filter (·.transform.isSome)

def boundWithIndex (formats : List (DetectableFormat μ ν ε)) : List (DetectableFormat μ ν ε × Nat) :=
  formats.zipIdx.filter (·.1.transform.isSome)

def registrationIndex (formats : List (DetectableFormat μ ν ε)) (index : Nat) : Nat :=
  ((boundWithIndex formats)[index]?.map (·.2)).getD 0

theorem map_boundWithIndex (formats : List (DetectableFormat μ ν ε)) :
    (boundWithIndex formats).map (·.1) = bound formats := by
  conv_rhs => rw [bound, ← List.zipIdx_map_fst 0 formats, List.filter_map]
  rfl

theorem bound_getElem? (h : (bound formats)[index]? = some format) :
    (boundWithIndex formats)[index]? = some (format, registrationIndex formats index) ∧
      formats[registrationIndex formats index]? = some format ∧ format.transform.isSome := by
  rw [← map_boundWithIndex, List.getElem?_map, Option.map_eq_some_iff] at h
  obtain ⟨⟨format', i⟩, hentry, rfl⟩ := h
  have hindex : registrationIndex formats index = i := by rw [registrationIndex, hentry]; rfl
  obtain ⟨hmem, htransform⟩ := List.mem_filter.mp (List.mem_of_getElem? hentry)
  rw [hindex]
  exact ⟨hentry, List.mk_mem_zipIdx_iff_getElem?.mp hmem, htransform⟩

theorem exists_bound (h : formats[i]? = some format) (htransform : format.transform.isSome) :
    ∃ index, (bound formats)[index]? = some format ∧ registrationIndex formats index = i := by
  have hmem : (format, i) ∈ boundWithIndex formats :=
    List.mem_filter.mpr ⟨List.mk_mem_zipIdx_iff_getElem?.mpr h, htransform⟩
  obtain ⟨index, hindex⟩ := List.mem_iff_getElem?.mp hmem
  refine ⟨index, ?_, by rw [registrationIndex, hindex]; rfl⟩
  rw [← map_boundWithIndex, List.getElem?_map, hindex]
  rfl

theorem registrationIndex_lt (h : (bound formats)[index]? = some format) (h' : (bound formats)[index']? = some format')
    (hlt : index < index') : registrationIndex formats index < registrationIndex formats index' := by
  have hsorted : (boundWithIndex formats).Pairwise fun a b => a.2 < b.2 := by
    refine List.Pairwise.filter _ ?_
    have hindexes : (formats.zipIdx.map (·.2)).Pairwise (· < ·) := by
      rw [List.zipIdx_map_snd]
      exact List.pairwise_lt_range'
    exact List.pairwise_map.mp hindexes
  obtain ⟨hindex, heq⟩ := List.getElem?_eq_some_iff.mp (bound_getElem? h).1
  obtain ⟨hindex', heq'⟩ := List.getElem?_eq_some_iff.mp (bound_getElem? h').1
  have hless := List.pairwise_iff_getElem.mp hsorted index index' hindex hindex' hlt
  rwa [heq, heq'] at hless

theorem registrationIndex_inj (h : (bound formats)[index]? = some format)
    (h' : (bound formats)[index']? = some format')
    (heq : registrationIndex formats index = registrationIndex formats index') : index = index' := by
  rcases Nat.lt_trichotomy index index' with hlt | hsame | hlt
  · exact absurd heq (Nat.ne_of_lt (registrationIndex_lt h h' hlt))
  · exact hsame
  · exact absurd heq.symm (Nat.ne_of_lt (registrationIndex_lt h' h hlt))

end Indexes

-- ---------------------------------------------------------------------------
-- Priorities
-- ---------------------------------------------------------------------------

theorem beforeInOrder_iff {a b : Nat × Nat} : beforeInOrder a b = true ↔ a.1 < b.1 ∨ a.1 = b.1 ∧ a.2 ≤ b.2 := by
  simp [beforeInOrder]

def Earlier (priority : Nat → Nat) (i i' : Nat) : Prop := beforeInOrder (priority i, i) (priority i', i') = true

theorem Earlier.antisymm {priority : Nat → Nat} (h : Earlier priority i i') (h' : Earlier priority i' i) : i = i' := by
  simp only [Earlier, beforeInOrder_iff] at h h'
  omega

theorem mergeSort_earlier {keys : List (Nat × Nat)} {priority : Nat → Nat} (h : ∀ key ∈ keys, key.1 = priority key.2) :
    ((keys.mergeSort beforeInOrder).map (·.2)).Pairwise (Earlier priority) := by
  have hsorted : (keys.mergeSort beforeInOrder).Pairwise fun a b => beforeInOrder a b = true := by
    refine List.pairwise_mergeSort (fun a b c hab hbc => ?_) (fun a b => ?_) keys
    · rw [beforeInOrder_iff] at hab hbc ⊢
      omega
    · rw [Bool.or_eq_true, beforeInOrder_iff, beforeInOrder_iff]
      omega
  refine List.pairwise_map.mpr (hsorted.imp_of_mem fun {a b} ha hb hab => ?_)
  rw [Earlier, ← h a (List.mem_mergeSort.mp ha), ← h b (List.mem_mergeSort.mp hb)]
  exact hab

theorem mergeSort_nodup {keys : List (Nat × Nat)} (h : (keys.map (·.2)).Nodup) :
    ((keys.mergeSort beforeInOrder).map (·.2)).Nodup :=
  ((List.mergeSort_perm keys beforeInOrder).map _).nodup_iff.mpr h

def priorityOf (formats : List FormatDefinition) (i : Nat) : Nat := (formats[i]?.map (·.detectionPriority)).getD 0

structure IsDetectionOrder (formats : List FormatDefinition) (order : List Nat) : Prop where
  nodup : order.Nodup
  mem_iff : ∀ i, i ∈ order ↔ ∃ format, formats[i]? = some format ∧ format.hasDetector = true
  earlier : order.Pairwise (Earlier (priorityOf formats))

theorem IsDetectionOrder.unique (h : IsDetectionOrder formats order) (h' : IsDetectionOrder formats order') :
    order = order' := by
  refine List.Perm.eq_of_pairwise (fun i i' _ _ hi hi' => hi.antisymm hi') h.earlier h'.earlier ?_
  rw [List.perm_ext_iff_of_nodup h.nodup h'.nodup]
  exact fun i => (h.mem_iff i).trans (h'.mem_iff i).symm

theorem nodup_zipIdx_snd (l : List β) : (l.zipIdx.map (·.2)).Nodup := by
  rw [List.zipIdx_map_snd]
  exact List.nodup_range'

theorem detectionOrder_isDetectionOrder (formats : List FormatDefinition) :
    IsDetectionOrder formats (detectionOrder formats) := by
  have horder : detectionOrder formats = (((formats.zipIdx.filter (·.1.hasDetector)).map
      fun entry => (entry.1.detectionPriority, entry.2)).mergeSort beforeInOrder).map (·.2) := by
    have hsort : ((formats.zipIdx.filter (·.1.hasDetector)).map fun entry =>
          (entry.1.detectionPriority, entry.2)).mergeSort beforeInOrder =
        ((formats.zipIdx.filter (·.1.hasDetector)).mergeSort fun a b =>
          beforeInOrder (a.1.detectionPriority, a.2) (b.1.detectionPriority, b.2)).map fun entry =>
            (entry.1.detectionPriority, entry.2) := by
      refine (List.map_mergeSort ?_).symm
      exact fun _ _ _ _ => rfl
    rw [hsort, List.map_map]
    rfl
  have hnodup : (((formats.zipIdx.filter (·.1.hasDetector)).map
      fun entry => (entry.1.detectionPriority, entry.2)).map (·.2)).Nodup := by
    rw [List.map_map]
    exact (nodup_zipIdx_snd formats).sublist (List.filter_sublist.map _)
  rw [horder]
  refine ⟨mergeSort_nodup hnodup, fun i => ?_, mergeSort_earlier fun key hkey => ?_⟩
  · simp only [List.mem_map, List.mem_mergeSort, List.mem_filter]
    constructor
    · rintro ⟨_, ⟨⟨format, i⟩, ⟨hentry, hdetector⟩, rfl⟩, rfl⟩
      exact ⟨format, List.mk_mem_zipIdx_iff_getElem?.mp hentry, hdetector⟩
    · rintro ⟨format, hformat, hdetector⟩
      exact ⟨_, ⟨(format, i), ⟨List.mk_mem_zipIdx_iff_getElem?.mpr hformat, hdetector⟩, rfl⟩, rfl⟩
  · obtain ⟨⟨format, i⟩, hentry, rfl⟩ := List.mem_map.mp hkey
    have hformat := List.mk_mem_zipIdx_iff_getElem?.mp (List.mem_filter.mp hentry).1
    simp [priorityOf, hformat]

section Bindings

variable {formats : List (DetectableFormat μ ν ε)}

def AllProvide (formats : List (DetectableFormat μ ν ε)) : Prop :=
  ∀ format ∈ formats, format.hasDetector = true → format.hasInputProvider = true

def toBinding (format : DetectableFormat μ ν ε) : TransformBinding μ ν ε :=
  ⟨format.name, format.detector, format.hasInputProvider⟩

theorem bindTransform_ok {r : DetectingRegistry μ ν ε} {bind : FormatDefinition → Except κ Unit}
    (h : r.bindTransform bind = .ok bindings) :
    bindings.bindings = (bound r.formats).map toBinding ∧
      bindings.extensions = extensionTable ((bound r.formats).map (·.toFormatDefinition)) ∧
      bindings.detectionOrder = ((((bound r.formats).zipIdx.map fun entry =>
        (entry.1.detectionPriority, entry.2)).mergeSort beforeInOrder).map (·.2)).filter bindings.tries := by
  obtain ⟨bound', hbound, h⟩ := Lists.bind_eq_ok.mp h
  obtain rfl := Except.ok.inj h
  have hmap : bound' = (bound r.formats).map toBinding := by
    have hall := Lists.mapM_eq_ok_iff_forall₂.mp hbound
    rw [← List.forall₂_eq_eq_eq]
    refine List.forall₂_map_right_iff.mpr ?_
    refine (hall.flip).imp fun binding format hbinding => ?_
    obtain ⟨-, -, rfl⟩ := Lists.map_eq_ok.mp hbinding
    rfl
  refine ⟨hmap, ?_, rfl⟩
  rw [extensionTable, List.zipIdx_map, List.flatMap_map]
  rfl

theorem tries_iff {r : DetectingRegistry μ ν ε} {bind : FormatDefinition → Except κ Unit}
    (h : r.bindTransform bind = .ok bindings) : bindings.tries index = true ↔
      ∃ format, (bound r.formats)[index]? = some format ∧ format.detector.isSome ∧ format.hasInputProvider := by
  rw [TransformBindings.tries, (bindTransform_ok h).1, List.getElem?_map, Option.any_eq_true]
  simp only [Option.map_eq_some_iff, Bool.and_eq_true]
  constructor
  · rintro ⟨_, ⟨format, hformat, rfl⟩, htries⟩
    exact ⟨format, hformat, htries⟩
  · rintro ⟨format, hformat, htries⟩
    exact ⟨_, ⟨format, hformat, rfl⟩, htries⟩

theorem mem_bindings_detectionOrder {r : DetectingRegistry μ ν ε} {bind : FormatDefinition → Except κ Unit}
    (h : r.bindTransform bind = .ok bindings) : index ∈ bindings.detectionOrder ↔ bindings.tries index = true := by
  rw [(bindTransform_ok h).2.2, List.mem_filter, and_iff_right_iff_imp]
  intro htries
  obtain ⟨format, hformat, -⟩ := (tries_iff h).mp htries
  simp only [List.mem_map, List.mem_mergeSort]
  exact ⟨_, ⟨(format, index), List.mk_mem_zipIdx_iff_getElem?.mpr hformat, rfl⟩, rfl⟩

theorem getElem?_toFormatDefinition {formats : List (DetectableFormat μ ν ε)} {i : Nat}
    {format : DetectableFormat μ ν ε} (h : formats[i]? = some format) :
    (formats.map (·.toFormatDefinition))[i]? = some format.toFormatDefinition := by
  rw [List.getElem?_map, h]
  rfl

theorem earlier_registrationIndex (hindex : (bound formats)[index]? = some format)
    (hindex' : (bound formats)[index']? = some format')
    (h : Earlier (priorityOf ((bound formats).map (·.toFormatDefinition))) index index') :
    Earlier (priorityOf (formats.map (·.toFormatDefinition))) (registrationIndex formats index)
      (registrationIndex formats index') := by
  have hle : index ≤ index' → registrationIndex formats index ≤ registrationIndex formats index' := by
    intro hle
    rcases Nat.lt_or_eq_of_le hle with hlt | rfl
    · exact Nat.le_of_lt (registrationIndex_lt hindex hindex' hlt)
    · exact Nat.le_refl _
  simp only [Earlier, beforeInOrder_iff, priorityOf, getElem?_toFormatDefinition hindex,
    getElem?_toFormatDefinition hindex', getElem?_toFormatDefinition (bound_getElem? hindex).2.1,
    getElem?_toFormatDefinition (bound_getElem? hindex').2.1, Option.map_some, Option.getD_some] at h ⊢
  omega

theorem map_detectionOrder {r : DetectingRegistry μ ν ε} {bind : FormatDefinition → Except κ Unit}
    (h : r.bindTransform bind = .ok bindings) (hprovide : AllProvide r.formats) :
    bindings.detectionOrder.map (registrationIndex r.formats) =
      detectionOrder (r.formats.map (·.toFormatDefinition)) := by
  have hbound : ∀ index ∈ bindings.detectionOrder, ∃ format, (bound r.formats)[index]? = some format := by
    intro index hindex
    obtain ⟨format, hformat, -⟩ := (tries_iff h).mp ((mem_bindings_detectionOrder h).mp hindex)
    exact ⟨format, hformat⟩
  have hkeys : ∀ key ∈ (bound r.formats).zipIdx.map fun entry => (entry.1.detectionPriority, entry.2),
      key.1 = priorityOf ((bound r.formats).map (·.toFormatDefinition)) key.2 := by
    intro key hkey
    obtain ⟨⟨format, index⟩, hentry, rfl⟩ := List.mem_map.mp hkey
    simp [priorityOf, List.mk_mem_zipIdx_iff_getElem?.mp hentry]
  refine IsDetectionOrder.unique ⟨?_, fun i => ?_, ?_⟩ (detectionOrder_isDetectionOrder _)
  · have hnodup : bindings.detectionOrder.Nodup := by
      rw [(bindTransform_ok h).2.2]
      refine List.Nodup.filter _ (mergeSort_nodup ?_)
      rw [List.map_map]
      exact nodup_zipIdx_snd _
    refine List.Nodup.map_on (fun index hindex index' hindex' heq => ?_) hnodup
    obtain ⟨format, hformat⟩ := hbound index hindex
    obtain ⟨format', hformat'⟩ := hbound index' hindex'
    exact registrationIndex_inj hformat hformat' heq
  · simp only [List.mem_map, mem_bindings_detectionOrder h, tries_iff h]
    constructor
    · rintro ⟨index, ⟨format, hformat, hdetector, -⟩, rfl⟩
      exact ⟨_, getElem?_toFormatDefinition (bound_getElem? hformat).2.1, format.hasDetector_eq.trans hdetector⟩
    · rintro ⟨_, hformat, hdetector⟩
      obtain ⟨format, hi, rfl⟩ := Option.map_eq_some_iff.mp ((List.getElem?_map ..).symm.trans hformat)
      have hinput := hprovide format (List.mem_of_getElem? hi) hdetector
      obtain ⟨index, hindex, hsame⟩ := exists_bound hi (format.transform_of_inputProvider hinput)
      exact ⟨index, ⟨format, hindex, format.hasDetector_eq.symm.trans hdetector, hinput⟩, hsame⟩
  · have hsorted : bindings.detectionOrder.Pairwise
        (Earlier (priorityOf ((bound r.formats).map (·.toFormatDefinition)))) := by
      rw [(bindTransform_ok h).2.2]
      exact (mergeSort_earlier hkeys).filter _
    refine List.pairwise_map.mpr (hsorted.imp_of_mem fun {index index'} hindex hindex' hearlier => ?_)
    obtain ⟨format, hformat⟩ := hbound index hindex
    obtain ⟨format', hformat'⟩ := hbound index' hindex'
    exact earlier_registrationIndex hformat hformat' hearlier

def Owner (formats : List FormatDefinition) (object : InputObject μ) (i : Nat) : Prop :=
  ∃ format, formats[i]? = some format ∧ format.owns object

variable {r : DetectingRegistry μ ν ε} {bind : FormatDefinition → Except κ Unit} {object : InputObject μ}

theorem registry_preferred : preferred r.registry.extensions object = some i ↔
    Owner (r.formats.map (·.toFormatDefinition)) object i := by
  obtain ⟨hextensions, -, -, hnodup⟩ := fromFormats_ok r.built
  rw [hextensions]
  exact preferred_eq_some hnodup

theorem bindings_preferred (h : r.bindTransform bind = .ok bindings) :
    preferred bindings.extensions object = some index ↔
      Owner ((bound r.formats).map (·.toFormatDefinition)) object index := by
  obtain ⟨-, -, -, hnodup⟩ := fromFormats_ok r.built
  rw [(bindTransform_ok h).2.1]
  refine preferred_eq_some (hnodup.sublist ?_)
  exact (List.filter_sublist.map _).flatMap _

theorem owner_iff {formats : List (DetectableFormat μ ν ε)} {i : Nat} {format : DetectableFormat μ ν ε}
    (h : formats[i]? = some format) :
    Owner (formats.map (·.toFormatDefinition)) object i ↔ format.owns object := by
  simp [Owner, h]

theorem preferred_iff (object : InputObject μ) (h : r.bindTransform bind = .ok bindings)
    (hindex : (bound r.formats)[index]? = some format) :
    preferred bindings.extensions object = some index ↔
      preferred r.registry.extensions object = some (registrationIndex r.formats index) := by
  rw [bindings_preferred h, registry_preferred, owner_iff hindex, owner_iff (bound_getElem? hindex).2.1]

theorem map_tryOrder (h : r.bindTransform bind = .ok bindings) (hprovide : AllProvide r.formats)
    (object : InputObject μ) :
    (tryOrder bindings.tries (preferred bindings.extensions object) bindings.detectionOrder).map
        (registrationIndex r.formats) =
      tryOrder (fun index => r.formats[index]?.any (·.detector.isSome)) (preferred r.registry.extensions object)
        r.registry.detectionOrder := by
  have hfirst : ((preferred bindings.extensions object).filter bindings.tries).map (registrationIndex r.formats) =
      (preferred r.registry.extensions object).filter fun index => r.formats[index]?.any (·.detector.isSome) := by
    ext i
    simp only [Option.map_eq_some_iff, Option.filter_eq_some_iff, Option.any_eq_true, tries_iff h]
    constructor
    · rintro ⟨index, ⟨hpreferred, format, hformat, hdetector, -⟩, rfl⟩
      exact ⟨(preferred_iff object h hformat).mp hpreferred, format, (bound_getElem? hformat).2.1, hdetector⟩
    · rintro ⟨hpreferred, format, hformat, hdetector⟩
      have hinput := hprovide format (List.mem_of_getElem? hformat) (format.hasDetector_eq.trans hdetector)
      obtain ⟨index, hindex, rfl⟩ := exists_bound hformat (format.transform_of_inputProvider hinput)
      exact ⟨index, ⟨(preferred_iff object h hindex).mpr hpreferred, format, hindex, hdetector, hinput⟩, rfl⟩
  have hrest : (bindings.detectionOrder.filter fun index =>
        decide (some index ≠ preferred bindings.extensions object)).map (registrationIndex r.formats) =
      r.registry.detectionOrder.filter fun index => decide (some index ≠ preferred r.registry.extensions object) := by
    rw [(fromFormats_ok r.built).2.1, ← map_detectionOrder h hprovide, List.filter_map]
    refine congrArg _ (List.filter_congr fun index hindex => ?_)
    obtain ⟨format, hformat, -⟩ := (tries_iff h).mp ((mem_bindings_detectionOrder h).mp hindex)
    have hiff := preferred_iff object h hformat
    exact decide_eq_decide.mpr (not_congr (eq_comm.trans (hiff.trans eq_comm)))
  rw [tryOrder, tryOrder, List.map_append, hrest, ← hfirst]
  cases (preferred bindings.extensions object).filter bindings.tries <;> rfl

def nameAt (formats : List FormatDefinition) (i : Nat) : String := (formats[i]?.map (·.name)).getD ""

theorem map_emitted (f : β → γ) (x : Detection ε β) : (f <$> x).emitted = x.emitted := by
  show (Emit.bind x fun a => ⟨[], .ok (f a)⟩).emitted = _
  unfold Emit.bind
  split
  · exact List.append_nil _
  · rfl

theorem runDetector_emitted (name : String) (detector : InputDetector μ ν ε) (object : InputObject μ) :
    (runDetector name (some detector) object).emitted = [name] := by
  dsimp only [runDetector]
  cases detector object with
  | error source => rfl
  | ok detection => cases detection <;> rfl

theorem registry_detectAt_emitted {i : Nat} {format : DetectableFormat μ ν ε} (h : r.formats[i]? = some format)
    (hdetector : format.detector.isSome) (object : InputObject μ) :
    (r.detectAt object i).emitted = [nameAt (r.formats.map (·.toFormatDefinition)) i] := by
  obtain ⟨detector, hsome⟩ := Option.isSome_iff_exists.mp hdetector
  rw [DetectingRegistry.detectAt, h, nameAt, getElem?_toFormatDefinition h]
  show (format.detect object).emitted = [format.name]
  rw [DetectableFormat.detect, map_emitted, hsome, runDetector_emitted]

/-- Where a format is bound, the two detections run its one detector. -/
theorem detectAt_agree (h : r.bindTransform bind = .ok bindings) (hindex : (bound r.formats)[index]? = some format)
    (object : InputObject μ) :
    Option.map (fun d : DetectedFormat ν => (d.format, d.variant)) <$> r.detectAt object (registrationIndex r.formats index) =
      Option.map (fun d : TransformBinding μ ν ε × ν => (d.1.format, d.2)) <$> bindings.detectAt object index := by
  have hbinding : bindings.bindings[index]? = some (toBinding format) := by
    rw [(bindTransform_ok h).1, List.getElem?_map, hindex]
    rfl
  rw [DetectingRegistry.detectAt, (bound_getElem? hindex).2.1, TransformBindings.detectAt, hbinding]
  dsimp only
  rw [DetectableFormat.detect, ← comp_map, ← comp_map]
  refine congrArg (· <$> runDetector format.name format.detector object) (funext fun variant => ?_)
  cases variant <;> rfl

/-- Each detecting format once: the owner of the extension first, the others by
priority and then by registration. -/
structure TriesInOrder (formats : List FormatDefinition) (object : InputObject μ) (order : List Nat) : Prop where
  nodup : order.Nodup
  mem_iff : ∀ i, i ∈ order ↔ ∃ format, formats[i]? = some format ∧ format.hasDetector = true
  owner : ∀ i ∈ order, Owner formats object i → order.head? = some i
  others : order.Pairwise fun i i' => ¬ Owner formats object i → Earlier (priorityOf formats) i i'

theorem registry_triesInOrder (r : DetectingRegistry μ ν ε) (object : InputObject μ) :
    TriesInOrder (r.formats.map (·.toFormatDefinition)) object
      (tryOrder (fun index => r.formats[index]?.any (·.detector.isSome)) (preferred r.registry.extensions object)
        r.registry.detectionOrder) := by
  have horder := detectionOrder_isDetectionOrder (r.formats.map (·.toFormatDefinition))
  rw [← (fromFormats_ok r.built).2.1] at horder
  have htries : ∀ i, (r.formats[i]?.any (·.detector.isSome)) = true ↔ i ∈ r.registry.detectionOrder := by
    intro i
    rw [horder.mem_iff, Option.any_eq_true, List.getElem?_map]
    simp only [Option.map_eq_some_iff]
    constructor
    · rintro ⟨format, hformat, hdetector⟩
      exact ⟨_, ⟨format, hformat, rfl⟩, format.hasDetector_eq.trans hdetector⟩
    · rintro ⟨_, ⟨format, hformat, rfl⟩, hdetector⟩
      exact ⟨format, hformat, format.hasDetector_eq.symm.trans hdetector⟩
  have hfilter : ∀ i, i ∈ r.registry.detectionOrder.filter (fun index =>
      decide (some index ≠ preferred r.registry.extensions object)) ↔
        i ∈ r.registry.detectionOrder ∧ ¬ Owner (r.formats.map (·.toFormatDefinition)) object i := by
    intro i
    rw [List.mem_filter, decide_eq_true_eq, ne_comm, ne_eq, registry_preferred]
  have hearlier : (r.registry.detectionOrder.filter fun index =>
      decide (some index ≠ preferred r.registry.extensions object)).Pairwise fun i i' =>
        ¬ Owner (r.formats.map (·.toFormatDefinition)) object i →
          Earlier (priorityOf (r.formats.map (·.toFormatDefinition))) i i' := by
    refine (horder.earlier.filter _).imp ?_
    exact fun h _ => h
  unfold tryOrder
  cases hpreferred : (preferred r.registry.extensions object).filter fun index =>
      r.formats[index]?.any (·.detector.isSome) with
  | none =>
    have hnone : ∀ i ∈ r.registry.detectionOrder, ¬ Owner (r.formats.map (·.toFormatDefinition)) object i := by
      intro i hi howner
      rw [registry_preferred.mpr howner, Option.filter_some, if_pos ((htries i).mpr hi)] at hpreferred
      cases hpreferred
    refine ⟨horder.nodup.filter _, fun i => ?_, fun i hi howner => ?_, hearlier⟩
    · rw [Option.toList_none, List.nil_append, hfilter, ← horder.mem_iff]
      exact and_iff_left_of_imp (hnone i)
    · exact absurd howner ((hfilter i).mp hi).2
  | some first =>
    obtain ⟨hfirst, hin⟩ := Option.filter_eq_some_iff.mp hpreferred
    have hin := (htries first).mp hin
    have howner : ∀ i, Owner (r.formats.map (·.toFormatDefinition)) object i → i = first := fun i howner =>
      Option.some.inj ((registry_preferred.mpr howner).symm.trans hfirst)
    rw [Option.toList_some, List.singleton_append]
    refine ⟨List.nodup_cons.mpr ⟨fun hmem => ((hfilter first).mp hmem).2 (registry_preferred.mp hfirst),
      horder.nodup.filter _⟩, fun i => ?_, fun i _ hi => ?_, List.pairwise_cons.mpr ⟨fun i' _ hnot => ?_, hearlier⟩⟩
    · rw [List.mem_cons, hfilter, ← horder.mem_iff]
      constructor
      · rintro (rfl | ⟨hi, -⟩)
        · exact hin
        · exact hi
      · intro hi
        by_cases hi' : Owner (r.formats.map (·.toFormatDefinition)) object i
        · exact .inl (howner i hi')
        · exact .inr ⟨hi, hi'⟩
    · rw [howner i hi]
      rfl
    · exact absurd (registry_preferred.mp hfirst) hnot

theorem nameAt_inj {i i' : Nat} {format format' : FormatDefinition} {formats : List FormatDefinition}
    (hnames : (formats.flatMap (·.names)).Nodup) (h : formats[i]? = some format) (h' : formats[i']? = some format')
    (heq : nameAt formats i = nameAt formats i') : i = i' := by
  have hname : format.name = format'.name := by simpa [nameAt, h, h'] using heq
  have hdisjoint := (List.nodup_flatMap.mp hnames).2
  have hshared : toAsciiLowercase format.name ∈ format.names ∧ toAsciiLowercase format.name ∈ format'.names := by
    refine ⟨List.mem_map_of_mem List.mem_cons_self, ?_⟩
    rw [hname]
    exact List.mem_map_of_mem List.mem_cons_self
  obtain ⟨hi, rfl⟩ := List.getElem?_eq_some_iff.mp h
  obtain ⟨hi', rfl⟩ := List.getElem?_eq_some_iff.mp h'
  rcases Nat.lt_trichotomy i i' with hlt | hsame | hlt
  · exact absurd hshared.2 (List.pairwise_iff_getElem.mp hdisjoint i i' hi hi' hlt hshared.1)
  · exact hsame
  · exact absurd hshared.1 (List.pairwise_iff_getElem.mp hdisjoint i' i hi' hi hlt hshared.2)

/-- The registry and the bindings of a command detect the same, by the same
detectors in one order, and run none of them twice. -/
theorem detections_agree (h : r.bindTransform bind = .ok bindings) (hprovide : AllProvide r.formats)
    (object : InputObject μ) :
    Option.map (fun d : DetectedFormat ν => (d.format, d.variant)) <$> r.detect object =
        Option.map (fun d : TransformBinding μ ν ε × ν => (d.1.format, d.2)) <$> bindings.detect object ∧
      (∃ order, TriesInOrder (r.formats.map (·.toFormatDefinition)) object order ∧
        (r.detect object).emitted <+: order.map (nameAt (r.formats.map (·.toFormatDefinition))) ∧
        ((r.detect object).result = .ok none →
          (r.detect object).emitted = order.map (nameAt (r.formats.map (·.toFormatDefinition))))) ∧
      (r.detect object).emitted.Nodup := by
  have horder := registry_triesInOrder r object
  have hformat : ∀ i ∈ tryOrder (fun index => r.formats[index]?.any (·.detector.isSome))
      (preferred r.registry.extensions object) r.registry.detectionOrder,
      ∃ format, r.formats[i]? = some format ∧ format.detector.isSome := by
    intro i hi
    obtain ⟨_, hformat, hdetector⟩ := (horder.mem_iff i).mp hi
    obtain ⟨format, hi, rfl⟩ := Option.map_eq_some_iff.mp ((List.getElem?_map ..).symm.trans hformat)
    exact ⟨format, hi, format.hasDetector_eq.symm.trans hdetector⟩
  have hdetect : r.detect object = firstOf (r.detectAt object) (tryOrder
      (fun index => r.formats[index]?.any (·.detector.isSome)) (preferred r.registry.extensions object)
      r.registry.detectionOrder) := detectPreferredFirst_eq ..
  have hemitted := firstOf_emitted (r.detectAt object) (nameAt (r.formats.map (·.toFormatDefinition))) fun i hi => by
    obtain ⟨format, hformat, hdetector⟩ := hformat i hi
    exact registry_detectAt_emitted hformat hdetector object
  rw [← hdetect] at hemitted
  refine ⟨?_, ⟨_, horder, hemitted⟩, ?_⟩
  · have hbindings : bindings.detect object = firstOf (bindings.detectAt object) (tryOrder bindings.tries
        (preferred bindings.extensions object) bindings.detectionOrder) := detectPreferredFirst_eq ..
    rw [hdetect, hbindings, map_firstOf, map_firstOf, ← map_tryOrder h hprovide, firstOf_map]
    refine firstOf_congr fun index hindex => ?_
    have htries : bindings.tries index = true := by
      rcases List.mem_append.mp hindex with hmem | hmem
      · exact (Option.filter_eq_some_iff.mp (Option.mem_toList.mp hmem)).2
      · exact (mem_bindings_detectionOrder h).mp (List.mem_filter.mp hmem).1
    obtain ⟨format, hbound, -⟩ := (tries_iff h).mp htries
    exact detectAt_agree h hbound object
  · refine List.Nodup.sublist hemitted.1.sublist (List.Nodup.map_on (fun i hi i' hi' heq => ?_) horder.nodup)
    obtain ⟨format, hi, -⟩ := hformat i hi
    obtain ⟨format', hi', -⟩ := hformat i' hi'
    exact nameAt_inj (fromFormats_ok r.built).2.2.1 (getElem?_toFormatDefinition hi) (getElem?_toFormatDefinition hi') heq

theorem exists_bindings (r : DetectingRegistry μ ν ε) :
    ∃ bindings, r.bindTransform (fun _ => (.ok () : Except Unit Unit)) = .ok bindings := by
  have hbindings : (bound r.formats).mapM (fun format => (.ok () : Except Unit Unit).map fun _ => toBinding format) =
      .ok ((bound r.formats).map toBinding) := Lists.mapM_eq_ok_map.mpr fun _ _ => rfl
  exact ⟨_, Lists.bind_eq_ok.mpr ⟨_, hbindings, rfl⟩⟩

def detectingFormat (name extension : String) (priority : Nat) (detector : InputDetector String String String) :
    DetectableFormat String String String where
  name
  aliases := []
  extensions := [extension]
  detectionPriority := priority
  hasDetector := true
  transform := some .new
  displayName := name
  detector := some detector
  hasInputProvider := true
  hasDetector_eq := rfl
  transform_of_inputProvider _ := rfl

/-- Arrow knows an object by its first bytes; to look at the end of one, as
Parquet does, fails. -/
def detectingFormats : List (DetectableFormat String String String) :=
  [detectingFormat "arrow" "arrow" 1 fun object =>
      .ok (if object.metadata = "ARROW1" then .matched "file" else .mismatch),
    detectingFormat "parquet" "pq" 0 fun _ => .error "connection reset"]

def arrowObject : InputObject String := ⟨"mem://bucket/a.arrow", some "arrow", "ARROW1"⟩

def unreadableObject : InputObject String := ⟨"mem://bucket/b.arrow", some "arrow", "PAR1"⟩

theorem detections_agree_arrow : ∃ (r : DetectingRegistry String String String) (bindings : TransformBindings String String String),
    r.formats = detectingFormats ∧ (r.detect arrowObject).result = .ok (some ⟨"arrow", "arrow", "file"⟩) ∧
    (r.detect unreadableObject).result = .error (.failed "parquet" .detection "connection reset") ∧
    ∀ object ∈ [arrowObject, unreadableObject],
      Option.map (fun d : DetectedFormat String => (d.format, d.variant)) <$> r.detect object =
        Option.map (fun d : TransformBinding String String String × String => (d.1.format, d.2)) <$> bindings.detect object ∧
      (∃ order, TriesInOrder (r.formats.map (·.toFormatDefinition)) object order ∧
        (r.detect object).emitted <+: order.map (nameAt (r.formats.map (·.toFormatDefinition))) ∧
        ((r.detect object).result = .ok none →
          (r.detect object).emitted = order.map (nameAt (r.formats.map (·.toFormatDefinition))))) ∧
      (r.detect object).emitted.Nodup := by
  obtain ⟨registry, hbuilt, -⟩ : ∃ registry,
      FormatRegistry.fromFormats (detectingFormats.map (·.toFormatDefinition)) = .ok registry ∧ registry.formats = _ :=
    exists_fromFormats (by decide) (by decide) (by decide)
  obtain ⟨bindings, hbindings⟩ := exists_bindings ⟨_, registry, hbuilt⟩
  obtain ⟨hextensions, horder, -⟩ := fromFormats_ok hbuilt
  have hprovide : AllProvide detectingFormats := by
    intro format hformat _
    rcases List.mem_cons.mp hformat with rfl | hformat
    · rfl
    · rw [List.mem_singleton.mp hformat]
      rfl
  refine ⟨⟨_, registry, hbuilt⟩, bindings, rfl, ?_, ?_, fun object _ => detections_agree hbindings hprovide object⟩
  · rw [DetectingRegistry.detect, hextensions]
    rfl
  · have hsorted : registry.detectionOrder = [1, 0] := by
      rw [horder]
      simp [detectionOrder, detectingFormats, detectingFormat, List.mergeSort, List.MergeSort.Internal.splitInTwo]
    rw [DetectingRegistry.detect, hextensions, hsorted]
    rfl

end Bindings

end SilkChiffon.Registration
