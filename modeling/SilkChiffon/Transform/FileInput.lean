import Mathlib.Data.String.Basic
import SilkChiffon.Lib.Grouping
import SilkChiffon.Registration.Detection
import SilkChiffon.Storage.Patterns

/-!
# File inputs of a transform

A pattern's matches are sorted by URL, one of each URL is kept, and those that
are detected alike under one store go to one input provider. What a session
lists for a pattern, and what a binding makes of a group, are parameters.
-/

namespace SilkChiffon.FileInput

open Registration Storage
open Grouping (sortBy dedupBy canonical distinctBy)

variable {U P μ ε T : Type}

/-- Equal by its name alone. -/
structure FormatInputVariant where
  name : Option String
  displayName : Option String
  deriving Repr

instance : BEq FormatInputVariant := ⟨fun a b => a.name == b.name⟩

/-- What a storage session knows of an object besides its URL. -/
structure StoredAs (μ : Type) where
  storeUrl : String
  metadata : μ

abbrev MatchedObject (μ : Type) := InputObject (StoredAs μ)

abbrev FormatBinding (μ ε : Type) := TransformBinding (StoredAs μ) FormatInputVariant ε

inductive InputError (U ε : Type)
  | message (text : String)
  | context (text : String) (source : InputError U ε)
  | pattern (source : PatternError U)
  | storage (source : ε)
  | operation (source : FormatOperationError ε)

structure FileInputPreparer (U P μ ε T : Type) where
  expandInputPattern : LocationPattern U P → Except ε (List (MatchedObject μ))
  formats : TransformBindings (StoredAs μ) FormatInputVariant ε
  explicitFormat : Option String
  createInputProvider : FormatBinding μ ε → List (MatchedObject μ) → FormatInputVariant →
    Except (FormatOperationError ε) T

structure DetectedFileGroup (μ ε : Type) where
  format : FormatBinding μ ε
  variant : FormatInputVariant
  storeUrl : String
  objects : List (MatchedObject μ)

/-- By canonical name or alias, without regard to case. -/
def bindingNamed (formats : TransformBindings (StoredAs μ) FormatInputVariant ε) (name : String) :
    Option (FormatBinding μ ε) :=
  (KeyClaims.latest formats.names (toAsciiLowercase name)).bind (formats.bindings[·]?)

def addToGroups (format : FormatBinding μ ε) (variant : FormatInputVariant) (object : MatchedObject μ) :
    List (DetectedFileGroup μ ε) → List (DetectedFileGroup μ ε)
  | [] => [⟨format, variant, object.metadata.storeUrl, [object]⟩]
  | group :: groups =>
    if group.format.format == format.format && group.variant == variant &&
        group.storeUrl == object.metadata.storeUrl then
      { group with objects := group.objects ++ [object] } :: groups
    else group :: addToGroups format variant object groups

namespace FileInputPreparer

def identify (p : FileInputPreparer U P μ ε T) (object : MatchedObject μ) :
    Except (InputError U ε) (FormatBinding μ ε × FormatInputVariant) :=
  match p.explicitFormat with
  | some name =>
    match bindingNamed p.formats name with
    | none => .error (.message s!"format is not registered: {name}")
    | some format =>
      if format.detector.isSome then
        match (format.detect object).result with
        | .error source => .error (.operation source)
        | .ok none => .error (.message s!"input {object.url} is not recognized as {format.format}")
        | .ok (some variant) => .ok (format, variant)
      else .ok (format, ⟨none, none⟩)
  | none =>
    match (p.formats.detect object).result with
    | .error source => .error (.operation source)
    | .ok none =>
      .error (.message
        s!"could not detect the format of input {object.url}; use --input-format to select it explicitly")
    | .ok (some detected) => .ok detected

def groupObjects (p : FileInputPreparer U P μ ε T) (groups : List (DetectedFileGroup μ ε)) :
    List (MatchedObject μ) → Except (InputError U ε) (List (DetectedFileGroup μ ε))
  | [] => .ok groups
  | object :: objects =>
    match p.identify object with
    | .error source => .error source
    | .ok (format, variant) => groupObjects p (addToGroups format variant object groups) objects

section
variable (debug : String → String) (crate : UrlCrate U) (glob : GlobCrate P) (p : FileInputPreparer U P μ ε T)

def matchedObjects (pattern : String) : Except (InputError U ε) (List (MatchedObject μ)) := do
  let locationPattern ← (LocationPattern.parse crate glob pattern).mapError fun source =>
    .context s!"while parsing file input pattern {debug pattern}" (.pattern source)
  (p.expandInputPattern locationPattern).mapError fun source =>
    .context s!"while expanding file input pattern {debug pattern}" (.storage source)

def patternGroups (allowUnmatched : Bool) (pattern : String) :
    Except (InputError U ε) (List (DetectedFileGroup μ ε)) := do
  let objects ← p.matchedObjects debug crate glob pattern
  if objects.isEmpty && !allowUnmatched then
    throw (.message s!"file input pattern {debug pattern} matched no locations")
  p.groupObjects [] (dedupBy (·.url) (sortBy (·.url) objects))

def preparePatterns (allowUnmatched : Bool) : List String → Except (InputError U ε) (List T)
  | [] => .ok []
  | pattern :: patterns => do
    let groups ← p.patternGroups debug crate glob allowUnmatched pattern
    let providers ← groups.mapM fun group =>
      (p.createInputProvider group.format group.objects group.variant).mapError fun source =>
        .context s!"while creating file input provider for pattern {debug pattern}" (.operation source)
    return providers ++ (← preparePatterns allowUnmatched patterns)

end

end FileInputPreparer

-- ---------------------------------------------------------------------------
-- Kinds
-- ---------------------------------------------------------------------------

/-- Format, container variant and store root. -/
abbrev Kind := String × Option String × String

def DetectedFileGroup.kind (group : DetectedFileGroup μ ε) : Kind :=
  (group.format.format, group.variant.name, group.storeUrl)

def detectedKind (object : MatchedObject μ) (detected : FormatBinding μ ε × FormatInputVariant) : Kind :=
  (detected.1.format, detected.2.name, object.metadata.storeUrl)

namespace FileInputPreparer

def kindOf (p : FileInputPreparer U P μ ε T) (object : MatchedObject μ) : Except (InputError U ε) Kind :=
  (p.identify object).map (detectedKind object)

end FileInputPreparer

theorem accepts_iff {group : DetectedFileGroup μ ε} {object : MatchedObject μ} :
    (group.format.format == format.format && group.variant == variant &&
      group.storeUrl == object.metadata.storeUrl) = true ↔ group.kind = detectedKind object (format, variant) := by
  simp only [Bool.and_eq_true, beq_iff_eq, DetectedFileGroup.kind, detectedKind, Prod.mk.injEq, and_assoc]
  exact and_congr_right fun _ => and_congr_left fun _ => beq_iff_eq (a := group.variant.name)

theorem addToGroups_eq {format : FormatBinding μ ε} {variant : FormatInputVariant} {object : MatchedObject μ}
    {kind : MatchedObject μ → Kind} (h : detectedKind object (format, variant) = kind object)
    (groups : List (DetectedFileGroup μ ε)) :
    (addToGroups format variant object groups).map (fun g => (g.kind, g.objects)) =
      Grouping.addTo kind (groups.map fun g => (g.kind, g.objects)) object := by
  induction groups with
  | nil =>
    rw [List.map_nil, Grouping.addTo_nil, ← h]
    rfl
  | cons group groups ih =>
    rw [addToGroups, List.map_cons, Grouping.addTo_cons, ← h]
    split
    · rename_i haccepts
      rw [if_pos (accepts_iff.mp haccepts)]
      rfl
    · rename_i hrejects
      rw [if_neg fun heq => hrejects (accepts_iff.mpr heq), List.map_cons, ih]

-- ---------------------------------------------------------------------------
-- The loop
-- ---------------------------------------------------------------------------

section
variable {p : FileInputPreparer U P μ ε T}

theorem groupObjects_cons_ok {groups groups' : List (DetectedFileGroup μ ε)} :
    p.groupObjects groups (object :: objects) = .ok groups' ↔
      ∃ format variant, p.identify object = .ok (format, variant) ∧
        p.groupObjects (addToGroups format variant object groups) objects = .ok groups' := by
  rw [FileInputPreparer.groupObjects]
  cases p.identify object with
  | error source => simp
  | ok detected => exact ⟨fun h => ⟨_, _, rfl, h⟩, fun ⟨_, _, rfl, h⟩ => h⟩

theorem exists_groupObjects {objects : List (MatchedObject μ)} {groups : List (DetectedFileGroup μ ε)} :
    (∃ groups', p.groupObjects groups objects = .ok groups') ↔
      ∀ object ∈ objects, ∃ detected, p.identify object = .ok detected := by
  induction objects generalizing groups with
  | nil => simp [FileInputPreparer.groupObjects]
  | cons object objects ih =>
    rw [List.forall_mem_cons]
    constructor
    · rintro ⟨groups', h⟩
      obtain ⟨format, variant, hidentify, h⟩ := groupObjects_cons_ok.mp h
      exact ⟨⟨_, hidentify⟩, ih.mp ⟨_, h⟩⟩
    · rintro ⟨⟨⟨format, variant⟩, hidentify⟩, h⟩
      obtain ⟨groups', h⟩ := ih.mpr h
      exact ⟨groups', groupObjects_cons_ok.mpr ⟨format, variant, hidentify, h⟩⟩

theorem groupObjects_ok {objects : List (MatchedObject μ)} {groups groups' : List (DetectedFileGroup μ ε)}
    (h : p.groupObjects groups objects = .ok groups') {kind : MatchedObject μ → Kind}
    (hkind : ∀ object ∈ objects, p.kindOf object = .ok (kind object)) :
    groups'.map (fun g => (g.kind, g.objects)) =
      objects.foldl (Grouping.addTo kind) (groups.map fun g => (g.kind, g.objects)) := by
  induction objects generalizing groups with
  | nil =>
    obtain rfl := Except.ok.inj h
    rfl
  | cons object objects ih =>
    obtain ⟨format, variant, hidentify, h⟩ := groupObjects_cons_ok.mp h
    obtain ⟨hobject, hkind⟩ := List.forall_mem_cons.mp hkind
    have heq : detectedKind object (format, variant) = kind object := by
      rw [FileInputPreparer.kindOf, hidentify] at hobject
      exact Except.ok.inj hobject
    rw [List.foldl_cons, ih h hkind, addToGroups_eq heq]

end

-- ---------------------------------------------------------------------------
-- The groups
-- ---------------------------------------------------------------------------

/-- The objects, one of each URL, divided by their kinds. -/
structure IsGrouping (p : FileInputPreparer U P μ ε T) (objects : List (MatchedObject μ))
    (groups : List (DetectedFileGroup μ ε)) : Prop where
  perm : (groups.flatMap (·.objects)).Perm (distinctBy (·.url) objects)
  nonempty : ∀ g ∈ groups, g.objects ≠ []
  homogeneous : ∀ g ∈ groups, ∀ o ∈ g.objects, p.kindOf o = .ok g.kind
  sorted : ∀ g ∈ groups, g.objects.Pairwise fun a b => a.url < b.url
  distinct : groups.Pairwise fun g g' => g.kind ≠ g'.kind
  ordered : groups.Pairwise fun g g' => ∀ o ∈ g.objects.head?, ∀ o' ∈ g'.objects.head?, o.url < o'.url

section
variable {p : FileInputPreparer U P μ ε T} {objects : List (MatchedObject μ)} {groups : List (DetectedFileGroup μ ε)}

theorem kindOf_ok {object : MatchedObject μ} :
    (∃ kind, p.kindOf object = .ok kind) ↔ ∃ detected, p.identify object = .ok detected := by
  rw [FileInputPreparer.kindOf]
  cases p.identify object <;> simp [Except.map]

theorem isGrouping (h : p.groupObjects [] (canonical (·.url) objects) = .ok groups) :
    IsGrouping p objects groups := by
  let kind : MatchedObject μ → Kind := fun o => (p.kindOf o).toOption.getD ("", none, "")
  have hkind : ∀ o ∈ canonical (·.url) objects, p.kindOf o = .ok (kind o) := by
    intro o ho
    obtain ⟨k, hk⟩ := kindOf_ok.mpr (exists_groupObjects.mp ⟨groups, h⟩ o ho)
    rw [hk, show kind o = k by simp [kind, hk, Except.toOption]]
  have hpartition := Grouping.groupsOf_isPartition kind (canonical (·.url) objects)
  have hsorted := Grouping.canonical_sorted (·.url) objects
  rw [Grouping.groupsOf, ← List.map_nil, ← groupObjects_ok h hkind] at hpartition
  have hmem : ∀ g ∈ groups, (g.kind, g.objects) ∈ groups.map fun g => (g.kind, g.objects) :=
    fun g hg => List.mem_map_of_mem hg
  constructor
  · refine List.Perm.trans ?_ (Grouping.canonical_perm (·.url) objects)
    simpa [List.flatMap_map] using hpartition.perm
  · exact fun g hg => hpartition.nonempty _ (hmem g hg)
  · intro g hg o ho
    have hcanonical := (hpartition.ordered _ (hmem g hg)).subset ho
    rw [hkind o hcanonical, hpartition.homogeneous _ (hmem g hg) o ho]
  · exact fun g hg => hsorted.sublist (hpartition.ordered _ (hmem g hg))
  · have hdistinct := hpartition.distinct
    rw [List.map_map] at hdistinct
    exact List.pairwise_map.mp hdistinct
  · have hfirsts := hsorted.sublist hpartition.firsts
    rw [List.filterMap_map, List.pairwise_filterMap] at hfirsts
    exact hfirsts

def FileInputPreparer.trace (p : FileInputPreparer U P μ ε T) (object : MatchedObject μ) :
    String × Except (InputError U ε) Kind :=
  (object.url, p.kindOf object)

def DetectedFileGroup.summary (group : DetectedFileGroup μ ε) : Kind × List String :=
  (group.kind, group.objects.map (·.url))

theorem addToGroups_summary {groups groups' : List (DetectedFileGroup μ ε)} {object object' : MatchedObject μ}
    {format format' : FormatBinding μ ε} {variant variant' : FormatInputVariant}
    (hgroups : groups.map (·.summary) = groups'.map (·.summary)) (hurl : object.url = object'.url)
    (hkind : detectedKind object (format, variant) = detectedKind object' (format', variant')) :
    (addToGroups format variant object groups).map (·.summary) =
      (addToGroups format' variant' object' groups').map (·.summary) := by
  induction groups generalizing groups' with
  | nil =>
    obtain rfl := List.map_eq_nil_iff.mp hgroups.symm
    exact congrArg₂ (fun kind url => [(kind, [url])]) hkind hurl
  | cons group groups ih =>
    cases groups' with
    | nil => cases hgroups
    | cons group' groups' =>
      obtain ⟨hgroup, hgroups⟩ := List.cons.inj hgroups
      have hsame : group.kind = group'.kind := congrArg Prod.fst hgroup
      have hurls : group.objects.map (·.url) = group'.objects.map (·.url) := congrArg Prod.snd hgroup
      rw [addToGroups, addToGroups]
      split
      · rename_i haccepts
        have haccepts' := accepts_iff.mpr (hsame ▸ hkind ▸ accepts_iff.mp haccepts)
        rw [if_pos haccepts', List.map_cons, List.map_cons, hgroups]
        refine congrArg (· :: _) (Prod.ext hsame ?_)
        simp [DetectedFileGroup.summary, hurls, hurl]
      · rename_i hrejects
        have hrejects' := fun haccepts' => hrejects (accepts_iff.mpr (hsame ▸ hkind ▸ accepts_iff.mp haccepts'))
        rw [if_neg hrejects', List.map_cons, List.map_cons, ih hgroups]
        exact congrArg (· :: _) hgroup

/-- Objects that cannot be told apart make groups that cannot. -/
theorem groupObjects_summary {objects objects' : List (MatchedObject μ)} {groups groups' : List (DetectedFileGroup μ ε)}
    (hobjects : objects.map p.trace = objects'.map p.trace)
    (hgroups : groups.map (·.summary) = groups'.map (·.summary)) :
    (p.groupObjects groups objects).map (List.map DetectedFileGroup.summary) =
      (p.groupObjects groups' objects').map (List.map DetectedFileGroup.summary) := by
  induction objects generalizing groups groups' objects' with
  | nil =>
    obtain rfl := List.map_eq_nil_iff.mp hobjects.symm
    exact congrArg Except.ok hgroups
  | cons object objects ih =>
    cases objects' with
    | nil => cases hobjects
    | cons object' objects' =>
      obtain ⟨hobject, hobjects⟩ := List.cons.inj hobjects
      have hurl : object.url = object'.url := congrArg Prod.fst hobject
      have hkind : p.kindOf object = p.kindOf object' := congrArg Prod.snd hobject
      unfold FileInputPreparer.kindOf at hkind
      rw [FileInputPreparer.groupObjects, FileInputPreparer.groupObjects]
      cases hfirst : p.identify object with
      | error source =>
        rw [hfirst] at hkind
        cases hsecond : p.identify object' with
        | error source' =>
          rw [hsecond] at hkind
          exact congrArg Except.error (Except.error.inj hkind)
        | ok detected' =>
          rw [hsecond] at hkind
          cases hkind
      | ok detected =>
        rw [hfirst] at hkind
        cases hsecond : p.identify object' with
        | error source' =>
          rw [hsecond] at hkind
          cases hkind
        | ok detected' =>
          rw [hsecond] at hkind
          exact ih hobjects (addToGroups_summary hgroups hurl (Except.ok.inj hkind))

end

-- ---------------------------------------------------------------------------
-- The order of a listing
-- ---------------------------------------------------------------------------

def FileInputPreparer.withListing (p : FileInputPreparer U P μ ε T)
    (expand : LocationPattern U P → Except ε (List (MatchedObject μ))) : FileInputPreparer U P μ ε T :=
  { p with expandInputPattern := expand }

section
variable {debug : String → String} {crate : UrlCrate U} {glob : GlobCrate P} {p : FileInputPreparer U P μ ε T}

theorem patternGroups_ok (h : p.matchedObjects debug crate glob pattern = .ok objects) :
    p.patternGroups debug crate glob allowUnmatched pattern =
      if objects.isEmpty && !allowUnmatched then
        .error (.message s!"file input pattern {debug pattern} matched no locations")
      else p.groupObjects [] (canonical (·.url) objects) := by
  rw [FileInputPreparer.patternGroups, h]
  show (if _ then _ else _) = _
  split <;> rfl

/-- Two listings of the same objects, where those with one URL are one, or the
same failure. -/
inductive Reordered : Except (InputError U ε) (List (MatchedObject μ)) →
    Except (InputError U ε) (List (MatchedObject μ)) → Prop
  | error : Reordered (.error e) (.error e)
  | ok : objects.Perm objects' → (∀ a ∈ objects, ∀ b ∈ objects, a.url = b.url → a = b) →
      Reordered (.ok objects) (.ok objects')

theorem exists_patternGroups (h : p.matchedObjects debug crate glob pattern = .ok objects) :
    (∃ groups, p.patternGroups debug crate glob allowUnmatched pattern = .ok groups) ↔
      (objects ≠ [] ∨ allowUnmatched = true) ∧
        ∀ o ∈ distinctBy (·.url) objects, ∃ detected, p.identify o = .ok detected := by
  rw [patternGroups_ok h]
  split
  · rename_i hempty
    rw [Bool.and_eq_true, List.isEmpty_iff, Bool.not_eq_true'] at hempty
    obtain ⟨rfl, rfl⟩ := hempty
    simp
  · rename_i hmatched
    have hallowed : objects ≠ [] ∨ allowUnmatched = true := by
      by_contra hnone
      obtain ⟨hempty, hstrict⟩ := not_or.mp hnone
      exact hmatched (by simp [not_ne_iff.mp hempty, hstrict])
    rw [exists_groupObjects, and_iff_right hallowed]
    simp only [(Grouping.canonical_perm (·.url) objects).mem_iff]

theorem groupObjects_withListing (expand : LocationPattern U P → Except ε (List (MatchedObject μ)))
    (groups : List (DetectedFileGroup μ ε)) (objects : List (MatchedObject μ)) :
    (p.withListing expand).groupObjects groups objects =
      p.groupObjects groups objects := by
  induction objects generalizing groups with
  | nil => rfl
  | cons object objects ih =>
    rw [FileInputPreparer.groupObjects, FileInputPreparer.groupObjects,
      show (p.withListing expand).identify object = p.identify object from rfl]
    cases p.identify object with
    | error source => rfl
    | ok detected => exact ih ..

/-- Objects with one URL that are detected alike make the same groups of URLs
in every order. -/
theorem patternGroups_summary {expand : LocationPattern U P → Except ε (List (MatchedObject μ))}
    (h : p.matchedObjects debug crate glob pattern = .ok objects)
    (h' : (p.withListing expand).matchedObjects debug crate glob pattern = .ok objects')
    (hperm : objects.Perm objects')
    (halike : ∀ a ∈ objects, ∀ b ∈ objects, a.url = b.url → p.kindOf a = p.kindOf b) :
    (p.patternGroups debug crate glob allowUnmatched pattern).map (List.map DetectedFileGroup.summary) =
      ((p.withListing expand).patternGroups debug crate glob allowUnmatched pattern).map
        (List.map DetectedFileGroup.summary) := by
  rw [patternGroups_ok h, patternGroups_ok h', hperm.isEmpty_eq, groupObjects_withListing]
  split
  · rfl
  · refine groupObjects_summary (Grouping.canonical_congr hperm ?_) rfl
    exact fun a ha b hb hurl => Prod.ext hurl (halike a ha b hb hurl)

theorem patternGroups_reordered {expand : LocationPattern U P → Except ε (List (MatchedObject μ))}
    (h : Reordered (p.matchedObjects debug crate glob pattern)
      ((p.withListing expand).matchedObjects debug crate glob pattern)) :
    p.patternGroups debug crate glob allowUnmatched pattern =
      (p.withListing expand).patternGroups debug crate glob allowUnmatched pattern := by
  generalize hfirst : p.matchedObjects debug crate glob pattern = first at h
  generalize hsecond : (p.withListing expand).matchedObjects debug crate glob pattern = second at h
  cases h with
  | error =>
    rw [FileInputPreparer.patternGroups, FileInputPreparer.patternGroups, hfirst, hsecond]
    rfl
  | @ok objects objects' hperm hsame =>
    have hcanonical : canonical (·.url) objects = canonical (·.url) objects' := by
      simpa using Grouping.canonical_congr (f := id) hperm hsame
    rw [patternGroups_ok hfirst, patternGroups_ok hsecond, hperm.isEmpty_eq, groupObjects_withListing, hcanonical]

theorem preparePatterns_reordered {expand : LocationPattern U P → Except ε (List (MatchedObject μ))}
    {patterns : List String} (h : ∀ pattern ∈ patterns, Reordered (p.matchedObjects debug crate glob pattern)
      ((p.withListing expand).matchedObjects debug crate glob pattern)) :
    p.preparePatterns debug crate glob allowUnmatched patterns =
      (p.withListing expand).preparePatterns debug crate glob allowUnmatched patterns := by
  induction patterns with
  | nil => rfl
  | cons pattern patterns ih =>
    obtain ⟨hpattern, hpatterns⟩ := List.forall_mem_cons.mp h
    rw [FileInputPreparer.preparePatterns, FileInputPreparer.preparePatterns, patternGroups_reordered hpattern,
      ih hpatterns]
    rfl

end

/-- A pattern's groups divide what it matches, one object of each URL, by kind,
and follow the URLs. They do not depend on the order of the listing where
objects with one URL are of one kind, nor does any provider where they are one. -/
theorem pattern_groups_divide (debug : String → String) (crate : UrlCrate U) (glob : GlobCrate P)
    (p : FileInputPreparer U P μ ε T) (allowUnmatched : Bool) :
    (∀ pattern objects, p.matchedObjects debug crate glob pattern = .ok objects →
      ((∃ groups, p.patternGroups debug crate glob allowUnmatched pattern = .ok groups) ↔
        (objects ≠ [] ∨ allowUnmatched = true) ∧
          ∀ o ∈ distinctBy (·.url) objects, ∃ detected, p.identify o = .ok detected) ∧
      ∀ groups, p.patternGroups debug crate glob allowUnmatched pattern = .ok groups →
        IsGrouping p objects groups) ∧
    (∀ expand pattern objects objects', p.matchedObjects debug crate glob pattern = .ok objects →
      (p.withListing expand).matchedObjects debug crate glob pattern = .ok objects' →
      objects.Perm objects' → (∀ a ∈ objects, ∀ b ∈ objects, a.url = b.url → p.kindOf a = p.kindOf b) →
      (p.patternGroups debug crate glob allowUnmatched pattern).map (List.map DetectedFileGroup.summary) =
        ((p.withListing expand).patternGroups debug crate glob allowUnmatched pattern).map
          (List.map DetectedFileGroup.summary)) ∧
    (∀ expand patterns, (∀ pattern ∈ patterns, Reordered (p.matchedObjects debug crate glob pattern)
        ((p.withListing expand).matchedObjects debug crate glob pattern)) →
      p.preparePatterns debug crate glob allowUnmatched patterns =
        (p.withListing expand).preparePatterns debug crate glob allowUnmatched patterns) := by
  refine ⟨fun pattern objects h => ⟨exists_patternGroups h, fun groups hgroups => ?_⟩, ?_, ?_⟩
  · rw [patternGroups_ok h] at hgroups
    split at hgroups
    · cases hgroups
    · exact isGrouping hgroups
  · exact fun _ _ _ _ h h' hperm halike => patternGroups_summary h h' hperm halike
  · exact fun _ _ h => preparePatterns_reordered h

def plainUrls : UrlCrate String where
  parse := .ok
  asStr := id
  scheme text := String.ofList (text.toList.takeWhile (· ≠ ':'))
  username _ := ""
  password _ := none
  path text := String.ofList (text.toList.dropWhile (· ≠ '/'))
  toFilePath _ := none
  fromFilePath path := some ("file://" ++ path)
  setRootPath := id
  clearQuery := id
  clearFragment := id
  withSegments _ _ := none

/-- One format, of files as long as the metadata says so and of streams. -/
def arrowPreparer (objects : List (MatchedObject Bool)) :
    FileInputPreparer String (List Glob.Token) Bool Unit Unit where
  expandInputPattern _ := .ok objects
  formats := {
    bindings := [{
      format := "arrow"
      detector := some fun object =>
        .ok (.matched ⟨some (if object.metadata.metadata then "file" else "stream"), none⟩)
      hasInputProvider := true }]
    names := [("arrow", 0)]
    extensions := [("arrow", 0)]
    detectionOrder := [0] }
  explicitFormat := none
  createInputProvider _ _ _ := .ok ()

/-- An object as it is listed before and after it was overwritten. -/
def listedTwice : List (MatchedObject Bool) := [true, false].map fun metadata =>
  ⟨"file:///data/a.arrow", some "arrow", ⟨"file:///", metadata⟩⟩

theorem listing_order_decides :
    (((arrowPreparer listedTwice).patternGroups id plainUrls docGlob false "*.arrow").map
        (List.map DetectedFileGroup.summary)).toOption =
      some [(("arrow", some "file", "file:///"), ["file:///data/a.arrow"])] ∧
    (((arrowPreparer listedTwice.reverse).patternGroups id plainUrls docGlob false "*.arrow").map
        (List.map DetectedFileGroup.summary)).toOption =
      some [(("arrow", some "stream", "file:///"), ["file:///data/a.arrow"])] := by
  have hmatched : ∀ objects, (arrowPreparer objects).matchedObjects id plainUrls docGlob "*.arrow" = .ok objects := by
    intro objects
    have hparse : LocationPattern.parse plainUrls docGlob "*.arrow" = .ok ⟨.bare "*.arrow"⟩ := by decide
    rw [FileInputPreparer.matchedObjects, hparse]
    rfl
  have hsorted : sortBy (·.url) listedTwice = listedTwice := List.mergeSort_of_pairwise (by decide)
  have hreversed : sortBy (·.url) listedTwice.reverse = listedTwice.reverse :=
    List.mergeSort_of_pairwise (by decide)
  rw [patternGroups_ok (hmatched _), patternGroups_ok (hmatched _), canonical, canonical, hsorted, hreversed]
  exact ⟨rfl, rfl⟩

end SilkChiffon.FileInput
