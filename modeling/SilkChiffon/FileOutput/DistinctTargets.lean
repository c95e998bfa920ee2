import SilkChiffon.FileOutput.PartitionTargets

/-!
# Which partitions share a target

From the names in an object path to the target a session makes of it: no step
but the naming itself joins two partitions.
-/

namespace SilkChiffon.FileOutput

open Arrow
open Storage (UrlCrate Location LocationInput StorageSession OutputTarget PlainPath PlainSegment
  IsDirectory absolutePath driveLetter asBytes)

variable {U P α : Type} {format : Formatter α} {values a b : PartitionValues α} {columnOrder : List String}
  {layout : HiveLayout} {template : OutputTargetTemplate U}

-- ---------------------------------------------------------------------------
-- Names and keys
-- ---------------------------------------------------------------------------

/-- Values in the default partition: null, the empty text, and its own name. -/
def DefaultNamed (format : Formatter α) (cell : Option (Cell α)) : Prop :=
  cell = some none ∨ ∃ value text, cell = some (some value) ∧ format value = some text ∧
    (text.toList = [] ∨ text.toList = hiveDefaultPartition)

def SameNames (format : Formatter α) (columnOrder : List String) (a b : PartitionValues α) : Prop :=
  ∀ column ∈ columnOrder, partitionKey format a [column] = partitionKey format b [column] ∨
    (DefaultNamed format (a.get column) ∧ DefaultNamed format (b.get column))

theorem fieldValues_formats (h : OutputTargetTemplate.fieldValues format values = .ok context)
    (hget : values.get column = some (some value)) : ∃ text, format value = some text := by
  induction values generalizing context with
  | nil => cases hget
  | cons p rest ih =>
    obtain ⟨name, cell⟩ := p
    unfold OutputTargetTemplate.fieldValues at h
    obtain ⟨text, htext, h⟩ := Lists.bind_eq_ok.mp h
    obtain ⟨context', hcontext, _⟩ := Lists.bind_eq_ok.mp h
    by_cases hname : column = name
    · subst hname
      obtain rfl : cell = some value := by simpa [PartitionValues.get] using hget
      simp only [OutputTargetTemplate.valueText] at htext
      split at htext
      · exact ⟨_, by assumption⟩
      · cases htext
    · refine ih hcontext ?_
      simpa [PartitionValues.get, List.lookup_cons, beq_false_of_ne hname] using hget

theorem context_formats (h : OutputTargetTemplate.context format values none = .ok context)
    (hget : values.get column = some (some value)) : ∃ text, format value = some text := by
  obtain ⟨context', hvalues, _⟩ := Lists.bind_eq_ok.mp h
  exact fieldValues_formats hvalues hget

theorem namedText_default : namedText hiveDefaultPartition = hiveDefaultPartition := by decide

theorem named_cases (h : OutputTargetTemplate.context format values none = .ok context)
    (hcolumn : (values.get column).isSome) :
    (DefaultNamed format (values.get column) ∧
        namedText (columnText format values column) = hiveDefaultPartition) ∨
      ∃ value text, values.get column = some (some value) ∧ format value = some text ∧
        text.toList ≠ hiveDefaultPartition ∧ text.toList ≠ [] ∧
        namedText (columnText format values column) = text.toList := by
  obtain ⟨cell, hcell⟩ := Option.isSome_iff_exists.mp hcolumn
  cases cell with
  | none => exact .inl ⟨.inl hcell, by simpa [columnText, hcell] using namedText_default⟩
  | some value =>
    obtain ⟨text, htext⟩ := context_formats h hcell
    have hcolumnText : columnText format values column = text.toList := by
      simp [columnText, hcell, htext]
    by_cases hempty : text.toList = []
    · exact .inl ⟨.inr ⟨value, text, hcell, htext, .inl hempty⟩, by rw [hcolumnText, namedText, if_pos hempty]⟩
    · have hnamed : namedText (columnText format values column) = text.toList := by
        rw [hcolumnText, namedText, if_neg hempty]
      by_cases hdefault : text.toList = hiveDefaultPartition
      · exact .inl ⟨.inr ⟨value, text, hcell, htext, .inr hdefault⟩, hnamed.trans hdefault⟩
      · exact .inr ⟨value, text, hcell, htext, hdefault, hempty, hnamed⟩

theorem partitionKey_singleton (format : Formatter α) (values : PartitionValues α) (column : String) :
    partitionKey format values [column] = keyComponent format (values.get column) := by
  simp [partitionKey_eq, String.intercalate_singleton]

theorem not_defaultNamed (hcell : cell = some (some value)) (htext : format value = some text)
    (hdefault : text.toList ≠ hiveDefaultPartition) (hempty : text.toList ≠ []) :
    ¬ DefaultNamed format cell := by
  subst hcell
  rintro (h | ⟨value', text', h, htext', hnamed⟩)
  · cases h
  · obtain rfl : value = value' := by simpa using h
    obtain rfl := Option.some.inj (htext.symm.trans htext')
    exact hnamed.elim hempty hdefault

theorem key_ne_of_defaultNamed (h : DefaultNamed format cell) (hcell : cell' = some (some value))
    (htext : format value = some text) (hdefault : text.toList ≠ hiveDefaultPartition)
    (hempty : text.toList ≠ []) : keyComponent format cell ≠ keyComponent format cell' := by
  subst hcell
  intro hkey
  rcases h with rfl | ⟨value', text', rfl, htext', hnamed⟩
  · obtain ⟨hnone, _⟩ := keyComponent_inj.mp hkey
    cases hnone.mp rfl
  · obtain ⟨_, hscalar⟩ := keyComponent_inj.mp hkey
    obtain rfl : text' = text := by simpa [formatScalarValue, htext, htext'] using hscalar
    exact hnamed.elim hempty hdefault

/-- Two rendered values have one name when their keys agree, or by default. -/
theorem namedText_eq_iff (ha : OutputTargetTemplate.context format a none = .ok contextA)
    (hb : OutputTargetTemplate.context format b none = .ok contextB)
    (hcolumnA : (a.get column).isSome) (hcolumnB : (b.get column).isSome) :
    namedText (columnText format a column) = namedText (columnText format b column) ↔
      partitionKey format a [column] = partitionKey format b [column] ∨
        (DefaultNamed format (a.get column) ∧ DefaultNamed format (b.get column)) := by
  rw [partitionKey_singleton, partitionKey_singleton]
  rcases named_cases ha hcolumnA with ⟨hdefaultA, hnamedA⟩ | ⟨va, ta, hcellA, htextA, hneA, hemptyA, hnamedA⟩ <;>
    rcases named_cases hb hcolumnB with ⟨hdefaultB, hnamedB⟩ | ⟨vb, tb, hcellB, htextB, hneB, hemptyB, hnamedB⟩
  · exact ⟨fun _ => .inr ⟨hdefaultA, hdefaultB⟩, fun _ => hnamedA.trans hnamedB.symm⟩
  · rw [hnamedA, hnamedB]
    refine ⟨fun h => absurd h.symm hneB, ?_⟩
    rintro (hkey | ⟨_, hdefault⟩)
    · exact absurd hkey (key_ne_of_defaultNamed hdefaultA hcellB htextB hneB hemptyB)
    · exact absurd hdefault (not_defaultNamed hcellB htextB hneB hemptyB)
  · rw [hnamedA, hnamedB]
    refine ⟨fun h => absurd h hneA, ?_⟩
    rintro (hkey | ⟨hdefault, _⟩)
    · exact absurd hkey.symm (key_ne_of_defaultNamed hdefaultB hcellA htextA hneA hemptyA)
    · exact absurd hdefault (not_defaultNamed hcellA htextA hneA hemptyA)
  · have hscalar : formatScalarValue format (a.get column) = formatScalarValue format (b.get column) ↔
        ta.toList = tb.toList := by
      simp [formatScalarValue, hcellA, hcellB, htextA, htextB, String.toList_inj]
    rw [hnamedA, hnamedB, ← hscalar, hcellA, hcellB, keyComponent_inj]
    have hdefault := not_defaultNamed hcellA htextA hneA hemptyA
    rw [hcellA] at hdefault
    simp [hdefault]

theorem NamedPaths.path_eq_iff {pattern : Text.Pattern UInt8 PlainTag} (hpattern : NamedPaths layout template pattern)
    (hlayout : layout.Of template columnOrder) (ha : a.Covers columnOrder) (hb : b.Covers columnOrder)
    (hcontextA : OutputTargetTemplate.context format a none = .ok contextA)
    (hcontextB : OutputTargetTemplate.context format b none = .ok contextB)
    (hpathA : Text.utf8 pathA = pattern.fill fun tag => nameBytes (columnText format a tag.column))
    (hpathB : Text.utf8 pathB = pattern.fill fun tag => nameBytes (columnText format b tag.column)) :
    pathA = pathB ↔ SameNames format columnOrder a b := by
  have hnames : ∀ column ∈ columnOrder, (nameBytes (columnText format a column) =
      nameBytes (columnText format b column) ↔ _) := fun column hcolumn =>
    nameBytes_inj.trans (namedText_eq_iff hcontextA hcontextB (ha column hcolumn) (hb column hcolumn))
  have hcolumn : ∀ tag ∈ pattern.keys, tag.column ∈ columnOrder := by
    intro tag htag
    rw [hpattern.keys] at htag
    exact (hlayout.columns tag.column).mp (List.mem_map_of_mem htag)
  constructor
  · rintro rfl column hmem
    obtain ⟨tag, htag, rfl⟩ := List.mem_map.mp ((hlayout.columns column).mpr hmem)
    refine (hnames tag.column hmem).mp ?_
    exact Text.Pattern.fill_injective hpattern.separated
      (fun _ _ _ hbyte => (mem_nameBytes hbyte).2.2) (fun _ _ _ hbyte => (mem_nameBytes hbyte).2.2)
      (hpathA.symm.trans hpathB) tag (hpattern.keys ▸ htag)
  · intro hsame
    apply Text.utf8_injective
    rw [hpathA, hpathB]
    exact Text.Pattern.fill_congr fun tag htag => (hnames _ (hcolumn tag htag)).mpr (hsame _ (hcolumn tag htag))

-- ---------------------------------------------------------------------------
-- Locations
-- ---------------------------------------------------------------------------

theorem validateSegments_ok {segments : List (List Char)}
    (h : OutputTargetTemplate.validateSegments segments = .ok ()) :
    ∀ s ∈ segments, s ≠ [] ∧ s ≠ ['.'] ∧ s ≠ ['.', '.'] := by
  induction segments with
  | nil => simp
  | cons segment segments ih =>
    unfold OutputTargetTemplate.validateSegments at h
    split at h
    · cases h
    split at h
    · cases h
    rename_i hempty hdots
    intro s hs
    rcases List.mem_cons.mp hs with rfl | hs
    · exact ⟨hempty, not_or.mp hdots⟩
    · exact ih h s hs

theorem validateObjectPath_ok (h : OutputTargetTemplate.validateObjectPath path = .ok ()) :
    ∀ s ∈ path.splitOn '/', s ≠ [] ∧ s ≠ ['.'] ∧ s ≠ ['.', '.'] := by
  unfold OutputTargetTemplate.validateObjectPath at h
  split at h
  · cases h
  · exact validateSegments_ok h

theorem head_ne_slash {path : List Char} (h : ∀ s ∈ path.splitOn '/', s ≠ [] ∧ s ≠ ['.'] ∧ s ≠ ['.', '.']) :
    path.head? ≠ some '/' := by
  intro hhead
  obtain ⟨rest, rfl⟩ : ∃ rest, path = '/' :: rest := by
    cases path with
    | nil => cases hhead
    | cons c rest => exact ⟨rest, by rw [Option.some.inj hhead]⟩
  refine (h [] ?_).1 rfl
  rw [List.splitOn_cons_eq_if_modifyHead]
  simp

theorem getLast_ne_slash {path : List Char} (h : ∀ s ∈ path.splitOn '/', s ≠ [] ∧ s ≠ ['.'] ∧ s ≠ ['.', '.']) :
    path.getLast? ≠ some '/' := by
  have hplain : PlainPath ('/' :: path) := ⟨rfl, by simpa using h⟩
  intro hlast
  obtain ⟨before, rfl⟩ := List.getLast?_eq_some_iff.mp hlast
  exact hplain.getLast (by rw [← List.cons_append, List.getLast?_concat])

theorem locationOf_url {crate : UrlCrate U}
    (h : OutputTargetTemplate.locationOf debug crate path (.url base) = .ok target)
    (hcrate : crate.Lawful) : ∃ url, target = .url ⟨url⟩ ∧
      crate.withSegments base ((path.splitOn '/').map String.ofList) = some url := by
  unfold OutputTargetTemplate.locationOf at h
  simp only at h
  split at h
  · cases h
  · rename_i url hurl
    obtain ⟨location, hlocation, rfl⟩ := Lists.map_eq_ok.mp (Lists.mapError_eq_ok.mp h)
    have hasStr := (Storage.parseUrl_ok hlocation).asStr
    obtain ⟨parsed⟩ := location
    obtain rfl : parsed = url := hcrate.asStr_inj _ _ hasStr
    exact ⟨parsed, rfl, hurl⟩

def placedUrl (crate : UrlCrate U) (base : U) (path : List Char) : Bytes :=
  if crate.scheme base = "file" then driveLetter (Text.utf8 path) else Text.utf8 path

theorem placedUrl_inj {crate : UrlCrate U} {path path' : List Char} (h : placedUrl crate base path = placedUrl crate base path')
    (hcount : (Text.utf8 path).count 58 = (Text.utf8 path').count 58) : path = path' := by
  apply Text.utf8_injective
  unfold placedUrl at h
  split at h
  · exact Storage.driveLetter_inj h hcount
  · exact h

theorem utf8_getLast_ne {path : List Char} (h : path.getLast? ≠ some '/') :
    (Text.utf8 path).getLast? ≠ some 47 :=
  fun hlast => h (Text.getLast?_utf8 (by decide) (by decide) hlast)

theorem placedUrl_getLast {crate : UrlCrate U} {path : List Char} (h : path.getLast? ≠ some '/') :
    (placedUrl crate base path).getLast? ≠ some 47 := by
  unfold placedUrl
  split
  · exact Storage.driveLetter_getLast (utf8_getLast_ne h)
  · exact utf8_getLast_ne h

/-- What a path of plain segments decodes to in a URL. -/
theorem withSegments_decodedPath {crate : UrlCrate U} (hcrate : crate.Lawful) {path : List Char}
    (hsegments : ∀ s ∈ path.splitOn '/', s ≠ [] ∧ s ≠ ['.'] ∧ s ≠ ['.', '.'])
    (hskipped : ∀ b ∈ Text.utf8 path, ¬ skipped b)
    (h : crate.withSegments base ((path.splitOn '/').map String.ofList) = some url) :
    crate.decodedPath url = 47 :: placedUrl crate base path := by
  have hplain : ∀ s ∈ path.splitOn '/', PlainSegment s := by
    intro s hs
    obtain ⟨hempty, hdot, hdots⟩ := hsegments s hs
    refine ⟨hempty, hdot, hdots, fun c hc => ?_⟩
    have hmem : ∀ b, String.utf8EncodeChar c = [b] → ¬ skipped b := fun b hb =>
      hskipped b (List.mem_flatMap.mpr ⟨c, Lists.mem_of_mem_splitOn hs hc, by simp [hb]⟩)
    refine ⟨fun heq => Lists.notMem_of_mem_splitOn hs (heq ▸ hc), ?_, ?_, ?_⟩
    · rintro rfl
      exact hmem 9 (by decide) (.inl rfl)
    · rintro rfl
      exact hmem 10 (by decide) (.inr (.inl rfl))
    · rintro rfl
      exact hmem 13 (by decide) (.inr (.inr rfl))
  have hdecoded := hcrate.withSegments base (path.splitOn '/') url hplain h
  rwa [List.intercalate_splitOn] at hdecoded

theorem locationOf_eq_iff {crate : UrlCrate U} (hcrate : crate.Lawful) {pathA pathB : List Char}
    (hvalidA : ∀ s ∈ pathA.splitOn '/', s ≠ [] ∧ s ≠ ['.'] ∧ s ≠ ['.', '.'])
    (hvalidB : ∀ s ∈ pathB.splitOn '/', s ≠ [] ∧ s ≠ ['.'] ∧ s ≠ ['.', '.'])
    (hskipped : envelope.isUrl = true → ∀ b, b ∈ Text.utf8 pathA ∨ b ∈ Text.utf8 pathB → ¬ skipped b)
    (hcount : (Text.utf8 pathA).count 58 = (Text.utf8 pathB).count 58)
    (hA : OutputTargetTemplate.locationOf debug crate pathA envelope = .ok targetA)
    (hB : OutputTargetTemplate.locationOf debug crate pathB envelope = .ok targetB) :
    targetA = targetB ↔ pathA = pathB := by
  constructor
  · rintro rfl
    cases envelope with
    | bare absolute =>
      have htext := (Except.ok.inj hA).trans (Except.ok.inj hB).symm
      exact List.append_cancel_left (String.ofList_injective (LocationInput.bare.inj htext))
    | url base =>
      obtain ⟨urlA, rfl, hurlA⟩ := locationOf_url hA hcrate
      obtain ⟨urlB, heq, hurlB⟩ := locationOf_url hB hcrate
      obtain rfl : urlA = urlB := Location.mk.inj (LocationInput.url.inj heq)
      have hdecodedA := withSegments_decodedPath hcrate hvalidA (fun b hb => hskipped rfl b (.inl hb)) hurlA
      have hdecodedB := withSegments_decodedPath hcrate hvalidB (fun b hb => hskipped rfl b (.inr hb)) hurlB
      exact placedUrl_inj (List.cons.inj (hdecodedA.symm.trans hdecodedB)).2 hcount
  · rintro rfl
    exact Except.ok.inj (hA.symm.trans hB)

-- ---------------------------------------------------------------------------
-- Targets
-- ---------------------------------------------------------------------------

theorem stripSlashes_plain {path : List Char} (h : PlainPath path) :
    47 :: Storage.stripSlashes (Text.utf8 path) = Text.utf8 path := by
  obtain ⟨rest, rfl⟩ : ∃ rest, path = '/' :: rest := by
    cases path with
    | nil => cases h.1
    | cons c rest => exact ⟨rest, by rw [Option.some.inj h.1]⟩
  have hcons : Text.utf8 ('/' :: rest) = 47 :: Text.utf8 rest := rfl
  have hlast : (Text.utf8 rest).getLast? ≠ some 47 := utf8_getLast_ne (getLast_ne_slash h.2)
  rw [hcons, Storage.stripSlashes_cons hlast]

theorem bare_decodedPath {session : StorageSession U P} {i : Fin session.backends.length} (hcrate : session.crate.Lawful)
    (hmaps : session.MapsPaths currentDir) (hplain : PlainPath (absolutePath currentDir text))
    (h : session.mapLocation i (.bare (String.ofList text)) = .ok location) :
    session.crate.decodedPath location.url = Text.utf8 (absolutePath currentDir text) := by
  unfold StorageSession.mapLocation at h
  simp only at h
  split at h
  · rename_i mapper hmapper
    have hlocation := Lists.mapError_eq_ok.mp h
    rw [hmaps i mapper hmapper] at hlocation
    simp only [Storage.mapBareLocation, String.toList_ofList] at hlocation
    split at hlocation
    · rename_i url hurl
      obtain rfl := Except.ok.inj hlocation
      exact hcrate.fromFilePath _ _ hplain hurl
    · cases hlocation
  · cases h

theorem bare_absolutePath (hdir : IsDirectory currentDir) (absolute : Bool) {pathA pathB : List Char}
    (hvalidA : ∀ s ∈ pathA.splitOn '/', s ≠ [] ∧ s ≠ ['.'] ∧ s ≠ ['.', '.'])
    (hvalidB : ∀ s ∈ pathB.splitOn '/', s ≠ [] ∧ s ≠ ['.'] ∧ s ≠ ['.', '.']) :
    ∃ before, (absolutePath currentDir ((if absolute then ['/'] else []) ++ pathA) = before ++ pathA ∧
        PlainPath (before ++ pathA)) ∧
      absolutePath currentDir ((if absolute then ['/'] else []) ++ pathB) = before ++ pathB ∧
        PlainPath (before ++ pathB) := by
  cases absolute with
  | true =>
    refine ⟨['/'], ⟨rfl, rfl, ?_⟩, rfl, rfl, ?_⟩
    · simpa using hvalidA
    · simpa using hvalidB
  | false =>
    obtain ⟨before, hbefore, hplainA⟩ := Storage.absolutePath_plain hdir hvalidA
    obtain ⟨before', hbefore', hplainB⟩ := Storage.absolutePath_plain hdir hvalidB
    obtain rfl : before = before' := by
      have h := (hbefore [] (by simp)).symm.trans (hbefore' [] (by simp))
      rwa [List.append_nil, List.append_nil] at h
    exact ⟨before, ⟨hbefore _ (head_ne_slash hvalidA), hplainA⟩, hbefore _ (head_ne_slash hvalidB), hplainB⟩

theorem path_eq_of_target {session : StorageSession U P} (hcrate : session.crate.Lawful)
    (hreads : session.ReadsPaths) (hmaps : session.MapsPaths currentDir) (hdir : IsDirectory currentDir)
    {pathA pathB : List Char} {targetA targetB : OutputTarget U P}
    (hvalidA : ∀ s ∈ pathA.splitOn '/', s ≠ [] ∧ s ≠ ['.'] ∧ s ≠ ['.', '.'])
    (hvalidB : ∀ s ∈ pathB.splitOn '/', s ≠ [] ∧ s ≠ ['.'] ∧ s ≠ ['.', '.'])
    (hskipped : envelope.isUrl = true → ∀ b, b ∈ Text.utf8 pathA ∨ b ∈ Text.utf8 pathB → ¬ skipped b)
    (hcount : (Text.utf8 pathA).count 58 = (Text.utf8 pathB).count 58)
    (hA : OutputTargetTemplate.locationOf debug session.crate pathA envelope = .ok inputA)
    (hB : OutputTargetTemplate.locationOf debug session.crate pathB envelope = .ok inputB)
    (htargetA : session.target inputA = .ok targetA) (htargetB : session.target inputB = .ok targetB)
    (h : targetA.objectPath = targetB.objectPath) : pathA = pathB := by
  obtain ⟨i, locationA, hlocationA, hreadA⟩ := Storage.target_ok htargetA
  obtain ⟨j, locationB, hlocationB, hreadB⟩ := Storage.target_ok htargetB
  rw [← h] at hreadB
  have hstrip : Storage.stripSlashes (session.crate.decodedPath locationA.url) =
      Storage.stripSlashes (session.crate.decodedPath locationB.url) := hreads _ _ _ hreadA hreadB
  cases envelope with
  | bare absolute =>
    obtain ⟨before, ⟨hpathA, hplainA⟩, hpathB, hplainB⟩ := bare_absolutePath hdir absolute hvalidA hvalidB
    obtain rfl := Except.ok.inj hA
    obtain rfl := Except.ok.inj hB
    rw [← hpathA] at hplainA
    rw [← hpathB] at hplainB
    rw [bare_decodedPath hcrate hmaps hplainA hlocationA, bare_decodedPath hcrate hmaps hplainB hlocationB]
      at hstrip
    have hbytes : Text.utf8 (before ++ pathA) = Text.utf8 (before ++ pathB) := by
      rw [← hpathA, ← hpathB, ← stripSlashes_plain hplainA, hstrip, stripSlashes_plain hplainB]
    exact List.append_cancel_left (Text.utf8_injective hbytes)
  | url base =>
    obtain ⟨urlA, rfl, hurlA⟩ := locationOf_url hA hcrate
    obtain ⟨urlB, rfl, hurlB⟩ := locationOf_url hB hcrate
    obtain rfl := Except.ok.inj hlocationA
    obtain rfl := Except.ok.inj hlocationB
    rw [withSegments_decodedPath hcrate hvalidA (fun b hb => hskipped rfl b (.inl hb)) hurlA,
      withSegments_decodedPath hcrate hvalidB (fun b hb => hskipped rfl b (.inr hb)) hurlB,
      Storage.stripSlashes_cons (placedUrl_getLast (getLast_ne_slash hvalidA)),
      Storage.stripSlashes_cons (placedUrl_getLast (getLast_ne_slash hvalidB))] at hstrip
    exact placedUrl_inj hstrip hcount

theorem separates_colon : separates 58 := by decide

/-- Two partitions of a layout share a target exactly when each column has one
name in both: the keys agree there, or both values go to the default
partition. -/
theorem shared_target_iff {session : StorageSession U P} (hcrate : session.crate.Lawful)
    (hreads : session.ReadsPaths) (hmaps : session.MapsPaths currentDir) (hdir : IsDirectory currentDir)
    {engine : Engine} (hnew : OutputTargetTemplate.new debug session.crate engine source = .ok template)
    (hlayout : layout.Of template columnOrder)
    (hengine : engine.Interpolates template.objectPathTemplate layout)
    (ha : a.Covers columnOrder) (hb : b.Covers columnOrder)
    (hA : template.render debug session.crate engine format a none = .ok inputA)
    (hB : template.render debug session.crate engine format b none = .ok inputB) :
    (inputA = inputB ↔ SameNames format columnOrder a b) ∧
      ∀ targetA targetB, session.target inputA = .ok targetA → session.target inputB = .ok targetB →
        (targetA.identity = targetB.identity ↔ SameNames format columnOrder a b) := by
  obtain ⟨pattern, hpattern, hrendered⟩ := exists_namedPaths hnew hlayout hengine format
  obtain ⟨pathA, hpathA, ⟨contextA, hcontextA⟩, hvalidA, hlocationA⟩ := hrendered ha hA
  obtain ⟨pathB, hpathB, ⟨contextB, hcontextB⟩, hvalidB, hlocationB⟩ := hrendered hb hB
  have hvalidA := validateObjectPath_ok hvalidA
  have hvalidB := validateObjectPath_ok hvalidB
  have hpaths := hpattern.path_eq_iff hlayout ha hb hcontextA hcontextB hpathA hpathB
  have hskipped : template.envelope.isUrl = true →
      ∀ b, b ∈ Text.utf8 pathA ∨ b ∈ Text.utf8 pathB → ¬ skipped b := by
    rintro hurl b (hmem | hmem)
    · exact hpattern.unskipped hurl (fun tag => columnText format _ tag.column) b (hpathA ▸ hmem)
    · exact hpattern.unskipped hurl (fun tag => columnText format _ tag.column) b (hpathB ▸ hmem)
  -- a colon is in no name, so that a drive letter shows
  have hcount : (Text.utf8 pathA).count 58 = (Text.utf8 pathB).count 58 := by
    rw [hpathA, hpathB]
    exact Text.Pattern.count_fill fun tag _ =>
      ⟨fun h => (mem_nameBytes h).2.2 separates_colon, fun h => (mem_nameBytes h).2.2 separates_colon⟩
  have hinputs := (locationOf_eq_iff hcrate hvalidA hvalidB hskipped hcount hlocationA hlocationB).trans hpaths
  refine ⟨hinputs, fun targetA targetB htargetA htargetB => ⟨fun hidentity => ?_, fun hsame => ?_⟩⟩
  · refine hpaths.mp (path_eq_of_target hcrate hreads hmaps hdir hvalidA hvalidB hskipped hcount hlocationA
      hlocationB htargetA htargetB ?_)
    exact (Storage.OutputTargetIdentity.mk.inj hidentity).2
  · obtain rfl := hinputs.mpr hsame
    rw [Except.ok.inj (htargetA.symm.trans htargetB)]

-- ---------------------------------------------------------------------------
-- One layout
-- ---------------------------------------------------------------------------

def interpolate (environment : TemplateEnvironment) (context : TemplateContext) :
    List Lexeme → Except Error (List Char)
  | [] => .ok []
  | .plain c :: rest => (interpolate environment context rest).map (c :: ·)
  | .tag .expression body :: rest =>
    match context.lookup (String.ofList (body.filter (· ≠ ' '))) with
    | some value => (interpolate environment context rest).map (environment.formatter value ++ ·)
    | none => .error (.message "undefined value")
  | .tag .. :: _ => .error (.message "unsupported tag")

def plainEngine : Engine where
  templateFromStr source := (lexemes source).map fun _ => ()
  render source environment context := lexemes source >>= interpolate environment context

theorem interpolate_plain (environment : TemplateEnvironment) (context : TemplateContext) (text : List Char)
    (rest : List Lexeme) : interpolate environment context (text.map .plain ++ rest) =
      (interpolate environment context rest).map (text ++ ·) := by
  induction text with
  | nil => cases h : interpolate environment context rest <;> simp [h, Except.map]
  | cons c text ih =>
    rw [List.map_cons, List.cons_append, interpolate, ih]
    cases interpolate environment context rest <;> rfl

theorem plainEngine_render {values : PlainTag → Value} (hsource : lexemes source = .ok layout.lexemes)
    (hnames : ∀ tag ∈ layout.keys, tag.column.toList.all (· ≠ ' ') = true)
    (hvalues : ∀ tag ∈ layout.keys, context.lookup tag.column = some (values tag)) :
    plainEngine.render source environment context =
      .ok (layout.fill fun tag => environment.formatter (values tag)) := by
  have hrender : plainEngine.render source environment context =
      interpolate environment context layout.lexemes := by
    simp [plainEngine, hsource, bind, Except.bind]
  rw [hrender]
  obtain ⟨slots, ending⟩ := layout
  clear hsource hrender
  show interpolate environment context (Text.Pattern.fillSlots _ (ending.map .plain)
    (slots.map fun s => (s.1.map Lexeme.plain, s.2))) = .ok (Text.Pattern.fillSlots _ ending slots)
  induction slots with
  | nil => simpa [Text.Pattern.fillSlots, interpolate, Except.map] using
      interpolate_plain environment context ending []
  | cons s slots ih =>
    have hname : String.ofList (s.2.body.filter (· ≠ ' ')) = s.2.column := by
      have := hnames s.2 (List.mem_map_of_mem List.mem_cons_self)
      have hkeep : s.2.column.toList.filter (· ≠ ' ') = s.2.column.toList :=
        List.filter_eq_self.mpr (List.all_eq_true.mp this)
      simp only [PlainTag.body, List.filter_append, hkeep]
      simp
    have hlookup := hvalues s.2 (List.mem_map_of_mem List.mem_cons_self)
    have hrest := ih (fun tag htag => hnames tag (List.mem_cons_of_mem _ htag))
      (fun tag htag => hvalues tag (List.mem_cons_of_mem _ htag))
    rw [List.map_cons, Text.Pattern.fillSlots, Text.Pattern.fillSlots, List.append_assoc, interpolate_plain,
      List.singleton_append, interpolate, hname]
    simp only [hlookup, hrest, Except.map, List.append_assoc]

theorem plainEngine_interpolates (hsource : lexemes source = .ok layout.lexemes)
    (hnames : ∀ tag ∈ layout.keys, tag.column.toList.all (· ≠ ' ') = true) :
    plainEngine.Interpolates source layout :=
  ⟨layout.ending, [], by simp, by simp, fun _ _ _ hvalues => plainEngine_render hsource hnames hvalues⟩

def escapesAscii (b : UInt8) : Bool := b ≤ 32 || b = Percent.percent || 127 ≤ b

def localCrate : UrlCrate String where
  parse := .ok
  asStr := id
  scheme _ := "file"
  username _ := ""
  password _ := none
  path url := String.ofList (url.toList.drop 7)
  toFilePath url := some (String.ofList (url.toList.drop 7))
  fromFilePath path :=
    some ("file://" ++ String.ofList ((Percent.encode escapesAscii (asBytes path)).map Text.asciiChar))
  setRootPath _ := "file:///"
  clearQuery := id
  clearFragment := id
  withSegments _ _ := none

def localBackend : Storage.BackendBinding String :=
  ⟨"local", fun _ => true, some (Storage.mapBareLocation localCrate ['/']), fun _ => .ok ()⟩

def localSession : StorageSession String Bytes where
  crate := localCrate
  fromUrlPath path := .ok (Storage.stripSlashes (Percent.decode (asBytes path)))
  backends := [localBackend]
  backendIndexByScheme scheme := if scheme = "file" then some ⟨0, Nat.zero_lt_one⟩ else none
  bareLocationBackendIndex := some ⟨⟨0, Nat.zero_lt_one⟩, rfl⟩

theorem encode_escapesAscii_lt (path : Bytes) : ∀ b ∈ Percent.encode escapesAscii path, b < 128 := by
  intro b hb
  rcases Percent.mem_encode hb with hplain | rfl | hdigit | hdigit
  · simp only [escapesAscii, Bool.or_eq_false_iff, decide_eq_false_iff_not, UInt8.not_le] at hplain
    exact UInt8.lt_trans hplain.2 (by decide)
  · decide
  · exact UInt8.lt_of_le_of_lt hdigit.2 (by decide)
  · exact UInt8.lt_of_le_of_lt hdigit.2 (by decide)

theorem decode_escapesAscii (path : Bytes) :
    Percent.decode (Text.utf8 ((Percent.encode escapesAscii path).map Text.asciiChar)) = path := by
  rw [Text.utf8_map_asciiChar (encode_escapesAscii_lt path), Percent.decode_encode (by decide)]

theorem localCrate_lawful : localCrate.Lawful where
  asStr_inj _ _ h := h
  withSegments _ _ _ _ h := nomatch h
  fromFilePath := by
    intro path url _ h
    obtain rfl := Option.some.inj h
    simp only [UrlCrate.decodedPath, localCrate, asBytes, String.toList_append, String.toList_ofList]
    exact decode_escapesAscii (Text.utf8 path)

def regionLayout : HiveLayout := ⟨[("region=".toList, ⟨"region", 1, 1⟩)], "/part.parquet".toList⟩

def regionTemplate : OutputTargetTemplate String :=
  ⟨"region=\x7b\x7b region \x7d\x7d/part.parquet".toList, .bare false⟩

def regionValues (cell : Cell String) : PartitionValues String := [("region", cell)]

theorem regionTemplate_new (debug : Debug) : OutputTargetTemplate.new debug localCrate plainEngine
    "region=\x7b\x7b region \x7d\x7d/part.parquet" = .ok regionTemplate := rfl

theorem regionLayout_of : regionLayout.Of regionTemplate ["region"] where
  source := by decide
  separated := by simp [Text.Pattern.Separated, regionLayout]
  columns := by simp [HiveLayout.columns, Text.Pattern.keys, regionLayout]
  unskipped h := nomatch h

theorem regionLayout_interpolates :
    plainEngine.Interpolates regionTemplate.objectPathTemplate regionLayout :=
  plainEngine_interpolates regionLayout_of.source (by decide)

/-- Two regions have their own targets. -/
theorem shared_target_iff_regions : ∃ inputA inputB targetA targetB,
    regionTemplate.render ⟨id, fun _ => ""⟩ localCrate plainEngine some (regionValues (some "US")) none = .ok inputA ∧
    regionTemplate.render ⟨id, fun _ => ""⟩ localCrate plainEngine some (regionValues (some "EU")) none = .ok inputB ∧
    localSession.target inputA = .ok targetA ∧ localSession.target inputB = .ok targetB ∧
    (inputA = inputB ↔ SameNames some ["region"] (regionValues (some "US")) (regionValues (some "EU"))) ∧
    (targetA.identity = targetB.identity ↔
      SameNames some ["region"] (regionValues (some "US")) (regionValues (some "EU"))) := by
  have hA : regionTemplate.render ⟨id, fun _ => ""⟩ localCrate plainEngine some (regionValues (some "US")) none =
    .ok (.bare "region=US/part.parquet") := rfl
  have hB : regionTemplate.render ⟨id, fun _ => ""⟩ localCrate plainEngine some (regionValues (some "EU")) none =
    .ok (.bare "region=EU/part.parquet") := rfl
  have htargetA : localSession.target (.bare "region=US/part.parquet") =
    .ok ⟨"file:///region=US/part.parquet", "file:///", asBytes "region=US/part.parquet"⟩ := rfl
  have htargetB : localSession.target (.bare "region=EU/part.parquet") =
    .ok ⟨"file:///region=EU/part.parquet", "file:///", asBytes "region=EU/part.parquet"⟩ := rfl
  have hreads : localSession.ReadsPaths := by
    intro path path' objectPath h h'
    exact (Except.ok.inj h).trans (Except.ok.inj h').symm
  have hmaps : localSession.MapsPaths ['/'] := by
    rintro ⟨i, hi⟩ mapper hmapper
    obtain rfl : i = 0 := Nat.lt_one_iff.mp hi
    exact (Option.some.inj hmapper).symm
  have hshared := shared_target_iff localCrate_lawful hreads hmaps
    (.inl rfl) (regionTemplate_new ⟨id, fun _ => ""⟩) regionLayout_of regionLayout_interpolates ?_ ?_ hA hB
  · exact ⟨_, _, _, _, hA, hB, htargetA, htargetB, hshared.1, hshared.2 _ _ htargetA htargetB⟩
  · simp [PartitionValues.Covers, PartitionValues.get, regionValues]
  · simp [PartitionValues.Covers, PartitionValues.get, regionValues]

/-- Null, the empty text and the default name have their own keys, but one
target. -/
theorem default_partition_shared : regionLayout.Of regionTemplate ["region"] ∧
    plainEngine.Interpolates regionTemplate.objectPathTemplate regionLayout ∧
    ∃ input, ∀ cell ∈ ([none, some "", some "__HIVE_DEFAULT_PARTITION__"] : List (Cell String)),
      regionTemplate.render ⟨id, fun _ => ""⟩ localCrate plainEngine some (regionValues cell) none = .ok input ∧
      ∀ cell' ∈ ([none, some "", some "__HIVE_DEFAULT_PARTITION__"] : List (Cell String)), cell' ≠ cell →
        partitionKey some (regionValues cell') ["region"] ≠ partitionKey some (regionValues cell) ["region"] := by
  refine ⟨regionLayout_of, regionLayout_interpolates,
    .bare "region=__HIVE_DEFAULT_PARTITION__/part.parquet", ?_⟩
  simp only [List.forall_mem_cons]
  refine ⟨⟨rfl, ?_⟩, ⟨rfl, ?_⟩, ⟨rfl, ?_⟩, by simp⟩ <;> decide

end SilkChiffon.FileOutput
