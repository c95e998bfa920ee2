import SilkChiffon.Core.MemoryPool
import SilkChiffon.Lib.Segments

/-!
# Memory budgets

The text of `--memory-budget`: a byte size, or a keyword with segments between
colons. The parser reads four segments and does not look for more.
-/

namespace SilkChiffon.Cli

open MemoryPool (Usize)

/-- The `bytesize` crate's reading of a size. -/
abbrev ByteSizes := List Char → Option Usize

def totalKeyword : List Char := ['t', 'o', 't', 'a', 'l']
def availableKeyword : List Char := ['a', 'v', 'a', 'i', 'l', 'a', 'b', 'l', 'e']
def reserveKeyword : List Char := ['r', 'e', 's', 'e', 'r', 'v', 'e']
def minKeyword : List Char := ['m', 'i', 'n']

/-- A size is a number with a unit: it has no colon, and it is no keyword. -/
structure ByteSizes.Lawful (sizes : ByteSizes) : Prop where
  colon : ∀ text n, sizes text = some n → ':' ∉ text
  keyword : ∀ text n, sizes text = some n →
    text.map Char.toLower ∉ [totalKeyword, availableKeyword, reserveKeyword]

def parseNonzeroByteSize (sizes : ByteSizes) (s : List Char) : Except String Usize :=
  match sizes s with
  | none => .error s!"invalid byte size '{String.ofList s}': expected format like '512MB', '2GB', or '1GiB'"
  | some bytes => if bytes = 0 then .error "value must be greater than 0" else .ok bytes

inductive MemoryBudgetSpec
  | total (pct : UInt8) (min : Option Usize)
  | available (pct : UInt8) (min : Option Usize)
  | fixed (n : Usize)
  | reserve (reserve : Usize) (min : Option Usize)
  deriving DecidableEq, Repr

def withoutSign (s : List Char) : List Char := if s.head? = some '+' then s.tail else s

def unsignedText (s : List Char) : Option Nat :=
  if withoutSign s ≠ [] ∧ (withoutSign s).all Char.isDigit then some (Nat.ofDigitChars 10 (withoutSign s) 0)
  else none

def parseU8 (s : List Char) : Option UInt8 :=
  match unsignedText s with
  | some n => if n < 256 then some (UInt8.ofNat n) else none
  | none => none

def stripPercent (s : List Char) : List Char := if s.getLast? = some '%' then s.dropLast else s

def parsePercent (s : Option (List Char)) (default : UInt8) : Except String UInt8 :=
  match s with
  | none => .ok default
  | some s =>
    match parseU8 (stripPercent s) with
    | none => .error s!"invalid percentage '{String.ofList (stripPercent s)}': expected 1-100"
    | some pct =>
      if pct = 0 ∨ 100 < pct then .error s!"percentage must be between 1 and 100, got {pct}" else .ok pct

def parseOptionalMin (sizes : ByteSizes) (parts : List (List Char)) (offset : Nat) :
    Except String (Option Usize) :=
  match parts[offset]? with
  | none => .ok none
  | some segment =>
    if segment = minKeyword then
      match parts[offset + 1]? with
      | none => .error "min requires a byte size, e.g. 'min:4GB'"
      | some val => (parseNonzeroByteSize sizes val).map some
    else .error s!"unexpected segment '{String.ofList segment}': expected 'min'"

/-- `s` is the text that was cut into `parts`. -/
def MemoryBudgetSpec.ofSegments (sizes : ByteSizes) (s : List Char) (parts : List (List Char)) :
    Except String MemoryBudgetSpec := do
  let keyword := (parts.headD []).map Char.toLower
  if keyword = totalKeyword ∨ keyword = availableKeyword then
    let pct ← parsePercent parts[1]? 80
    let min ← parseOptionalMin sizes parts 2
    return if keyword = totalKeyword then .total pct min else .available pct min
  else if keyword = reserveKeyword then
    match parts[1]? with
    | none => throw "reserve requires a byte size, e.g. 'reserve:2GB'"
    | some val =>
      let reserve ← parseNonzeroByteSize sizes val
      let min ← parseOptionalMin sizes parts 2
      return .reserve reserve min
  else if 1 < parts.length then
    throw s!"unknown keyword '{String.ofList keyword}': expected 'total', 'available', 'reserve', or a byte size"
  else (parseNonzeroByteSize sizes s).map .fixed

def MemoryBudgetSpec.fromStr (sizes : ByteSizes) (s : List Char) : Except String MemoryBudgetSpec :=
  MemoryBudgetSpec.ofSegments sizes s (s.splitOn ':')

-- ---------------------------------------------------------------------------
-- The grammar
-- ---------------------------------------------------------------------------

def IsSize (sizes : ByteSizes) (text : List Char) (n : Usize) : Prop := sizes text = some n ∧ n ≠ 0

/-- A number from 1 to 100, with a percent sign behind it or not. -/
def IsPercentage (text : List Char) (pct : UInt8) : Prop :=
  ∃ digits n, (text = digits ∨ text = digits ++ ['%']) ∧ unsignedText digits = some n ∧ 1 ≤ n ∧ n ≤ 100 ∧
    pct = UInt8.ofNat n

def IsKeyword (keyword text : List Char) : Prop := text.map Char.toLower = keyword

inductive MinSuffix (sizes : ByteSizes) : List (List Char) → Option Usize → Prop
  | absent : MinSuffix sizes [] none
  | present : IsSize sizes text n → MinSuffix sizes [minKeyword, text] (some n)

/-- The segments of a budget, and what they mean. -/
inductive Written (sizes : ByteSizes) : List (List Char) → MemoryBudgetSpec → Prop
  | size : IsSize sizes text n → Written sizes [text] (.fixed n)
  | total : IsKeyword totalKeyword k → Written sizes [k] (.total 80 none)
  | totalOf : IsKeyword totalKeyword k → IsPercentage p pct → MinSuffix sizes suffix least →
      Written sizes (k :: p :: suffix) (.total pct least)
  | available : IsKeyword availableKeyword k → Written sizes [k] (.available 80 none)
  | availableOf : IsKeyword availableKeyword k → IsPercentage p pct → MinSuffix sizes suffix least →
      Written sizes (k :: p :: suffix) (.available pct least)
  | reserve : IsKeyword reserveKeyword k → IsSize sizes text n → MinSuffix sizes suffix least →
      Written sizes (k :: text :: suffix) (.reserve n least)

def Denotes (sizes : ByteSizes) (text : List Char) (spec : MemoryBudgetSpec) : Prop :=
  ∃ segments, text = [':'].intercalate segments ∧ Written sizes segments spec

/-- A colon follows a budget of four segments. -/
def Overrun (sizes : ByteSizes) (text : List Char) : Prop :=
  ∃ segments tail spec, text = [':'].intercalate segments ++ ':' :: tail ∧ segments.length = 4 ∧
    Written sizes segments spec

-- ---------------------------------------------------------------------------
-- Segments
-- ---------------------------------------------------------------------------

variable {sizes : ByteSizes}

theorem parseNonzeroByteSize_ok : parseNonzeroByteSize sizes s = .ok n ↔ IsSize sizes s n := by
  unfold parseNonzeroByteSize IsSize
  cases sizes s with
  | none => simp
  | some bytes =>
    by_cases h : bytes = 0
    · simp only [h, ↓reduceIte, reduceCtorEq, Option.some.injEq, false_iff, not_and]
      exact fun heq hne => hne heq.symm
    · simp only [h, ↓reduceIte, Except.ok.injEq, Option.some.injEq]
      exact ⟨fun heq => ⟨heq, heq ▸ h⟩, And.left⟩

theorem getLast?_withoutSign (h : withoutSign s ≠ []) : (withoutSign s).getLast? = s.getLast? := by
  unfold withoutSign at h ⊢
  split
  · rename_i hsign
    rw [if_pos hsign] at h
    cases s with
    | nil => cases hsign
    | cons c rest =>
      obtain ⟨d, rest, rfl⟩ := List.exists_cons_of_ne_nil h
      simp
  · rfl

theorem unsignedText_last (h : unsignedText s = some n) : s.getLast? ≠ some '%' := by
  unfold unsignedText at h
  split at h
  · rename_i hdigits
    intro hlast
    have hmem := List.mem_of_getLast? ((getLast?_withoutSign hdigits.1).trans hlast)
    have hpercent := List.all_eq_true.mp hdigits.2 _ hmem
    cases hpercent
  · cases h

theorem stripPercent_cases (p : List Char) : p = stripPercent p ∨ p = stripPercent p ++ ['%'] := by
  unfold stripPercent
  split
  · rename_i h
    obtain ⟨front, rfl⟩ := List.getLast?_eq_some_iff.mp h
    exact .inr (by simp)
  · exact .inl rfl

theorem parseU8_ok : parseU8 s = some pct ↔ ∃ n, unsignedText s = some n ∧ n < 256 ∧ pct = UInt8.ofNat n := by
  unfold parseU8
  cases unsignedText s with
  | none => simp
  | some n =>
    by_cases h : n < 256
    · simp [h, eq_comm]
    · simp [h]

theorem ofNat_in_range (h : n < 256) : ¬ (UInt8.ofNat n = 0 ∨ 100 < UInt8.ofNat n) ↔ 1 ≤ n ∧ n ≤ 100 := by
  have htoNat : (UInt8.ofNat n).toNat = n := UInt8.toNat_ofNat_of_lt' h
  rw [← UInt8.toNat_inj, UInt8.lt_iff_toNat_lt, htoNat]
  show ¬ (n = 0 ∨ 100 < n) ↔ 1 ≤ n ∧ n ≤ 100
  omega

theorem parsePercent_ok : parsePercent (some p) default = .ok pct ↔ IsPercentage p pct := by
  constructor
  · intro h
    simp only [parsePercent] at h
    split at h
    · cases h
    · rename_i pct' hpct
      obtain ⟨n, hn, hlt, rfl⟩ := parseU8_ok.mp hpct
      split at h
      · cases h
      · rename_i hrange
        obtain rfl := Except.ok.inj h
        obtain ⟨hmin, hmax⟩ := (ofNat_in_range hlt).mp hrange
        exact ⟨stripPercent p, n, stripPercent_cases p, hn, hmin, hmax, rfl⟩
  · rintro ⟨digits, n, hp, hn, hmin, hmax, rfl⟩
    have hstrip : stripPercent p = digits := by
      rcases hp with rfl | rfl
      · exact if_neg (unsignedText_last hn)
      · simp [stripPercent]
    have hlt : n < 256 := by omega
    simp only [parsePercent, hstrip, parseU8_ok.mpr ⟨n, hn, hlt, rfl⟩]
    exact if_neg ((ofNat_in_range hlt).mpr ⟨hmin, hmax⟩)

theorem parseOptionalMin_ok (h : suffix.length ≤ 2) :
    parseOptionalMin sizes (k :: p :: suffix) 2 = .ok least ↔ MinSuffix sizes suffix least := by
  match suffix with
  | [] =>
    constructor
    · intro h
      obtain rfl := Except.ok.inj h
      exact .absent
    · rintro ⟨⟩
      rfl
  | [x] =>
    constructor
    · intro h
      simp only [parseOptionalMin, List.getElem?_cons_succ, List.getElem?_cons_zero, List.getElem?_nil] at h
      split at h <;> cases h
    · rintro ⟨⟩
  | [x, y] =>
    simp only [parseOptionalMin, List.getElem?_cons_succ, List.getElem?_cons_zero]
    constructor
    · intro h
      split at h
      · rename_i hx
        obtain ⟨n, hn, rfl⟩ := Lists.map_eq_ok.mp h
        exact hx ▸ .present (parseNonzeroByteSize_ok.mp hn)
      · cases h
    · rintro ⟨⟩
      rename_i n hn
      rw [if_pos rfl, parseNonzeroByteSize_ok.mpr hn]
      rfl
  | _ :: _ :: _ :: _ => simp at h

theorem eq_of_splitOn_single {part : List Char} (h : s.splitOn ':' = [part]) : s = part := by
  have hwhole : [':'].intercalate (s.splitOn ':') = s := List.intercalate_splitOn ':'
  simpa [h] using hwhole.symm

theorem ofSegments_take (sizes : ByteSizes) (s : List Char) (parts : List (List Char)) :
    MemoryBudgetSpec.ofSegments sizes s (parts.take 4) = MemoryBudgetSpec.ofSegments sizes s parts := by
  have hmin : parseOptionalMin sizes (parts.take 4) 2 = parseOptionalMin sizes parts 2 := by
    simp [parseOptionalMin]
  have hlen : (1 < (parts.take 4).length) = (1 < parts.length) := by
    rw [List.length_take, eq_iff_iff]
    omega
  have hhead : (parts.take 4).headD [] = parts.headD [] := by cases parts <;> rfl
  have hsecond : (parts.take 4)[1]? = parts[1]? := by simp
  unfold MemoryBudgetSpec.ofSegments
  simp only [hmin, hlen, hhead, hsecond]

theorem keywords_apart : totalKeyword ≠ availableKeyword ∧ totalKeyword ≠ reserveKeyword ∧
    availableKeyword ≠ reserveKeyword := by decide

theorem ofSegments_total (h : IsKeyword totalKeyword k) (rest : List (List Char)) :
    MemoryBudgetSpec.ofSegments sizes s (k :: rest) = do
      let pct ← parsePercent rest[0]? 80
      let least ← parseOptionalMin sizes (k :: rest) 2
      return .total pct least := by
  rw [IsKeyword] at h
  simp [MemoryBudgetSpec.ofSegments, h]

theorem ofSegments_available (h : IsKeyword availableKeyword k) (rest : List (List Char)) :
    MemoryBudgetSpec.ofSegments sizes s (k :: rest) = do
      let pct ← parsePercent rest[0]? 80
      let least ← parseOptionalMin sizes (k :: rest) 2
      return .available pct least := by
  rw [IsKeyword] at h
  simp [MemoryBudgetSpec.ofSegments, h, keywords_apart.1.symm]

theorem ofSegments_reserve (h : IsKeyword reserveKeyword k) (rest : List (List Char)) :
    MemoryBudgetSpec.ofSegments sizes s (k :: rest) =
      match rest[0]? with
      | none => throw "reserve requires a byte size, e.g. 'reserve:2GB'"
      | some val => do
        let reserve ← parseNonzeroByteSize sizes val
        let least ← parseOptionalMin sizes (k :: rest) 2
        return .reserve reserve least := by
  rw [IsKeyword] at h
  simp [MemoryBudgetSpec.ofSegments, h, keywords_apart.2.1.symm, keywords_apart.2.2.symm]

theorem throw_ne_ok {e : String} {spec : MemoryBudgetSpec} : ¬ (throw e : Except String MemoryBudgetSpec) = .ok spec :=
  nofun

theorem ofSegments_other (h : ¬ IsKeyword totalKeyword k) (h' : ¬ IsKeyword availableKeyword k)
    (h'' : ¬ IsKeyword reserveKeyword k) (rest : List (List Char)) :
    MemoryBudgetSpec.ofSegments sizes s (k :: rest) = .ok spec ↔
      rest = [] ∧ ∃ n, IsSize sizes s n ∧ spec = .fixed n := by
  have hkeyword : ¬ (k.map Char.toLower = totalKeyword ∨ k.map Char.toLower = availableKeyword) :=
    fun hk => hk.elim h h'
  have hreserve : ¬ k.map Char.toLower = reserveKeyword := h''
  unfold MemoryBudgetSpec.ofSegments
  dsimp only [List.headD_cons]
  rw [if_neg hkeyword, if_neg hreserve]
  cases rest with
  | nil =>
    rw [if_neg (by simp), Lists.map_eq_ok]
    simp only [parseNonzeroByteSize_ok, true_and]
    exact exists_congr fun n => and_congr_right fun _ => eq_comm
  | cons p suffix =>
    rw [if_pos (by simp)]
    exact iff_of_false throw_ne_ok fun h => List.cons_ne_nil _ _ h.1

def Share (sizes : ByteSizes) (make : UInt8 → Option Usize → MemoryBudgetSpec) (rest : List (List Char))
    (spec : MemoryBudgetSpec) : Prop :=
  (rest = [] ∧ spec = make 80 none) ∨ ∃ p suffix pct least, rest = p :: suffix ∧ IsPercentage p pct ∧
    MinSuffix sizes suffix least ∧ spec = make pct least

theorem suffix_length {suffix : List (List Char)} (h : (k :: text :: suffix).length ≤ 4) : suffix.length ≤ 2 := by
  rw [List.length_cons, List.length_cons] at h
  omega

theorem share_ok {make : UInt8 → Option Usize → MemoryBudgetSpec} (hlen : (k :: rest).length ≤ 4) : (do
      let pct ← parsePercent rest[0]? 80
      let least ← parseOptionalMin sizes (k :: rest) 2
      return make pct least) = .ok spec ↔ Share sizes make rest spec := by
  simp only [Lists.bind_eq_ok]
  constructor
  · rintro ⟨pct, hpct, least, hleast, h⟩
    obtain rfl := Except.ok.inj h
    cases rest with
    | nil =>
      obtain rfl := Except.ok.inj hpct
      obtain rfl := Except.ok.inj hleast
      exact .inl ⟨rfl, rfl⟩
    | cons p suffix =>
      exact .inr ⟨p, suffix, pct, least, rfl, parsePercent_ok.mp hpct,
        (parseOptionalMin_ok (suffix_length hlen)).mp hleast, rfl⟩
  · rintro (⟨rfl, rfl⟩ | ⟨p, suffix, pct, least, rfl, hpct, hleast, rfl⟩)
    · exact ⟨80, rfl, none, rfl, rfl⟩
    · exact ⟨pct, parsePercent_ok.mpr hpct, least, (parseOptionalMin_ok (suffix_length hlen)).mpr hleast, rfl⟩

theorem size_notKeyword (hsizes : sizes.Lawful) (h : IsSize sizes k n) :
    ¬ IsKeyword totalKeyword k ∧ ¬ IsKeyword availableKeyword k ∧ ¬ IsKeyword reserveKeyword k := by
  simpa [IsKeyword] using hsizes.keyword k n h.1

theorem IsKeyword.apart (h : IsKeyword keyword k) (hne : keyword ≠ keyword') : ¬ IsKeyword keyword' k :=
  fun h' => hne (h.symm.trans h')

theorem written_total (hsizes : sizes.Lawful) (hk : IsKeyword totalKeyword k) :
    Written sizes (k :: rest) spec ↔ Share sizes .total rest spec := by
  constructor
  · intro h
    cases h with
    | size hsize => exact absurd hk (size_notKeyword hsizes hsize).1
    | total _ => exact .inl ⟨rfl, rfl⟩
    | totalOf _ hpct hleast => exact .inr ⟨_, _, _, _, rfl, hpct, hleast, rfl⟩
    | available hk' => exact absurd hk' (hk.apart keywords_apart.1)
    | availableOf hk' => exact absurd hk' (hk.apart keywords_apart.1)
    | reserve hk' => exact absurd hk' (hk.apart keywords_apart.2.1)
  · rintro (⟨rfl, rfl⟩ | ⟨p, suffix, pct, least, rfl, hpct, hleast, rfl⟩)
    · exact .total hk
    · exact .totalOf hk hpct hleast

theorem written_available (hsizes : sizes.Lawful) (hk : IsKeyword availableKeyword k) :
    Written sizes (k :: rest) spec ↔ Share sizes .available rest spec := by
  constructor
  · intro h
    cases h with
    | size hsize => exact absurd hk (size_notKeyword hsizes hsize).2.1
    | total hk' => exact absurd hk' (hk.apart keywords_apart.1.symm)
    | totalOf hk' => exact absurd hk' (hk.apart keywords_apart.1.symm)
    | available _ => exact .inl ⟨rfl, rfl⟩
    | availableOf _ hpct hleast => exact .inr ⟨_, _, _, _, rfl, hpct, hleast, rfl⟩
    | reserve hk' => exact absurd hk' (hk.apart keywords_apart.2.2)
  · rintro (⟨rfl, rfl⟩ | ⟨p, suffix, pct, least, rfl, hpct, hleast, rfl⟩)
    · exact .available hk
    · exact .availableOf hk hpct hleast

theorem written_reserve (hsizes : sizes.Lawful) (hk : IsKeyword reserveKeyword k) :
    Written sizes (k :: rest) spec ↔ ∃ text suffix n least, rest = text :: suffix ∧ IsSize sizes text n ∧
      MinSuffix sizes suffix least ∧ spec = .reserve n least := by
  constructor
  · intro h
    cases h with
    | size hsize => exact absurd hk (size_notKeyword hsizes hsize).2.2
    | total hk' => exact absurd hk' (hk.apart keywords_apart.2.1.symm)
    | totalOf hk' => exact absurd hk' (hk.apart keywords_apart.2.1.symm)
    | available hk' => exact absurd hk' (hk.apart keywords_apart.2.2.symm)
    | availableOf hk' => exact absurd hk' (hk.apart keywords_apart.2.2.symm)
    | reserve _ hsize hleast => exact ⟨_, _, _, _, rfl, hsize, hleast, rfl⟩
  · rintro ⟨text, suffix, n, least, rfl, hsize, hleast, rfl⟩
    exact .reserve hk hsize hleast

theorem written_other (h : ¬ IsKeyword totalKeyword k) (h' : ¬ IsKeyword availableKeyword k)
    (h'' : ¬ IsKeyword reserveKeyword k) :
    Written sizes (k :: rest) spec ↔ rest = [] ∧ ∃ n, IsSize sizes k n ∧ spec = .fixed n := by
  constructor
  · intro hwritten
    cases hwritten with
    | size hsize => exact ⟨rfl, _, hsize, rfl⟩
    | total hk => exact absurd hk h
    | totalOf hk => exact absurd hk h
    | available hk => exact absurd hk h'
    | availableOf hk => exact absurd hk h'
    | reserve hk => exact absurd hk h''
  · rintro ⟨rfl, n, hsize, rfl⟩
    exact .size hsize

theorem ofSegments_ok (hsizes : sizes.Lawful) (hne : parts ≠ []) (hlen : parts.length ≤ 4)
    (hs : ∀ part, parts = [part] → s = part) :
    MemoryBudgetSpec.ofSegments sizes s parts = .ok spec ↔ Written sizes parts spec := by
  obtain ⟨k, rest, rfl⟩ := List.exists_cons_of_ne_nil hne
  by_cases htotal : IsKeyword totalKeyword k
  · rw [ofSegments_total htotal, share_ok hlen, written_total hsizes htotal]
  by_cases havailable : IsKeyword availableKeyword k
  · rw [ofSegments_available havailable, share_ok hlen, written_available hsizes havailable]
  by_cases hreserve : IsKeyword reserveKeyword k
  · rw [ofSegments_reserve hreserve, written_reserve hsizes hreserve]
    cases rest with
    | nil => exact iff_of_false throw_ne_ok (by rintro ⟨_, _, _, _, h, _⟩; cases h)
    | cons text suffix =>
      simp only [List.getElem?_cons_zero, Lists.bind_eq_ok, parseNonzeroByteSize_ok,
        parseOptionalMin_ok (suffix_length hlen)]
      constructor
      · rintro ⟨n, hsize, least, hleast, h⟩
        obtain rfl := Except.ok.inj h
        exact ⟨text, suffix, n, least, rfl, hsize, hleast, rfl⟩
      · rintro ⟨text', suffix', n, least, heq, hsize, hleast, rfl⟩
        obtain ⟨rfl, rfl⟩ := List.cons.inj heq
        exact ⟨n, hsize, least, hleast, rfl⟩
  · rw [ofSegments_other htotal havailable hreserve, written_other htotal havailable hreserve]
    refine and_congr_right fun hrest => ?_
    rw [hs k (by rw [hrest])]

-- ---------------------------------------------------------------------------
-- Texts
-- ---------------------------------------------------------------------------

theorem MinSuffix.length (h : MinSuffix sizes suffix least) : suffix.length ≤ 2 := by
  cases h <;> simp

theorem Written.length (h : Written sizes segments spec) : segments ≠ [] ∧ segments.length ≤ 4 := by
  cases h with
  | totalOf _ _ hleast | availableOf _ _ hleast | reserve _ _ hleast =>
    have hlength := hleast.length
    refine ⟨List.cons_ne_nil _ _, ?_⟩
    rw [List.length_cons, List.length_cons]
    omega
  | _ => simp

theorem colon_notMem_keyword (h : IsKeyword keyword k) (hkeyword : ':' ∉ keyword) : ':' ∉ k :=
  fun hc => hkeyword (h ▸ List.mem_map.mpr ⟨':', hc, by decide⟩)

theorem colon_notMem_unsigned (h : unsignedText s = some n) : ':' ∉ s := by
  unfold unsignedText at h
  split at h
  · rename_i hdigits
    intro hc
    have hmem : ':' ∈ withoutSign s := by
      unfold withoutSign
      split
      · rename_i hsign
        cases s with
        | nil => cases hsign
        | cons d rest =>
          obtain rfl : d = '+' := by simpa using hsign
          simpa using hc
      · exact hc
    have := List.all_eq_true.mp hdigits.2 _ hmem
    cases this
  · cases h

theorem colon_notMem_percentage (h : IsPercentage p pct) : ':' ∉ p := by
  obtain ⟨digits, n, hp, hn, -⟩ := h
  have hdigits := colon_notMem_unsigned hn
  rcases hp with rfl | rfl <;> simpa using hdigits

theorem colon_notMem_suffix (hsizes : sizes.Lawful) (h : MinSuffix sizes suffix least) :
    ∀ s ∈ suffix, ':' ∉ s := by
  cases h with
  | absent => simp
  | present hsize =>
    have hmin : ':' ∉ minKeyword := by decide
    simpa [hmin] using hsizes.colon _ _ hsize.1

theorem Written.colon_notMem (hsizes : sizes.Lawful) (h : Written sizes segments spec) :
    ∀ s ∈ segments, ':' ∉ s := by
  have htotal : ':' ∉ totalKeyword := by decide
  have havailable : ':' ∉ availableKeyword := by decide
  have hreserve : ':' ∉ reserveKeyword := by decide
  cases h with
  | size hsize => simpa using hsizes.colon _ _ hsize.1
  | total hk => simpa using colon_notMem_keyword hk htotal
  | available hk => simpa using colon_notMem_keyword hk havailable
  | totalOf hk hpct hleast =>
    simpa using ⟨colon_notMem_keyword hk htotal, colon_notMem_percentage hpct, colon_notMem_suffix hsizes hleast⟩
  | availableOf hk hpct hleast =>
    simpa using ⟨colon_notMem_keyword hk havailable, colon_notMem_percentage hpct, colon_notMem_suffix hsizes hleast⟩
  | reserve hk hsize hleast =>
    simpa using ⟨colon_notMem_keyword hk hreserve, hsizes.colon _ _ hsize.1, colon_notMem_suffix hsizes hleast⟩

theorem Written.splitOn (hsizes : sizes.Lawful) (h : Written sizes segments spec) :
    ([':'].intercalate segments).splitOn ':' = segments :=
  List.splitOn_intercalate _ (h.colon_notMem hsizes) h.length.1

theorem denotes_iff (hsizes : sizes.Lawful) : Denotes sizes text spec ↔ Written sizes (text.splitOn ':') spec := by
  constructor
  · rintro ⟨segments, rfl, hwritten⟩
    rwa [hwritten.splitOn hsizes]
  · exact fun h => ⟨_, (List.intercalate_splitOn _).symm, h⟩

theorem overrun_iff (hsizes : sizes.Lawful) : Overrun sizes text ↔
    4 < (text.splitOn ':').length ∧ ∃ spec, Written sizes ((text.splitOn ':').take 4) spec := by
  constructor
  · rintro ⟨segments, tail, spec, rfl, hlen, hwritten⟩
    rw [List.splitOn_append_cons_self, hwritten.splitOn hsizes]
    refine ⟨?_, spec, ?_⟩
    · have := List.length_pos_iff.mpr (List.splitOn_ne_nil ':' tail)
      rw [List.length_append]
      omega
    · rwa [List.take_left' hlen]
  · rintro ⟨hlen, spec, hwritten⟩
    refine ⟨_, [':'].intercalate ((text.splitOn ':').drop 4), spec, ?_, by rw [List.length_take]; omega, hwritten⟩
    have hne : (text.splitOn ':').drop 4 ≠ [] := by
      rw [Ne, List.drop_eq_nil_iff]
      omega
    rw [← Lists.intercalate_append hwritten.length.1 hne, List.take_append_drop, List.intercalate_splitOn]

/-- The parser accepts the grammar and gives each text its meaning, but for the
texts in which something follows a complete budget. -/
theorem memory_budget_grammar_iff (hsizes : sizes.Lawful) (text : List Char) :
    (∀ spec, MemoryBudgetSpec.fromStr sizes text = .ok spec ↔ Denotes sizes text spec) ↔ ¬ Overrun sizes text := by
  have hne := List.splitOn_ne_nil ':' text
  rw [overrun_iff hsizes]
  by_cases hlen : (text.splitOn ':').length ≤ 4
  · refine iff_of_true (fun spec => ?_) fun h => absurd h.1 (Nat.not_lt.mpr hlen)
    rw [MemoryBudgetSpec.fromStr, ofSegments_ok hsizes hne hlen fun _ => eq_of_splitOn_single,
      denotes_iff hsizes]
  · have hread : ∀ spec, MemoryBudgetSpec.fromStr sizes text = .ok spec ↔
        Written sizes ((text.splitOn ':').take 4) spec := fun spec => by
      rw [MemoryBudgetSpec.fromStr, ← ofSegments_take,
        ofSegments_ok hsizes (by simp) (List.length_take_le _ _)]
      intro part hpart
      have hone := congrArg List.length hpart
      rw [List.length_take, List.length_singleton] at hone
      omega
    have hnot : ∀ spec, ¬ Denotes sizes text spec := fun spec h =>
      hlen ((denotes_iff hsizes).mp h).length.2
    simp only [hread, hnot, iff_false, Nat.lt_of_not_le hlen, true_and, not_exists]

/-- Sizes of one digit, in gigabytes or exabytes. -/
def decimalSizes : ByteSizes
  | [d, unit, 'B'] =>
    if ¬ d.isDigit then none
    else if unit = 'G' then some (1000000000 * (d.toNat - 48).toUInt64)
    else if unit = 'E' then some (1000000000000000000 * (d.toNat - 48).toUInt64)
    else none
  | _ => none

theorem decimalSizes_ok (h : decimalSizes text = some n) :
    ∃ d unit, text = [d, unit, 'B'] ∧ d.isDigit = true ∧ (unit = 'G' ∨ unit = 'E') := by
  unfold decimalSizes at h
  split at h
  · rename_i d unit
    split at h
    · cases h
    · rename_i hd
      refine ⟨d, unit, rfl, Decidable.not_not.mp hd, ?_⟩
      split at h
      · rename_i hunit
        exact .inl hunit
      · split at h
        · rename_i hunit
          exact .inr hunit
        · cases h
  · cases h

theorem decimalSizes_lawful : decimalSizes.Lawful where
  colon text n h := by
    obtain ⟨d, unit, rfl, hd, hunit⟩ := decimalSizes_ok h
    intro hc
    rcases List.mem_cons.mp hc with rfl | hc
    · cases hd
    · rcases hunit with rfl | rfl <;> simp at hc
  keyword text n h := by
    obtain ⟨d, unit, rfl, -, -⟩ := decimalSizes_ok h
    simp [totalKeyword, availableKeyword, reserveKeyword]

theorem memory_budget_grammar_iff_minimum :
    (∀ spec, MemoryBudgetSpec.fromStr decimalSizes "total:80:min:4GB".toList = .ok spec ↔
      Denotes decimalSizes "total:80:min:4GB".toList spec) ↔ ¬ Overrun decimalSizes "total:80:min:4GB".toList :=
  memory_budget_grammar_iff decimalSizes_lawful _

/-- What follows a complete budget is not read. -/
theorem trailing_segment_accepted : decimalSizes.Lawful ∧
    MemoryBudgetSpec.fromStr decimalSizes "total:80:min:4GB:garbage".toList = .ok (.total 80 (some 4000000000)) ∧
    ∀ spec, ¬ Denotes decimalSizes "total:80:min:4GB:garbage".toList spec := by
  refine ⟨decimalSizes_lawful, by decide, fun spec h => ?_⟩
  have hlen := ((denotes_iff decimalSizes_lawful).mp h).length.2
  revert hlen
  decide

end SilkChiffon.Cli
