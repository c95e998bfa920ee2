import Mathlib.Data.List.Nodup
import Mathlib.Tactic.Common

/-!
# Least-recently-used caches

The entries are listed from the most to the least recently used one. Every
key occurs once, and there are never more entries than the capacity.
-/

namespace SilkChiffon

structure LruCache (κ β : Type) where
  capacity : Nat
  pos : 0 < capacity
  entries : List (κ × β)
  nodup : (entries.map (·.1)).Nodup
  fits : entries.length ≤ capacity

namespace LruCache

variable {κ β : Type} [DecidableEq κ]

def new (capacity : Nat) (pos : 0 < capacity) : LruCache κ β :=
  ⟨capacity, pos, [], List.nodup_nil, by simp⟩

def len (c : LruCache κ β) : Nat := c.entries.length

/-- Does not count as a use. -/
def contains (c : LruCache κ β) (key : κ) : Bool := c.entries.any (·.1 == key)

def others (c : LruCache κ β) (key : κ) : List (κ × β) := c.entries.filter (·.1 != key)

theorem others_sublist (c : LruCache κ β) (key : κ) :
    ((c.others key).map (·.1)).Sublist (c.entries.map (·.1)) :=
  List.filter_sublist.map _

theorem not_mem_others (c : LruCache κ β) (key : κ) : key ∉ (c.others key).map (·.1) := by
  simp [others]

def popLru (c : LruCache κ β) : Option ((κ × β) × LruCache κ β) :=
  c.entries.getLast?.map fun victim => (victim, {
    capacity := c.capacity
    pos := c.pos
    entries := c.entries.dropLast
    nodup := c.nodup.sublist ((List.dropLast_sublist _).map _)
    fits := by
      have := c.fits
      simp only [List.length_dropLast]
      omega })

theorem contains_iff {c : LruCache κ β} : c.contains key = true ↔ key ∈ c.entries.map (·.1) := by
  simp [contains]

theorem entries_perm {c : LruCache κ β} (h : (key, v) ∈ c.entries) :
    c.entries.Perm ((key, v) :: c.others key) := by
  obtain ⟨before, after, hsplit⟩ := List.append_of_mem h
  have hnodup := c.nodup
  simp only [hsplit, List.map_append, List.map_cons, List.nodup_append, List.nodup_cons, List.mem_cons,
    forall_eq_or_imp] at hnodup
  obtain ⟨_, ⟨hafter, _⟩, hbefore⟩ := hnodup
  have hb : before.filter (·.1 != key) = before := by
    rw [List.filter_eq_self]
    intro p hp
    simpa using (hbefore p.1 (List.mem_map_of_mem hp)).1
  have ha : after.filter (·.1 != key) = after := by
    rw [List.filter_eq_self]
    intro p hp
    simpa using fun heq : p.1 = key => hafter (heq ▸ List.mem_map_of_mem hp)
  rw [others, hsplit, List.filter_append, List.filter_cons, hb, ha]
  simp

/-- What stays when `key` is put: a new key takes the place of the least
recently used one if need be. -/
def keptBeside (c : LruCache κ β) (key : κ) : List (κ × β) :=
  if c.contains key then c.others key
  else if c.len = c.capacity then c.entries.dropLast else c.entries

theorem keptBeside_sublist (c : LruCache κ β) (key : κ) :
    ((c.keptBeside key).map (·.1)).Sublist (c.entries.map (·.1)) := by
  unfold keptBeside
  split
  · exact c.others_sublist key
  · split
    · exact (List.dropLast_sublist _).map _
    · exact List.Sublist.refl _

theorem not_mem_keptBeside (c : LruCache κ β) (key : κ) : key ∉ (c.keptBeside key).map (·.1) := by
  by_cases hin : c.contains key
  · simpa [keptBeside, hin] using c.not_mem_others key
  · exact fun hmem => hin (contains_iff.mpr ((c.keptBeside_sublist key).subset hmem))

theorem length_keptBeside (c : LruCache κ β) (key : κ) : (c.keptBeside key).length < c.capacity := by
  have hfits := c.fits
  have hpos := c.pos
  unfold keptBeside len
  split
  · rename_i hin
    obtain ⟨⟨k, v⟩, hmem, rfl⟩ := List.mem_map.mp (contains_iff.mp hin)
    have hlen := (entries_perm hmem).length_eq
    simp only [List.length_cons] at hlen ⊢
    omega
  · split
    · simp only [List.length_dropLast]
      omega
    · omega

def put (c : LruCache κ β) (key : κ) (value : β) : LruCache κ β where
  capacity := c.capacity
  pos := c.pos
  entries := (key, value) :: c.keptBeside key
  nodup := List.nodup_cons.mpr ⟨c.not_mem_keptBeside key, c.nodup.sublist (c.keptBeside_sublist key)⟩
  fits := c.length_keptBeside key

theorem entries_perm_of_lookup {c : LruCache κ β} (h : c.entries.lookup key = some v) :
    c.entries.Perm ((key, v) :: c.others key) := by
  obtain ⟨before, after, hsplit, _⟩ := List.lookup_eq_some_iff.mp h
  exact entries_perm (by simp [hsplit])

/-- The value of a key, which becomes the most recently used one. -/
def getMut (c : LruCache κ β) (key : κ) : Option (β × LruCache κ β) :=
  match h : c.entries.lookup key with
  | none => none
  | some value => some (value, {
      capacity := c.capacity
      pos := c.pos
      entries := (key, value) :: c.others key
      nodup := List.nodup_cons.mpr ⟨c.not_mem_others key, c.nodup.sublist (c.others_sublist key)⟩
      fits := (entries_perm_of_lookup h).length_eq ▸ c.fits })

/-- From the least to the most recently used one. -/
def intoIter (c : LruCache κ β) : List (κ × β) := c.entries.reverse

omit [DecidableEq κ] in
theorem popLru_of_pos {c : LruCache κ β} (h : 0 < c.len) :
    ∃ victim c', c.popLru = some (victim, c') ∧ c'.capacity = c.capacity ∧
      c.entries = c'.entries ++ [victim] := by
  have hne : c.entries ≠ [] := List.length_pos_iff.mp h
  simp only [popLru, List.getLast?_eq_some_getLast hne, Option.map_some]
  exact ⟨_, _, rfl, rfl, (List.dropLast_append_getLast hne).symm⟩

theorem put_entries {c : LruCache κ β} (value : β) (hnew : c.contains key = false) (hroom : c.len < c.capacity) :
    (c.put key value).entries = (key, value) :: c.entries := by
  simp [put, keptBeside, hnew, Nat.ne_of_lt hroom]

theorem getMut_some {c : LruCache κ β} (h : c.getMut key = some (value, c')) :
    c'.capacity = c.capacity ∧ (key, value) ∈ c.entries ∧ c'.entries.Perm c.entries := by
  unfold getMut at h
  split at h
  · cases h
  · rename_i v hv
    obtain ⟨rfl, rfl⟩ := Prod.mk.inj (Option.some.inj h)
    have hperm := entries_perm_of_lookup hv
    exact ⟨rfl, hperm.mem_iff.mpr (by simp), hperm.symm⟩

theorem getMut_of_contains {c : LruCache κ β} (h : c.contains key = true) :
    ∃ value c', c.getMut key = some (value, c') := by
  unfold getMut
  split
  · rename_i hnone
    obtain ⟨⟨k, v⟩, hmem, rfl⟩ := List.mem_map.mp (contains_iff.mp h)
    exact absurd (List.lookup_eq_none_iff.mp hnone _ hmem) (by simp)
  · exact ⟨_, _, rfl⟩

end LruCache

end SilkChiffon
