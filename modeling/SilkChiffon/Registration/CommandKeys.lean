import Mathlib.Data.List.Nodup
import Mathlib.Data.List.Pairwise
import SilkChiffon.Lib.Lists

/-!
# The keys of a Clap command

What a command is parsed by: the ids of its arguments and groups, and the long
and short names of its arguments. A derived definition adds its own.
-/

namespace SilkChiffon.Registration

structure Argument where
  id : String
  long : Option String
  aliases : List String
  short : Option Char
  shortAliases : List Char
  deriving DecidableEq, Repr

def Argument.longs (a : Argument) : List String := a.long.toList ++ a.aliases

def Argument.shorts (a : Argument) : List Char := a.short.toList ++ a.shortAliases

structure Command where
  arguments : List Argument
  groups : List String
  deriving DecidableEq, Repr

inductive CliKey
  | id (name : String)
  | long (name : String)
  | short (name : Char)
  deriving DecidableEq, Ord, Repr

def CliKey.display (debug : String → String) : CliKey → String
  | id name => s!"Clap ID {debug name}"
  | long name => s!"--{name}"
  | short name => s!"-{name}"

def Argument.cliKeys (a : Argument) : List CliKey :=
  .id a.id :: (a.longs.map .long ++ a.shorts.map .short)

namespace Command

def new : Command := ⟨[], []⟩

def augment (command added : Command) : Command :=
  ⟨command.arguments ++ added.arguments, command.groups ++ added.groups⟩

def cliKeys (command : Command) : List CliKey :=
  command.arguments.flatMap Argument.cliKeys ++ command.groups.map .id

/-- What Clap tells apart: no id twice among arguments and groups, and no long
or short name, aliases included, with two arguments. -/
structure Unambiguous (command : Command) : Prop where
  ids : (command.arguments.map (·.id) ++ command.groups).Nodup
  longs : command.arguments.Pairwise fun a b => a.longs.Disjoint b.longs
  shorts : command.arguments.Pairwise fun a b => a.shorts.Disjoint b.shorts

instance [DecidableEq α] (l l' : List α) : Decidable (l.Disjoint l') :=
  decidable_of_iff (∀ a ∈ l, a ∉ l') ⟨fun h _ ha => h _ ha, fun h _ ha => h ha⟩

instance (command : Command) : Decidable command.Unambiguous :=
  decidable_of_iff
    ((command.arguments.map (·.id) ++ command.groups).Nodup ∧
      command.arguments.Pairwise (fun a b => a.longs.Disjoint b.longs) ∧
      command.arguments.Pairwise fun a b => a.shorts.Disjoint b.shorts)
    ⟨fun h => ⟨h.1, h.2.1, h.2.2⟩, fun h => ⟨h.ids, h.longs, h.shorts⟩⟩

-- ---------------------------------------------------------------------------
-- Keys of one command
-- ---------------------------------------------------------------------------

variable {c d : Command}

theorem id_mem_cliKeys : .id s ∈ c.cliKeys ↔ s ∈ c.arguments.map (·.id) ++ c.groups := by
  simp [cliKeys, Argument.cliKeys, eq_comm]

theorem long_mem_cliKeys : .long s ∈ c.cliKeys ↔ ∃ a ∈ c.arguments, s ∈ a.longs := by
  simp [cliKeys, Argument.cliKeys]

theorem short_mem_cliKeys : .short s ∈ c.cliKeys ↔ ∃ a ∈ c.arguments, s ∈ a.shorts := by
  simp [cliKeys, Argument.cliKeys]

theorem disjoint_cliKeys : c.cliKeys.Disjoint d.cliKeys ↔
    (c.arguments.map (·.id) ++ c.groups).Disjoint (d.arguments.map (·.id) ++ d.groups) ∧
      (∀ a ∈ c.arguments, ∀ b ∈ d.arguments, a.longs.Disjoint b.longs) ∧
      ∀ a ∈ c.arguments, ∀ b ∈ d.arguments, a.shorts.Disjoint b.shorts := by
  constructor
  · intro h
    refine ⟨fun s hc hd => ?_, fun a ha b hb s hsa hsb => ?_, fun a ha b hb s hsa hsb => ?_⟩
    · exact h (id_mem_cliKeys.mpr hc) (id_mem_cliKeys.mpr hd)
    · exact h (long_mem_cliKeys.mpr ⟨a, ha, hsa⟩) (long_mem_cliKeys.mpr ⟨b, hb, hsb⟩)
    · exact h (short_mem_cliKeys.mpr ⟨a, ha, hsa⟩) (short_mem_cliKeys.mpr ⟨b, hb, hsb⟩)
  · rintro ⟨hids, hlongs, hshorts⟩ key hc hd
    cases key with
    | id s => exact hids (id_mem_cliKeys.mp hc) (id_mem_cliKeys.mp hd)
    | long s =>
      obtain ⟨a, ha, hsa⟩ := long_mem_cliKeys.mp hc
      obtain ⟨b, hb, hsb⟩ := long_mem_cliKeys.mp hd
      exact hlongs a ha b hb hsa hsb
    | short s =>
      obtain ⟨a, ha, hsa⟩ := short_mem_cliKeys.mp hc
      obtain ⟨b, hb, hsb⟩ := short_mem_cliKeys.mp hd
      exact hshorts a ha b hb hsa hsb

-- ---------------------------------------------------------------------------
-- Adding definitions
-- ---------------------------------------------------------------------------

theorem mem_cliKeys_augment : key ∈ (c.augment d).cliKeys ↔ key ∈ c.cliKeys ∨ key ∈ d.cliKeys := by
  simp only [cliKeys, augment, List.flatMap_append, List.map_append, List.mem_append]
  tauto

theorem unambiguous_augment : (c.augment d).Unambiguous ↔
    c.Unambiguous ∧ d.Unambiguous ∧ c.cliKeys.Disjoint d.cliKeys := by
  have hids : ((c.augment d).arguments.map (·.id) ++ (c.augment d).groups).Nodup ↔
      (c.arguments.map (·.id) ++ c.groups).Nodup ∧ (d.arguments.map (·.id) ++ d.groups).Nodup ∧
        (c.arguments.map (·.id) ++ c.groups).Disjoint (d.arguments.map (·.id) ++ d.groups) := by
    rw [← List.nodup_append']
    refine List.Perm.nodup_iff ?_
    simp only [augment, List.map_append, List.append_assoc]
    refine List.Perm.append_left _ ?_
    rw [← List.append_assoc, ← List.append_assoc]
    exact List.Perm.append_right _ List.perm_append_comm
  rw [disjoint_cliKeys]
  constructor
  · rintro ⟨hid, hlong, hshort⟩
    obtain ⟨hc, hd, hdisjoint⟩ := hids.mp hid
    obtain ⟨hlongC, hlongD, hlongs⟩ := List.pairwise_append.mp hlong
    obtain ⟨hshortC, hshortD, hshorts⟩ := List.pairwise_append.mp hshort
    exact ⟨⟨hc, hlongC, hshortC⟩, ⟨hd, hlongD, hshortD⟩, hdisjoint, hlongs, hshorts⟩
  · rintro ⟨hc, hd, hdisjoint, hlongs, hshorts⟩
    exact ⟨hids.mpr ⟨hc.ids, hd.ids, hdisjoint⟩, List.pairwise_append.mpr ⟨hc.longs, hd.longs, hlongs⟩,
      List.pairwise_append.mpr ⟨hc.shorts, hd.shorts, hshorts⟩⟩

theorem unambiguous_new : new.Unambiguous := ⟨List.nodup_nil, .nil, .nil⟩

theorem augment_assoc (c d e : Command) : (c.augment d).augment e = c.augment (d.augment e) := by
  simp [augment]

theorem augment_new (c : Command) : c.augment new = c := by simp [augment, new]

theorem new_augment (c : Command) : new.augment c = c := by simp [augment, new]

theorem foldl_augment (ds : List Command) : ds.foldl augment c = c.augment (ds.foldl augment new) := by
  induction ds generalizing c with
  | nil => exact (augment_new c).symm
  | cons d ds ih =>
    rw [List.foldl_cons, List.foldl_cons, ih, new_augment, ih (c := d), augment_assoc]

theorem unambiguous_foldl {ds : List Command} : (ds.foldl augment c).Unambiguous ↔
    (∀ d ∈ c :: ds, d.Unambiguous) ∧ (c :: ds).Pairwise fun a b => a.cliKeys.Disjoint b.cliKeys := by
  induction ds generalizing c with
  | nil => simp
  | cons d ds ih =>
    rw [List.foldl_cons, ih]
    simp only [List.forall_mem_cons, List.pairwise_cons, unambiguous_augment]
    have hdisjoint : (∀ e ∈ ds, (c.augment d).cliKeys.Disjoint e.cliKeys) ↔
        (∀ e ∈ ds, c.cliKeys.Disjoint e.cliKeys) ∧ ∀ e ∈ ds, d.cliKeys.Disjoint e.cliKeys := by
      simp only [List.Disjoint, mem_cliKeys_augment]
      constructor
      · intro h
        exact ⟨fun e he k hk => h e he (.inl hk), fun e he k hk => h e he (.inr hk)⟩
      · rintro ⟨hc, hd⟩ e he k (hk | hk)
        · exact hc e he hk
        · exact hd e he hk
    rw [hdisjoint]
    tauto

theorem unambiguous_of_nodup (h : c.cliKeys.Nodup) : c.Unambiguous := by
  obtain ⟨hkeys, hgroups, hdisjoint⟩ := List.nodup_append'.mp h
  obtain ⟨heach, hpairs⟩ := List.nodup_flatMap.mp hkeys
  refine ⟨?_, hpairs.imp fun h s ha hb => ?_, hpairs.imp fun h s ha hb => ?_⟩
  · refine List.nodup_append'.mpr ⟨List.pairwise_map.mpr (hpairs.imp fun h heq => ?_), ?_, ?_⟩
    · exact h List.mem_cons_self (by rw [heq]; exact List.mem_cons_self)
    · exact hgroups.of_map _
    · intro s ha hg
      obtain ⟨a, hmem, rfl⟩ := List.mem_map.mp ha
      exact hdisjoint (List.mem_flatMap.mpr ⟨a, hmem, List.mem_cons_self⟩) (List.mem_map_of_mem hg)
  · exact h (a := .long s) (by simp [Argument.cliKeys, ha]) (by simp [Argument.cliKeys, hb])
  · exact h (a := .short s) (by simp [Argument.cliKeys, ha]) (by simp [Argument.cliKeys, hb])

end Command

end SilkChiffon.Registration
