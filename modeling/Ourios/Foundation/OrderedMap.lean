/-
# Maps kept in the order of their keys

A finite map as the list of its bindings in ascending order of the keys. Equal maps are
equal lists, so a map written binding by binding reads back as itself.
-/

import Mathlib.Data.List.Sort

namespace Ourios.Foundation

universe u v

variable {α : Type u} {β : Type v} [LinearOrder α]

/-- A binding put at its place among bindings in ascending order. -/
def insertEntry (key : α) (value : β) : List (α × β) → List (α × β)
  | [] => [(key, value)]
  | (first, held) :: rest =>
    if key < first then (key, value) :: (first, held) :: rest
    else if key = first then (key, value) :: rest
    else (first, held) :: insertEntry key value rest

variable {key : α} {value : β} {entries : List (α × β)}

theorem mem_insertEntry {entry : α × β} (h : entry ∈ insertEntry key value entries) :
    entry = (key, value) ∨ entry ∈ entries := by
  induction entries with
  | nil => exact .inl (List.mem_singleton.mp h)
  | cons first rest ih =>
    unfold insertEntry at h
    split at h
    · rcases List.mem_cons.mp h with heq | hrest
      · exact .inl heq
      · exact .inr hrest
    · split at h
      · rcases List.mem_cons.mp h with heq | hrest
        · exact .inl heq
        · exact .inr (List.mem_cons_of_mem _ hrest)
      · rcases List.mem_cons.mp h with heq | hrest
        · exact .inr (heq ▸ List.mem_cons_self)
        · rcases ih hrest with heq | hmem
          · exact .inl heq
          · exact .inr (List.mem_cons_of_mem _ hmem)

theorem pairwise_insertEntry (h : entries.Pairwise fun a b => a.1 < b.1) :
    (insertEntry key value entries).Pairwise fun a b => a.1 < b.1 := by
  induction entries with
  | nil => exact List.pairwise_singleton _ _
  | cons first rest ih =>
    obtain ⟨hfirst, hrest⟩ := List.pairwise_cons.mp h
    unfold insertEntry
    split
    · rename_i hlt
      refine List.pairwise_cons.mpr ⟨?_, h⟩
      intro entry hentry
      rcases List.mem_cons.mp hentry with rfl | hlater
      · exact hlt
      · exact lt_trans hlt (hfirst entry hlater)
    · split
      · rename_i heq
        subst heq
        exact List.pairwise_cons.mpr ⟨hfirst, hrest⟩
      · rename_i hnot hne
        refine List.pairwise_cons.mpr ⟨?_, ih hrest⟩
        intro entry hentry
        rcases mem_insertEntry hentry with rfl | hlater
        · exact lt_of_le_of_ne (not_lt.mp hnot) (Ne.symm hne)
        · exact hfirst entry hlater

/-- A binding above all others goes to the end. -/
theorem insertEntry_of_lt (h : ∀ entry ∈ entries, entry.1 < key) :
    insertEntry key value entries = entries ++ [(key, value)] := by
  induction entries with
  | nil => rfl
  | cons first rest ih =>
    obtain ⟨first, held⟩ := first
    have hlt : first < key := h (first, held) List.mem_cons_self
    unfold insertEntry
    rw [if_neg (not_lt.mpr (le_of_lt hlt)), if_neg (Ne.symm (ne_of_lt hlt)),
      ih fun entry hentry => h entry (List.mem_cons_of_mem _ hentry), List.cons_append]

structure OrderedMap (α : Type u) (β : Type v) [LinearOrder α] where
  entries : List (α × β)
  ascending : entries.Pairwise fun a b => a.1 < b.1
  deriving DecidableEq

namespace OrderedMap

theorem ext {first second : OrderedMap α β} (h : first.entries = second.entries) :
    first = second := by
  cases first
  cases second
  cases h
  rfl

def empty : OrderedMap α β := ⟨[], List.Pairwise.nil⟩

def insert (map : OrderedMap α β) (key : α) (value : β) : OrderedMap α β :=
  ⟨insertEntry key value map.entries, pairwise_insertEntry map.ascending⟩

/-- The value a key is bound to. -/
def lookup (map : OrderedMap α β) (key : α) : Option β :=
  (map.entries.find? fun entry => entry.1 = key).map Prod.snd

variable {map : OrderedMap α β} {entry : α × β} {entries : List (α × β)}

theorem lookup_eq_some_iff {key : α} {value : β} :
    map.lookup key = some value ↔ (key, value) ∈ map.entries := by
  unfold lookup
  rw [Option.map_eq_some_iff]
  constructor
  · rintro ⟨⟨found, held⟩, hfind, rfl⟩
    have hdecide := List.find?_some hfind
    have hkey : found = key := of_decide_eq_true hdecide
    subst hkey
    exact List.mem_of_find?_eq_some hfind
  · intro hmem
    -- keys ascend, so the first binding of the key is its only one
    obtain ⟨before, after, hsplit⟩ := List.append_of_mem hmem
    have hascending := map.ascending
    rw [hsplit] at hascending
    obtain ⟨-, -, hbefore⟩ := List.pairwise_append.mp hascending
    refine ⟨(key, value), ?_, rfl⟩
    rw [List.find?_eq_some_iff_append]
    refine ⟨decide_eq_true rfl, before, after, hsplit, ?_⟩
    intro entry hentry
    have hlt : entry.1 < key := hbefore entry hentry (key, value) List.mem_cons_self
    rw [decide_eq_false (ne_of_lt hlt)]
    rfl

/-- Looking up every key in order lists the bindings. -/
theorem flatMap_lookup (map : OrderedMap α β) {keys : List α} (hkeys : keys.Pairwise (· < ·))
    (h : ∀ entry ∈ map.entries, entry.1 ∈ keys) :
    keys.flatMap (fun key => ((map.lookup key).map fun value => (key, value)).toList) =
      map.entries := by
  have hgiven : ∀ (key : α) (entry : α × β),
      entry ∈ ((map.lookup key).map fun value => (key, value)).toList ↔
        entry.1 = key ∧ entry ∈ map.entries := by
    rintro key ⟨other, value⟩
    rw [Option.mem_toList, Option.map_eq_some_iff]
    constructor
    · rintro ⟨held, hheld, heq⟩
      cases heq
      exact ⟨rfl, lookup_eq_some_iff.mp hheld⟩
    · rintro ⟨rfl, hmem⟩
      exact ⟨value, lookup_eq_some_iff.mpr hmem, rfl⟩
  refine List.Pairwise.eq_of_mem_iff ?_ map.ascending ?_
  · rw [List.pairwise_flatMap]
    constructor
    · intro key _
      cases map.lookup key with
      | none => exact List.Pairwise.nil
      | some value => exact List.pairwise_singleton _ _
    · refine hkeys.imp ?_
      intro first second hlt a ha b hb
      rw [((hgiven first a).mp ha).1, ((hgiven second b).mp hb).1]
      exact hlt
  · intro entry
    rw [List.mem_flatMap]
    constructor
    · rintro ⟨key, -, hentry⟩
      exact ((hgiven key entry).mp hentry).2
    · intro hentry
      exact ⟨entry.1, h entry hentry, (hgiven entry.1 entry).mpr ⟨rfl, hentry⟩⟩

/-- The map of a list of bindings, later ones replacing earlier ones of the same key. -/
def ofList (entries : List (α × β)) : OrderedMap α β :=
  entries.foldl (fun map entry => map.insert entry.1 entry.2) empty

theorem mem_insert {key : α} {value : β} (h : entry ∈ (map.insert key value).entries) :
    entry = (key, value) ∨ entry ∈ map.entries :=
  mem_insertEntry h

theorem mem_foldl_insert
    (h : entry ∈ (entries.foldl (fun map entry => map.insert entry.1 entry.2) map).entries) :
    entry ∈ map.entries ∨ entry ∈ entries := by
  induction entries generalizing map with
  | nil => exact .inl h
  | cons first rest ih =>
    rcases ih h with hmap | hrest
    · rcases mem_insert hmap with rfl | hold
      · exact .inr List.mem_cons_self
      · exact .inl hold
    · exact .inr (List.mem_cons_of_mem _ hrest)

theorem mem_of_mem_ofList (h : entry ∈ (ofList entries).entries) : entry ∈ entries := by
  rcases mem_foldl_insert h with hempty | hmem
  · exact absurd hempty List.not_mem_nil
  · exact hmem

theorem entries_foldl_insert (map : OrderedMap α β)
    (h : (map.entries ++ entries).Pairwise fun a b => a.1 < b.1) :
    (entries.foldl (fun map entry => map.insert entry.1 entry.2) map).entries =
      map.entries ++ entries := by
  induction entries generalizing map with
  | nil => rw [List.append_nil, List.foldl_nil]
  | cons entry entries ih =>
    obtain ⟨-, -, hbefore⟩ := List.pairwise_append.mp h
    have hlast : (map.insert entry.1 entry.2).entries = map.entries ++ [entry] :=
      insertEntry_of_lt fun other hother => hbefore other hother entry List.mem_cons_self
    rw [List.foldl_cons, ih, hlast, List.append_assoc, List.singleton_append]
    rw [hlast, List.append_assoc, List.singleton_append]
    exact h

/-- A map is the map of its bindings. -/
theorem ofList_entries (map : OrderedMap α β) : ofList map.entries = map :=
  ext (entries_foldl_insert empty map.ascending)

end OrderedMap

end Ourios.Foundation
