/-
# Sorting by a key

A stable sort by a key of the items, and the item of least key. Where no two items
share a key both depend on which items there are and on nothing else. A list sorts as
its sorted parts do, one after another.
-/

import Mathlib.Data.List.MinMax
import Mathlib.Data.List.Sort

namespace Ourios.Foundation

universe u v w

variable {α : Type u} {β : Type v} [LinearOrder β] (key : α → β)

def sortByKey (items : List α) : List α := items.insertionSort fun a b => key a ≤ key b

theorem sortByKey_perm (items : List α) : (sortByKey key items).Perm items :=
  List.perm_insertionSort _ items

@[simp] theorem mem_sortByKey {items : List α} {item : α} :
    item ∈ sortByKey key items ↔ item ∈ items :=
  (sortByKey_perm key items).mem_iff

theorem pairwise_sortByKey (items : List α) :
    (sortByKey key items).Pairwise fun a b => key a ≤ key b := by
  exact List.pairwise_insertionSort _ items

variable {key}

/-- Two lists with the same items and no shared key sort to the same list. -/
theorem sortByKey_eq_of_mem {first second : List α} (hfirst : (first.map key).Nodup)
    (hsecond : (second.map key).Nodup) (hmem : ∀ item, item ∈ first ↔ item ∈ second) :
    sortByKey key first = sortByKey key second := by
  have hperm : first.Perm second :=
    (List.perm_ext_iff_of_nodup hfirst.of_map hsecond.of_map).mpr hmem
  have hsorted : (sortByKey key first).Perm (sortByKey key second) :=
    (sortByKey_perm key first).trans (hperm.trans (sortByKey_perm key second).symm)
  refine hsorted.eq_of_pairwise ?_ (pairwise_sortByKey key first) (pairwise_sortByKey key second)
  intro a b ha hb hab hba
  have ha' := (mem_sortByKey key).mp ha
  have hb' := (hmem b).mpr ((mem_sortByKey key).mp hb)
  exact List.inj_on_of_nodup_map hfirst ha' hb' (le_antisymm hab hba)

/-- Among members told apart by a key, the one of least key does not depend on the
order of the list. -/
theorem argmin_eq_of_mem {first second : List α} (hsame : ∀ a, a ∈ first ↔ a ∈ second)
    (hkey : ∀ a ∈ first, ∀ b ∈ first, key a = key b → a = b) :
    first.argmin key = second.argmin key := by
  cases hfirst : first.argmin key with
  | none =>
    have hnil : first = [] := List.argmin_eq_none.mp hfirst
    have hnil' : second = [] := by
      apply List.eq_nil_iff_forall_not_mem.mpr
      intro a ha
      rw [← hsame, hnil] at ha
      cases ha
    rw [hnil', List.argmin_nil]
  | some a =>
    have ha := List.argmin_mem hfirst
    cases hsecond : second.argmin key with
    | none =>
      rw [List.argmin_eq_none.mp hsecond] at hsame
      cases (hsame a).mp ha
    | some b =>
      have hb := (hsame b).mpr (List.argmin_mem hsecond)
      have hle : key a ≤ key b := List.le_of_mem_argmin hb hfirst
      have hge : key b ≤ key a := List.le_of_mem_argmin ((hsame a).mp ha) hsecond
      rw [hkey a ha b hb (le_antisymm hle hge)]

/-! ## The last reading of a stable sort -/

section LastReading

variable (key) {γ : Type w} (read : α → Option γ)

def reading (item : α) : Option (β × γ) := (read item).map (key item, ·)

/-- Of two readings the one of greater key, and the second where the keys are equal. -/
def later : Option (β × γ) → Option (β × γ) → Option (β × γ)
  | none, next => next
  | some held, none => some held
  | some held, some next => if held.1 ≤ next.1 then some next else some held

/-- The reading of greatest key, the last of those that share it. -/
def latestReading (items : List α) : Option (β × γ) :=
  items.foldl (fun held item => later held (reading key read item)) none

def lastReading (items : List α) : Option (β × γ) := (items.filterMap (reading key read)).getLast?

@[simp] theorem later_none (held : Option (β × γ)) : later held none = held := by
  cases held <;> rfl

theorem later_assoc (first second third : Option (β × γ)) :
    later (later first second) third = later first (later second third) := by
  rcases first with _ | first
  · rfl
  rcases second with _ | second
  · rfl
  rcases third with _ | third
  · rw [later_none, later_none]
  · grind [later]

theorem foldl_later (items : List α) (held : Option (β × γ)) :
    items.foldl (fun held item => later held (reading key read item)) held =
      later held (latestReading key read items) := by
  induction items generalizing held with
  | nil => exact (later_none held).symm
  | cons item items ih =>
    rw [latestReading, List.foldl_cons, List.foldl_cons, ih, ih, later_assoc]
    rfl

omit [LinearOrder β] in
variable {key read} in
theorem fst_of_reading {item : α} {value : β × γ} (h : reading key read item = some value) :
    value.1 = key item := by
  obtain ⟨given, -, rfl⟩ := Option.map_eq_some_iff.mp h
  rfl

omit [LinearOrder β] in
theorem lastReading_cons (item : α) (items : List α) :
    lastReading key read (item :: items) =
      (lastReading key read items).or (reading key read item) := by
  unfold lastReading
  cases hread : reading key read item with
  | none => simp [hread]
  | some value => simp [hread, List.getLast?_cons, Option.or_some]

variable {items : List α}

theorem key_le_of_lastReading {bound : β} (h : ∀ item ∈ items, bound ≤ key item) {value : β × γ}
    (hvalue : lastReading key read items = some value) : bound ≤ value.1 := by
  obtain ⟨item, hitem, hread⟩ := List.mem_filterMap.mp (List.mem_of_getLast? hvalue)
  rw [fst_of_reading hread]
  exact h item hitem

/-- An item put in order reads last unless a reading of at least its key is there. -/
theorem lastReading_orderedInsert (item : α) (hsorted : items.Pairwise fun a b => key a ≤ key b) :
    lastReading key read (items.orderedInsert (fun a b => key a ≤ key b) item) =
      later (reading key read item) (lastReading key read items) := by
  induction items with
  | nil => simp [lastReading]
  | cons head items ih =>
    obtain ⟨hleast, htail⟩ := List.pairwise_cons.mp hsorted
    by_cases hle : key item ≤ key head
    · -- everything after the item is of at least its key
      rw [List.orderedInsert_cons, if_pos hle, lastReading_cons]
      have hbound : ∀ value, lastReading key read (head :: items) = some value →
          key item ≤ value.1 := fun _ => key_le_of_lastReading key read
        (List.forall_mem_cons.mpr ⟨hle, fun a ha => hle.trans (hleast a ha)⟩)
      cases hitem : reading key read item with
      | none => simp [later]
      | some given =>
        cases hlast : lastReading key read (head :: items) with
        | none => rfl
        | some value => simp [later, fst_of_reading hitem, hbound value hlast]
    · rw [List.orderedInsert_cons, if_neg hle, lastReading_cons, ih htail, lastReading_cons]
      cases hlast : lastReading key read items with
      | some value =>
        cases reading key read item with
        | none => rfl
        | some given =>
          simp only [later, Option.some_or]
          split <;> rfl
      | none =>
        cases hitem : reading key read item with
        | none => simp [later]
        | some given =>
          cases hhead : reading key read head with
          | none => simp [later]
          | some value => simp [later, fst_of_reading hitem, fst_of_reading hhead, hle]

/-- Sorting stably and reading last is reading the latest. -/
theorem lastReading_sortByKey (items : List α) :
    lastReading key read (sortByKey key items) = latestReading key read items := by
  induction items with
  | nil => rfl
  | cons item items ih =>
    rw [sortByKey, List.insertionSort_cons]
    change lastReading key read ((sortByKey key items).orderedInsert _ item) = _
    rw [lastReading_orderedInsert key read item (pairwise_sortByKey key items), ih]
    exact (foldl_later key read items (later none _)).symm

variable {key read}

theorem exists_of_latestReading {value : β × γ} (h : latestReading key read items = some value) :
    ∃ item ∈ items, read item = some value.2 := by
  rw [← lastReading_sortByKey] at h
  obtain ⟨item, hitem, hread⟩ := List.mem_filterMap.mp (List.mem_of_getLast? h)
  obtain ⟨given, hgiven, rfl⟩ := Option.map_eq_some_iff.mp hread
  exact ⟨item, (mem_sortByKey key).mp hitem, hgiven⟩

variable (key) in
theorem exists_latestReading {item : α} {given : γ} (hitem : item ∈ items)
    (hread : read item = some given) : ∃ value, latestReading key read items = some value := by
  have hmem : (key item, given) ∈ (sortByKey key items).filterMap (reading key read) :=
    List.mem_filterMap.mpr ⟨item, (mem_sortByKey key).mpr hitem, by simp [reading, hread]⟩
  rw [← lastReading_sortByKey]
  exact ⟨_, List.getLast?_eq_some_getLast (List.ne_nil_of_mem hmem)⟩

end LastReading

/-! ## Sorting in parts -/

section Parts

variable (key)

/-- Put an item before the first one of no smaller key. -/
abbrev insertByKey (item : α) (items : List α) : List α :=
  items.orderedInsert (fun a b => key a ≤ key b) item

theorem sortByKey_cons (item : α) (items : List α) :
    sortByKey key (item :: items) = insertByKey key item (sortByKey key items) := rfl

variable {key} {first second : List α}

/-- What a list is sorted to first comes first after items of greater keys. -/
theorem sortByKey_append_of_head {item : α} {rest : List α}
    (hfirst : ∀ other ∈ first, key item < key other)
    (hsecond : sortByKey key second = item :: sortByKey key rest) :
    sortByKey key (first ++ second) = item :: sortByKey key (first ++ rest) := by
  induction first with
  | nil => exact hsecond
  | cons head first ih =>
    obtain ⟨hhead, hothers⟩ := List.forall_mem_cons.mp hfirst
    rw [List.cons_append, sortByKey_cons, ih hothers, insertByKey, List.orderedInsert_cons,
      if_neg hhead.not_ge]
    rfl

theorem insertByKey_comm {a b : α} (h : key b < key a) (items : List α) :
    insertByKey key a (insertByKey key b items) = insertByKey key b (insertByKey key a items) := by
  induction items with grind

theorem sortByKey_insertByKey_append (item : α) (items : List α) :
    sortByKey key (insertByKey key item items ++ second) =
      sortByKey key (item :: (items ++ second)) := by
  induction items with
  | nil => rfl
  | cons head items ih =>
    rw [insertByKey, List.orderedInsert_cons]
    split
    · rfl
    · rename_i hlater
      rw [List.cons_append, sortByKey_cons, ih]
      exact (insertByKey_comm (not_le.mp hlater) _).symm

/-- Sorting a front beforehand changes nothing. -/
theorem sortByKey_sortByKey_append :
    sortByKey key (sortByKey key first ++ second) = sortByKey key (first ++ second) := by
  induction first with
  | nil => rfl
  | cons item first ih =>
    rw [sortByKey_cons, sortByKey_insertByKey_append, sortByKey_cons, ih]
    rfl

/-- Lists that sort alike do so inside longer ones. -/
theorem sortByKey_append_congr {first' second' : List α}
    (hfirst : sortByKey key first = sortByKey key first')
    (hsecond : sortByKey key second = sortByKey key second') :
    sortByKey key (first ++ second) = sortByKey key (first' ++ second') := by
  rw [← sortByKey_sortByKey_append, hfirst, sortByKey_sortByKey_append]
  clear hfirst
  induction first' with
  | nil => exact hsecond
  | cons item first' ih => exact congrArg (insertByKey key item) ih

theorem sortByKey_flatten_map (groups : List (List α)) :
    sortByKey key (groups.map (sortByKey key)).flatten = sortByKey key groups.flatten := by
  induction groups with
  | nil => rfl
  | cons group groups ih =>
    rw [List.map_cons, List.flatten_cons, sortByKey_sortByKey_append]
    exact sortByKey_append_congr rfl ih

end Parts

/-! ## Cutting into chunks -/

/-- The list in chunks of `n` items, the last of which may be shorter. -/
def chunks (n : ℕ) : List α → List (List α)
  | [] => []
  | item :: items => (item :: items.take (n - 1)) :: chunks n (items.drop (n - 1))
termination_by items => items.length

theorem flatten_chunks (n : ℕ) (items : List α) : (chunks n items).flatten = items := by
  fun_induction chunks n items with
  | case1 => rfl
  | case2 item items ih => rw [List.flatten_cons, ih, List.cons_append, List.take_append_drop]

theorem length_chunks {n : ℕ} (h : 2 ≤ n) (items : List α) :
    2 * (chunks n items).length ≤ items.length + 1 := by
  fun_induction chunks n items with
  | case1 => simp
  | case2 item items ih =>
    rw [List.length_drop] at ih
    rw [List.length_cons, List.length_cons]
    omega

end Ourios.Foundation
