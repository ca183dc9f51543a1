/-
# Totals and indexes kept beside a map

A client of a map may keep, beside it, running totals over its values and the sets of
the keys whose values satisfy a condition. The lemmas say what each of them has to
become when one binding is replaced or erased. The keys of an index are walked in
ascending order.
-/

import Mathlib
import Ourios.Foundation.AssocMap

namespace Ourios.Foundation

universe u v

section Totals

variable {α : Type u} {β : Type v} [DecidableEq α] {s : AList fun _ : α => β} {a : α} {b : β}

variable (measure : β → ℕ)

/-- The sum of a measure over the values of a map. -/
def total (s : AList fun _ : α => β) : ℕ :=
  (s.entries.map fun entry => measure entry.2).sum

theorem total_eq_add_erase (h : s.lookup a = some b) :
    total measure s = measure b + total measure (s.erase a) := by
  unfold total
  rw [((entries_perm_of_lookup h).map fun entry => measure entry.2).sum_nat, List.map_cons,
    List.sum_cons]

theorem total_erase_of_none (h : s.lookup a = none) :
    total measure (s.erase a) = total measure s := by
  unfold total
  rw [entries_erase_of_lookup_none h]

theorem total_insert (a : α) (b : β) (s : AList fun _ : α => β) :
    total measure (s.insert a b) = measure b + total measure (s.erase a) := by
  unfold total
  rw [entries_insert_eq, List.map_cons, List.sum_cons]

/-- A new binding adds its measure. -/
theorem total_insert_of_none (b : β) (h : s.lookup a = none) :
    total measure (s.insert a b) = total measure s + measure b := by
  rw [total_insert, total_erase_of_none measure h, Nat.add_comm]

/-- A replaced binding adds its measure and takes that of the one it replaces. -/
theorem total_insert_add {old : β} (b : β) (h : s.lookup a = some old) :
    total measure (s.insert a b) + measure old = total measure s + measure b := by
  rw [total_insert, total_eq_add_erase measure h]
  omega

theorem measure_le_total (h : s.lookup a = some b) : measure b ≤ total measure s := by
  rw [total_eq_add_erase measure h]
  exact Nat.le_add_right _ _

/-- A replaced binding of the same measure changes no total. -/
theorem total_insert_same {old : β} (h : s.lookup a = some old)
    (hsame : measure b = measure old) : total measure (s.insert a b) = total measure s := by
  have hadd := total_insert_add measure b h
  omega

end Totals

section Indexes

variable {α : Type u} {β : Type v} [DecidableEq α] {p : β → Prop} {s : AList fun _ : α => β}
  {keys : Finset α} {a : α} {b : β}

/-- A set holds the keys whose values satisfy a condition. -/
def Indexes (p : β → Prop) (s : AList fun _ : α => β) (keys : Finset α) : Prop :=
  ∀ a, a ∈ keys ↔ ∃ b, s.lookup a = some b ∧ p b

variable (h : Indexes p s keys)
include h

theorem Indexes.mem_iff (hlookup : s.lookup a = some b) : a ∈ keys ↔ p b := by
  rw [h a]
  constructor
  · rintro ⟨other, hother, hp⟩
    rw [hlookup] at hother
    exact Option.some.inj hother ▸ hp
  · intro hp
    exact ⟨b, hlookup, hp⟩

/-- What an index is after a binding changes: it agrees with the new value at the key
and with the index before everywhere else. -/
theorem Indexes.set {after : Finset α} (hkey : a ∈ after ↔ p b)
    (hother : ∀ other, other ≠ a → (other ∈ after ↔ other ∈ keys)) :
    Indexes p (s.insert a b) after := by
  intro other
  rw [lookup_insert_ite]
  by_cases hne : other = a
  · subst hne
    rw [if_pos rfl, hkey]
    constructor
    · intro hp
      exact ⟨b, rfl, hp⟩
    · rintro ⟨value, hvalue, hp⟩
      exact Option.some.inj hvalue ▸ hp
  · rw [if_neg hne, hother other hne, h other]

theorem Indexes.insert_of (hp : p b) : Indexes p (s.insert a b) (insert a keys) := by
  apply h.set
  · exact iff_of_true (Finset.mem_insert_self _ _) hp
  · intro other hne
    rw [Finset.mem_insert, or_iff_right hne]

theorem Indexes.keep {old : β} (hlookup : s.lookup a = some old)
    (hsame : p b ↔ p old) : Indexes p (s.insert a b) keys := by
  apply h.set
  · rw [h.mem_iff hlookup, hsame]
  · intro other hne
    exact Iff.rfl

theorem Indexes.keep_of_none (hlookup : s.lookup a = none) (hp : ¬ p b) :
    Indexes p (s.insert a b) keys := by
  apply h.set
  · refine iff_of_false ?_ hp
    rw [h a]
    rintro ⟨value, hvalue, -⟩
    rw [hlookup] at hvalue
    cases hvalue
  · intro other hne
    exact Iff.rfl

theorem Indexes.erase (a : α) : Indexes p (s.erase a) (keys.erase a) := by
  intro other
  rw [Finset.mem_erase]
  by_cases hne : other = a
  · subst hne
    rw [AList.lookup_erase]
    refine iff_of_false (fun hand => hand.1 rfl) ?_
    rintro ⟨value, hvalue, -⟩
    cases hvalue
  · rw [AList.lookup_erase_ne hne, and_iff_right hne, h other]

end Indexes

section Ascending

variable {α : Type u} [LinearOrder α]

/-- The members of a set in ascending order. -/
def ascending (s : Finset α) : List α :=
  Quot.liftOn s.1 (List.insertionSort (· ≤ ·)) fun first second hperm => by
    have hsorted := (List.perm_insertionSort (· ≤ ·) first).trans
      (hperm.trans (List.perm_insertionSort (· ≤ ·) second).symm)
    exact hsorted.eq_of_pairwise (fun _ _ _ _ hab hba => le_antisymm hab hba)
      (List.pairwise_insertionSort _ first) (List.pairwise_insertionSort _ second)

theorem coe_ascending (s : Finset α) : (ascending s : Multiset α) = s.1 := by
  obtain ⟨members, hnodup⟩ := s
  induction members using Quot.ind with
  | mk members => exact Multiset.coe_eq_coe.mpr (List.perm_insertionSort (· ≤ ·) members)

@[simp] theorem mem_ascending {s : Finset α} {a : α} : a ∈ ascending s ↔ a ∈ s := by
  rw [← Multiset.mem_coe, coe_ascending, Finset.mem_val]

theorem nodup_ascending (s : Finset α) : (ascending s).Nodup := by
  rw [← Multiset.coe_nodup, coe_ascending]
  exact s.nodup

end Ascending

end Ourios.Foundation
