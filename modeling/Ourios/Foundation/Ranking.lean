/-
# The front of a ranking

A ranking is a strictly ascending list, so it is determined by its members. A sort that
promises nothing about equal items gives a ranking once adjacent repeats are dropped. When
one item joins the members, the first items of the ranking let it in or stay as they are,
and it is at most the last of them that gives way.
-/

import Mathlib.Data.Finset.Card
import Mathlib.Data.List.Destutter
import Mathlib.Data.List.Sort

namespace Ourios.Foundation

universe u v

/-- An ascending rearrangement, with nothing promised about equal items. -/
structure UnstableSort (α : Type u) [LinearOrder α] where
  sort : List α → List α
  perm : ∀ items, (sort items).Perm items
  ascending : ∀ items, (sort items).Pairwise (· ≤ ·)

/-- A stable sort is one of them. -/
def UnstableSort.insertion (α : Type u) [LinearOrder α] : UnstableSort α where
  sort := List.insertionSort (· ≤ ·)
  perm := List.perm_insertionSort (· ≤ ·)
  ascending := List.pairwise_insertionSort (· ≤ ·)

/-! ## Adjacent repeats -/

section Dedup

variable {α : Type u} {κ : Type v} [DecidableEq κ] (key : α → κ)

/-- Keep of each run of items with one key the first. -/
def dedupByKey (items : List α) : List α :=
  items.destutter fun kept item => key kept ≠ key item

variable {key} [LinearOrder α]

theorem dedupFrom_ascending {kept : α} {items : List α}
    (hkey : ∀ a ∈ kept :: items, ∀ b ∈ kept :: items, key a = key b → a = b)
    (hsorted : (kept :: items).Pairwise (· ≤ ·)) :
    (items.destutter' (fun kept item => key kept ≠ key item) kept).Pairwise (· < ·) ∧
      ∀ a, a ∈ items.destutter' (fun kept item => key kept ≠ key item) kept ↔
        a ∈ kept :: items := by
  induction items generalizing kept with
  | nil => exact ⟨List.pairwise_singleton _ _, fun a => Iff.rfl⟩
  | cons item items ih =>
    obtain ⟨hleast, htail⟩ := List.pairwise_cons.mp hsorted
    by_cases hsame : key kept = key item
    · -- the item repeats the one that was kept
      have hitem : item = kept :=
        (hkey kept List.mem_cons_self item (List.mem_cons_of_mem _ List.mem_cons_self) hsame).symm
      subst hitem
      rw [List.destutter'_cons_neg _ (not_not.mpr hsame)]
      obtain ⟨hascending, hmem⟩ := ih (fun a ha b hb => hkey a (List.mem_cons_of_mem _ ha) b
        (List.mem_cons_of_mem _ hb)) htail
      refine ⟨hascending, fun a => (hmem a).trans ?_⟩
      simp
    · rw [List.destutter'_cons_pos _ hsame]
      obtain ⟨hascending, hmem⟩ := ih (fun a ha b hb => hkey a (List.mem_cons_of_mem _ ha) b
        (List.mem_cons_of_mem _ hb)) htail
      have hitem : kept < item := by
        refine lt_of_le_of_ne (hleast item List.mem_cons_self) ?_
        rintro rfl
        exact hsame rfl
      refine ⟨List.pairwise_cons.mpr ⟨?_, hascending⟩, ?_⟩
      · intro a ha
        rcases List.mem_cons.mp ((hmem a).mp ha) with rfl | hlater
        · exact hitem
        · exact lt_of_lt_of_le hitem ((List.pairwise_cons.mp htail).1 a hlater)
      · intro a
        rw [List.mem_cons, hmem, List.mem_cons (l := item :: items)]

/-- Where a key tells the items apart, a sorted list is a ranking once its adjacent repeats
are dropped. -/
theorem dedupByKey_ascending {items : List α}
    (hkey : ∀ a ∈ items, ∀ b ∈ items, key a = key b → a = b)
    (hsorted : items.Pairwise (· ≤ ·)) :
    (dedupByKey key items).Pairwise (· < ·) ∧
      ∀ a, a ∈ dedupByKey key items ↔ a ∈ items := by
  cases items with
  | nil => exact ⟨List.Pairwise.nil, fun a => Iff.rfl⟩
  | cons item items => exact dedupFrom_ascending hkey hsorted

end Dedup

/-! ## One more member -/

/-- The list `grown` is `old` with `item` let in, and the last of `old` may have given way. -/
def LetsIn {α : Type u} (item : α) (old grown : List α) : Prop :=
  grown = old ∨ ∃ front back, grown = front ++ item :: back ∧
    (old = front ++ back ∨ ∃ last, old = front ++ back ++ [last])

section Join

variable {α : Type u} [LinearOrder α] {ranking grown : List α} {item : α}

/-- An item that joins a ranking stands between two parts of it. -/
theorem exists_split_of_join (hranking : ranking.Pairwise (· < ·))
    (hgrown : grown.Pairwise (· < ·)) (hfresh : item ∉ ranking)
    (hmem : ∀ a, a ∈ grown ↔ a ∈ ranking ∨ a = item) :
    ∃ front back, ranking = front ++ back ∧ grown = front ++ item :: back := by
  have hfront : (ranking.filter (· < item)).Pairwise (· < ·) := hranking.filter _
  have hback : (ranking.filter (item < ·)).Pairwise (· < ·) := hranking.filter _
  have hapart : ∀ a ∈ ranking, a < item ∨ item < a := by
    intro a ha
    refine lt_or_gt_of_ne ?_
    rintro rfl
    exact hfresh ha
  refine ⟨ranking.filter (· < item), ranking.filter (item < ·), ?_, ?_⟩
  · refine hranking.eq_of_mem_iff (List.pairwise_append.mpr ⟨hfront, hback, ?_⟩) ?_
    · intro a ha b hb
      have hlt := of_decide_eq_true (List.mem_filter.mp ha).2
      exact lt_trans hlt (of_decide_eq_true (List.mem_filter.mp hb).2)
    · intro a
      simp only [List.mem_append, List.mem_filter, decide_eq_true_eq, ← and_or_left]
      exact ⟨fun ha => ⟨ha, hapart a ha⟩, fun ha => ha.1⟩
  · refine hgrown.eq_of_mem_iff (List.pairwise_append.mpr
      ⟨hfront, List.pairwise_cons.mpr ⟨?_, hback⟩, ?_⟩) ?_
    · intro b hb
      exact of_decide_eq_true (List.mem_filter.mp hb).2
    · intro a ha b hb
      have hlt := of_decide_eq_true (List.mem_filter.mp ha).2
      rcases List.mem_cons.mp hb with rfl | hlater
      · exact hlt
      · exact lt_trans hlt (of_decide_eq_true (List.mem_filter.mp hlater).2)
    · intro a
      simp only [hmem, List.mem_append, List.mem_cons, List.mem_filter, decide_eq_true_eq]
      constructor
      · rintro (ha | rfl)
        · rcases hapart a ha with hlt | hgt
          · exact .inl ⟨ha, hlt⟩
          · exact .inr (.inr ⟨ha, hgt⟩)
        · exact .inr (.inl rfl)
      · rintro (ha | rfl | ha)
        · exact .inl ha.1
        · exact .inr rfl
        · exact .inl ha.1

end Join

section Front

variable {α : Type u} {item : α}

/-- The first items of a list that one item was put into. -/
theorem letsIn_take (front back : List α) (item : α) (n : ℕ) :
    LetsIn item ((front ++ back).take n) ((front ++ item :: back).take n) := by
  rcases Nat.lt_or_ge front.length n with hlt | hle
  · obtain ⟨k, rfl⟩ := Nat.exists_eq_add_of_lt hlt
    have hgrown : (front ++ item :: back).take (front.length + k + 1) =
        front ++ item :: back.take k := by
      rw [Nat.add_assoc, List.take_length_add_append, List.take_succ_cons]
    have hold : (front ++ back).take (front.length + k + 1) = front ++ back.take (k + 1) := by
      rw [Nat.add_assoc, List.take_length_add_append]
    refine .inr ⟨front, back.take k, hgrown, ?_⟩
    rw [hold, List.take_add_one]
    cases back[k]? with
    | none => exact .inl (by simp)
    | some last => exact .inr ⟨last, by simp⟩
  · left
    rw [List.take_append_of_le_length hle, List.take_append_of_le_length hle]

/-- An item that is not among the first was of no account to them. -/
theorem take_eq_of_not_mem {front back : List α} {n : ℕ}
    (hnot : item ∉ (front ++ item :: back).take n) :
    (front ++ back).take n = (front ++ item :: back).take n := by
  rcases Nat.lt_or_ge front.length n with hlt | hle
  · obtain ⟨k, rfl⟩ := Nat.exists_eq_add_of_lt hlt
    rw [Nat.add_assoc, List.take_length_add_append, List.take_succ_cons] at hnot
    exact absurd (List.mem_append_right _ List.mem_cons_self) hnot
  · rw [List.take_append_of_le_length hle, List.take_append_of_le_length hle]

namespace LetsIn

variable {old grown : List α}

theorem map {β : Type v} (h : LetsIn item old grown) (f : α → β) :
    LetsIn (f item) (old.map f) (grown.map f) := by
  rcases h with rfl | ⟨front, back, rfl, hold⟩
  · exact .inl rfl
  · refine .inr ⟨front.map f, back.map f, by simp, ?_⟩
    rcases hold with rfl | ⟨last, rfl⟩
    · exact .inl (by simp)
    · exact .inr ⟨f last, by simp⟩

theorem mem (h : LetsIn item old grown) {a : α} (ha : a ∈ grown) : a ∈ old ∨ a = item := by
  rcases h with rfl | ⟨front, back, rfl, hold⟩
  · exact .inl ha
  · rcases hold with rfl | ⟨last, rfl⟩
    all_goals
      simp only [List.mem_append, List.mem_cons] at ha ⊢
      tauto

variable [BEq α] [LawfulBEq α]

/-- At most one item gives way. -/
theorem dropped (h : LetsIn item old grown) : (old.filter (· ∉ grown)).length ≤ 1 := by
  rcases h with rfl | ⟨front, back, rfl, hold⟩
  · rw [List.filter_eq_nil_iff.mpr (by simp)]
    exact Nat.zero_le 1
  · have hstay : (front ++ back).filter (· ∉ front ++ item :: back) = [] := by
      refine List.filter_eq_nil_iff.mpr ?_
      intro a ha
      simp only [List.mem_append, List.mem_cons, decide_not, Bool.not_eq_true',
        decide_eq_false_iff_not, not_not] at ha ⊢
      tauto
    rcases hold with rfl | ⟨last, rfl⟩
    · rw [hstay]
      exact Nat.zero_le 1
    · rw [List.filter_append, hstay, List.nil_append]
      exact List.length_filter_le _ [last]

/-- The items that stay keep their order. -/
theorem filter_eq (h : LetsIn item old grown) (hfresh : item ∉ old) (hnodup : old.Nodup) :
    old.filter (· ∈ grown) = grown.filter (· ∈ old) := by
  rcases h with rfl | ⟨front, back, rfl, hold⟩
  · rfl
  · have hgrown : (front ++ item :: back).filter (· ∈ old) = front ++ back := by
      have hkeep : ∀ a ∈ front ++ back, a ∈ old := by
        intro a ha
        rcases hold with rfl | ⟨last, rfl⟩
        · exact ha
        · exact List.mem_append_left _ ha
      have hfront := List.filter_eq_self.mpr fun a ha =>
        decide_eq_true (hkeep a (List.mem_append_left _ ha))
      have hback := List.filter_eq_self.mpr fun a ha =>
        decide_eq_true (hkeep a (List.mem_append_right _ ha))
      rw [List.filter_append, List.filter_cons_of_neg (by simpa using hfresh), hfront, hback]
    have hstay : (front ++ back).filter (· ∈ front ++ item :: back) = front ++ back := by
      refine List.filter_eq_self.mpr ?_
      intro a ha
      simp only [List.mem_append, List.mem_cons, decide_eq_true_eq] at ha ⊢
      tauto
    rw [hgrown]
    rcases hold with rfl | ⟨last, rfl⟩
    · exact hstay
    · have hlast : last ∉ front ++ item :: back := by
        intro hmem
        rcases List.mem_append.mp hmem with hfront | hback
        · exact (List.nodup_append.mp hnodup).2.2 last (List.mem_append_left _ hfront) last
            (List.mem_singleton.mpr rfl) rfl
        · rcases List.mem_cons.mp hback with rfl | hlater
          · exact hfresh (List.mem_append_right _ (List.mem_singleton.mpr rfl))
          · exact (List.nodup_append.mp hnodup).2.2 last (List.mem_append_right _ hlater) last
              (List.mem_singleton.mpr rfl) rfl
      rw [List.filter_append, hstay, List.filter_cons_of_neg (by simpa using hlast),
        List.filter_nil, List.append_nil]

end LetsIn

end Front

end Ourios.Foundation
