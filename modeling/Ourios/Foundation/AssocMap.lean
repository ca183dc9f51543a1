/-
# Association lists as finite maps

`AList` gives lookup and insertion. What a client that also walks all bindings
needs is how an insertion changes the walk: up to order, the binding of the
key is replaced and every other binding stays.
-/

import Mathlib.Data.List.AList

namespace Ourios.Foundation

universe u v w

variable {α : Type u} {β : α → Type v} [DecidableEq α]

variable {a : α} {s : AList β}

/-- A map with a binding at `a` is that binding and the map without it. -/
theorem entries_perm_of_lookup {b : β a} (h : s.lookup a = some b) :
    s.entries.Perm (⟨a, b⟩ :: (s.erase a).entries) := by
  have hmem : a ∈ s.entries.keys := by
    rw [← List.dlookup_isSome]
    exact Option.isSome_iff_exists.mpr ⟨b, h⟩
  obtain ⟨b', before, after, -, hsplit, herase⟩ := List.exists_of_kerase hmem
  have hb : b' = b := by
    have hentry : (⟨a, b'⟩ : Sigma β) ∈ s.entries := by simp [hsplit]
    have hlookup : b' ∈ s.lookup a := AList.mem_lookup_iff.mpr hentry
    rw [h] at hlookup
    exact (Option.some.inj hlookup).symm
  subst hb
  have herased : (s.erase a).entries = before ++ after := herase
  rw [herased, hsplit]
  exact List.perm_middle

theorem entries_erase_of_lookup_none (h : s.lookup a = none) :
    (s.erase a).entries = s.entries := by
  have hmem : a ∉ s.entries.keys := by
    intro hin
    rw [← List.dlookup_isSome] at hin
    have hnone : List.dlookup a s.entries = none := h
    simp [hnone] at hin
  exact List.kerase_of_notMem_keys hmem

/-- After an insertion the bindings are the new one and the others. -/
theorem entries_insert_eq (a : α) (b : β a) (s : AList β) :
    (s.insert a b).entries = ⟨a, b⟩ :: (s.erase a).entries := rfl

/-- A key is bound where its lookup finds something. -/
theorem mem_iff_lookup : a ∈ s ↔ ∃ b, s.lookup a = some b := by
  rw [← AList.lookup_isSome, Option.isSome_iff_exists]

/-- A map that keeps every binding keeps every key. -/
theorem mem_of_lookup_imp {t : AList β} (h : ∀ {a b}, s.lookup a = some b → t.lookup a = some b)
    (ha : a ∈ s) : a ∈ t := by
  obtain ⟨b, hb⟩ := mem_iff_lookup.mp ha
  exact mem_iff_lookup.mpr ⟨b, h hb⟩

theorem notMem_of_lookup_none (h : s.lookup a = none) : a ∉ s :=
  AList.lookup_eq_none.mp h

/-- What is found after a removal was there before, under another key. -/
theorem lookup_erase_cases {a' : α} {b : β a'} (h : (s.erase a).lookup a' = some b) :
    a' ≠ a ∧ s.lookup a' = some b := by
  by_cases heq : a' = a
  · subst heq
    rw [AList.lookup_erase] at h
    cases h
  · rw [AList.lookup_erase_ne heq] at h
    exact ⟨heq, h⟩

/-- Reading after an insertion, for maps whose values have one type. -/
theorem lookup_insert_ite {γ : Type v} (a a' : α) (b : γ) (s : AList fun _ : α => γ) :
    (s.insert a b).lookup a' = if a' = a then some b else s.lookup a' := by
  split
  · subst a'
    exact AList.lookup_insert s
  · rename_i hne
    exact AList.lookup_insert_ne hne

theorem lookup_insert_cases {γ : Type v} {a a' : α} {b b' : γ} {s : AList fun _ : α => γ}
    (h : (s.insert a b).lookup a' = some b') :
    (a' = a ∧ b' = b) ∨ (a' ≠ a ∧ s.lookup a' = some b') := by
  rw [lookup_insert_ite] at h
  split at h
  · rename_i heq
    exact .inl ⟨heq, (Option.some.inj h).symm⟩
  · rename_i hne
    exact .inr ⟨hne, h⟩

/-- Walking all bindings sees one key's contribution apart from the others'. With
`entries_insert_eq` this says what an insertion changes in the walk. -/
theorem flatMap_entries_perm {γ : Type w} (walk : (a : α) → β a → List γ) (a : α) (s : AList β) :
    (s.entries.flatMap fun entry => walk entry.1 entry.2).Perm
      ((s.lookup a).elim [] (walk a) ++
        (s.erase a).entries.flatMap fun entry => walk entry.1 entry.2) := by
  cases hlookup : s.lookup a with
  | none =>
    rw [entries_erase_of_lookup_none hlookup]
    exact List.Perm.refl _
  | some b => exact (entries_perm_of_lookup hlookup).flatMap_right _

/-- Two maps that agree on every lookup have the same bindings up to order. -/
theorem entries_perm_of_lookup_eq {t : AList β} (h : ∀ a, s.lookup a = t.lookup a) :
    s.entries.Perm t.entries := by
  refine List.mem_ext s.nodupKeys.nodup t.nodupKeys.nodup ?_
  rintro ⟨a, b⟩
  rw [← AList.mem_lookup_iff, ← AList.mem_lookup_iff, h a]

end Ourios.Foundation
