/-
# Folds that can fail

A loop that stops at its first error. What every step keeps along the items done
so far holds at the end of a loop that got through; and a loop whose every step
gets through gets through.
-/

import Mathlib.Data.List.Basic

variable {ε : Type u}

namespace Ourios.Foundation

universe u v w

theorem bind_eq_ok_iff {α β : Type v} {first : Except ε α} {next : α → Except ε β}
    {result : β} : first >>= next = .ok result ↔ ∃ value, first = .ok value ∧
      next value = .ok result := by
  cases first with
  | error e => exact ⟨fun h => (nomatch h), fun ⟨_, h, _⟩ => (nomatch h)⟩
  | ok value =>
    constructor
    · intro h
      exact ⟨value, rfl, h⟩
    · rintro ⟨other, heq, h⟩
      cases heq
      exact h

theorem ite_error_eq_ok_iff {α : Type v} {c : Prop} [Decidable c] {error : ε}
    {next : Except ε α} {result : α} :
    (if c then .error error else next) = .ok result ↔ ¬ c ∧ next = .ok result := by
  by_cases h : c
  · simp [h]
  · simp [h]

theorem mapError_eq_ok_iff {ε δ : Type u} {α : Type v} {first : Except ε α} {change : ε → δ}
    {result : α} : first.mapError change = .ok result ↔ first = .ok result := by
  cases first with
  | error e => exact ⟨fun h => (nomatch h), fun h => (nomatch h)⟩
  | ok value =>
    change Except.ok value = Except.ok result ↔ _
    rw [Except.ok.injEq, Except.ok.injEq]

/-- A loop that collects what each item gives and stops at the first error. -/
def gather {ε : Type u} {α : Type w} {β : Type v} (produce : α → Except ε (List β)) :
    List α → Except ε (List β)
  | [] => .ok []
  | item :: items => do
    let first ← produce item
    let rest ← gather produce items
    return first ++ rest

theorem gather_eq_ok {α : Type w} {β : Type v} {produce : α → Except ε (List β)}
    {items : List α} {given : α → List β} (h : ∀ item ∈ items, produce item = .ok (given item)) :
    gather produce items = .ok (items.flatMap given) := by
  induction items with
  | nil => rfl
  | cons item items ih =>
    have hrest := ih fun other hother => h other (List.mem_cons_of_mem _ hother)
    unfold gather
    rw [h item List.mem_cons_self, hrest]
    rfl

/-- What a loop that got through collected, some item gave. -/
theorem exists_of_mem_gather {α : Type w} {β : Type v}
    {produce : α → Except ε (List β)} {items : List α} {collected : List β}
    (h : gather produce items = .ok collected) {value : β} (hvalue : value ∈ collected) :
    ∃ item ∈ items, ∃ given, produce item = .ok given ∧ value ∈ given := by
  induction items generalizing collected with
  | nil =>
    cases h
    cases hvalue
  | cons item items ih =>
    obtain ⟨first, hfirst, hnext⟩ := bind_eq_ok_iff.mp h
    obtain ⟨rest, hrest, hcollected⟩ := bind_eq_ok_iff.mp hnext
    cases hcollected
    rcases List.mem_append.mp hvalue with hmem | hmem
    · exact ⟨item, List.mem_cons_self, first, hfirst, hmem⟩
    · obtain ⟨other, hother, given⟩ := ih hrest hmem
      exact ⟨other, List.mem_cons_of_mem _ hother, given⟩

/-- A loop that got through got through at every item. -/
theorem exists_of_gather_eq_ok {α : Type w} {β : Type v}
    {produce : α → Except ε (List β)} {items : List α} {collected : List β}
    (h : gather produce items = .ok collected) {item : α} (hitem : item ∈ items) :
    ∃ given, produce item = .ok given := by
  induction items generalizing collected with
  | nil => cases hitem
  | cons first items ih =>
    obtain ⟨given, hgiven, hnext⟩ := bind_eq_ok_iff.mp h
    obtain ⟨rest, hrest, -⟩ := bind_eq_ok_iff.mp hnext
    rcases List.mem_cons.mp hitem with rfl | hlater
    · exact ⟨given, hgiven⟩
    · exact ih hrest hlater

/-- A loop whose items give at most one value each collects no more than it has items. -/
theorem length_gather_le {α : Type w} {β : Type v}
    {produce : α → Except ε (List β)} {items : List α} {collected : List β}
    (h : gather produce items = .ok collected)
    (hone : ∀ item given, produce item = .ok given → given.length ≤ 1) :
    collected.length ≤ items.length := by
  induction items generalizing collected with
  | nil =>
    cases h
    exact Nat.le_refl _
  | cons item items ih =>
    obtain ⟨first, hfirst, hnext⟩ := bind_eq_ok_iff.mp h
    obtain ⟨rest, hrest, hcollected⟩ := bind_eq_ok_iff.mp hnext
    cases hcollected
    have hle := hone item first hfirst
    have hlater := ih hrest
    rw [List.length_append, List.length_cons]
    omega

variable {ε : Type u} {σ : Type v} {α : Type w} {step : σ → α → Except ε σ}

/-- What every step keeps holds at the end of a fold that got through. -/
theorem foldlM_invariant (holds : List α → σ → Prop)
    (hstep : ∀ done item before after, holds done before → step before item = .ok after →
      holds (done ++ [item]) after)
    {items : List α} {start final : σ} (hstart : holds [] start)
    (h : items.foldlM step start = .ok final) : holds items final := by
  suffices hgeneral : ∀ (done items : List α) (state : σ), holds done state →
      items.foldlM step state = .ok final → holds (done ++ items) final from
    hgeneral [] items start hstart h
  intro done items state hstate hfold
  induction items generalizing done state with
  | nil =>
    cases hfold
    simpa using hstate
  | cons item items ih =>
    rw [List.foldlM_cons, bind_eq_ok_iff] at hfold
    obtain ⟨next, hnext, hrest⟩ := hfold
    simpa using ih (done ++ [item]) next (hstep done item state next hstate hnext) hrest

/-- A fold that fails failed at one of its steps. -/
theorem exists_of_foldlM_error {items : List α} {start : σ} {error : ε}
    (h : items.foldlM step start = .error error) :
    ∃ item ∈ items, ∃ before, step before item = .error error := by
  induction items generalizing start with
  | nil => cases h
  | cons item items ih =>
    rw [List.foldlM_cons] at h
    cases hfirst : step start item with
    | error first =>
      rw [hfirst] at h
      cases h
      exact ⟨item, List.mem_cons_self, start, hfirst⟩
    | ok after =>
      rw [hfirst] at h
      obtain ⟨other, hother, hfails⟩ := ih h
      exact ⟨other, List.mem_cons_of_mem _ hother, hfails⟩

/-- A fold gets through when every step does, along whatever the steps keep. -/
theorem foldlM_succeeds (holds : List α → σ → Prop) {items : List α}
    (hstep : ∀ done item later before, items = done ++ item :: later → holds done before →
      ∃ after, step before item = .ok after ∧ holds (done ++ [item]) after)
    {start : σ} (hstart : holds [] start) :
    ∃ final, items.foldlM step start = .ok final ∧ holds items final := by
  suffices hgeneral : ∀ (done later : List α) (state : σ), items = done ++ later →
      holds done state → ∃ final, later.foldlM step state = .ok final ∧ holds items final from
    hgeneral [] items start rfl hstart
  intro done later state hsplit hstate
  induction later generalizing done state with
  | nil =>
    rw [List.append_nil] at hsplit
    exact ⟨state, rfl, hsplit ▸ hstate⟩
  | cons item later ih =>
    obtain ⟨next, hnext, hholds⟩ := hstep done item later state hsplit hstate
    obtain ⟨final, hfinal, hend⟩ := ih (done ++ [item]) next (by simp [hsplit]) hholds
    refine ⟨final, ?_, hend⟩
    rw [List.foldlM_cons, bind_eq_ok_iff]
    exact ⟨next, hnext, hfinal⟩

end Ourios.Foundation
