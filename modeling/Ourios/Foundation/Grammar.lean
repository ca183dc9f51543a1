/-
# Words of a grammar

Mathlib's languages have union and concatenation; a lexical grammar needs one more
thing, a class of symbols. A word of a product that begins with such classes is read
from the left: the rules below take off one symbol, or a run of them, and leave the
rest of the word to the rest of the product. The last rule does the same to a test
that reads a word by position.
-/

import Mathlib.Computability.Language

namespace Ourios.Foundation

universe u

variable {α : Type u} {p : α → Bool} {n : Nat} {rest : Language α} {word : List α}

/-- The one-symbol words of a class of symbols. -/
def letter (p : α → Bool) : Language α := {word | ∃ symbol, p symbol ∧ word = [symbol]}

theorem mem_letter_mul :
    word ∈ letter p * rest ↔ word.head?.any p ∧ word.drop 1 ∈ rest := by
  rw [Language.mem_mul]
  constructor
  · rintro ⟨_, ⟨symbol, hsymbol, rfl⟩, tail, htail, rfl⟩
    exact ⟨hsymbol, htail⟩
  · rintro ⟨hhead, htail⟩
    cases word with
    | nil => simp at hhead
    | cons symbol tail => exact ⟨_, ⟨symbol, hhead, rfl⟩, tail, htail, rfl⟩

theorem mem_letter_pow_mul :
    word ∈ letter p ^ n * rest ↔
      n ≤ word.length ∧ (word.take n).all p ∧ word.drop n ∈ rest := by
  induction n generalizing word with
  | zero => simp
  | succ n ih =>
    rw [pow_succ', mul_assoc, mem_letter_mul, ih]
    cases word with
    | nil => simp
    | cons symbol tail =>
      simp
      tauto

/-- A positional test that is one class over a run of positions. -/
theorem all_zipIdx_run {test : α × Nat → Bool} {start : Nat}
    (h : ∀ symbol i, start ≤ i → i < start + n → test (symbol, i) = p symbol) :
    (word.zipIdx start).all test =
      ((word.take n).all p && ((word.drop n).zipIdx (start + n)).all test) := by
  induction n generalizing word start with
  | zero => simp
  | succ n ih =>
    cases word with
    | nil => simp
    | cons symbol tail =>
      have hnext : (tail.zipIdx (start + 1)).all test =
          ((tail.take n).all p && ((tail.drop n).zipIdx (start + 1 + n)).all test) :=
        ih fun symbol i hlow hhigh => h symbol i (by omega) (by omega)
      have hfirst := h symbol start (le_refl _) (by omega)
      simp [List.zipIdx_cons, hfirst, hnext, Bool.and_assoc, Nat.add_comm, Nat.add_left_comm]

end Ourios.Foundation
