/-
# Three-valued logic

The truth values of a filter: true, false and unknown (`NULL`). Conjunction and
disjunction are Kleene's, so an unknown operand is only absorbed by the value
that decides the connective. A connective has its unit's value by all of its
operands and the other one by a single operand.
-/

import Mathlib.Data.List.Basic

namespace Ourios.Foundation

/-- A three-valued truth value; `none` is unknown. -/
abbrev Truth := Option Bool

variable (truth : Truth) (isAnd : Bool)

namespace Truth

def not : Truth → Truth := Option.map Bool.not

/-- Conjunction: false decides it. -/
def and : Truth → Truth → Truth
  | some false, _ => some false
  | some true, other => other
  | none, some false => some false
  | none, _ => none

/-- Disjunction: true decides it. -/
def or : Truth → Truth → Truth
  | some true, _ => some true
  | some false, other => other
  | none, some true => some true
  | none, _ => none

/-- The conjunction or the disjunction. -/
def lattice : Truth → Truth → Truth := if isAnd then and else or

/-- Whether a verdict keeps a row: unknown does not. -/
def holds : Bool := truth == some true

@[simp] theorem and_true : and truth (some true) = truth := by
  rcases truth with _ | _ | _ <;> rfl

@[simp] theorem and_false : and truth (some false) = some false := by
  rcases truth with _ | _ | _ <;> rfl

@[simp] theorem or_true : or truth (some true) = some true := by
  rcases truth with _ | _ | _ <;> rfl

@[simp] theorem or_false : or truth (some false) = truth := by
  rcases truth with _ | _ | _ <;> rfl

@[simp] theorem true_and : and (some true) truth = truth := rfl

@[simp] theorem false_and : and (some false) truth = some false := rfl

@[simp] theorem false_or : or (some false) truth = truth := rfl

theorem and_some (left right : Bool) : and (some left) (some right) = some (left && right) := by
  cases left <;> rfl

/-- The unit of a connective. -/
theorem lattice_unit (truth : Truth) : lattice isAnd truth (some isAnd) = truth := by
  cases isAnd
  · exact or_false truth
  · exact and_true truth

theorem unit_lattice (truth : Truth) : lattice isAnd (some isAnd) truth = truth := by
  cases isAnd <;> rfl

/-- The value that decides a connective. -/
theorem lattice_absorb (truth : Truth) : lattice isAnd truth (some !isAnd) = some !isAnd := by
  cases isAnd
  · exact or_true truth
  · exact and_false truth

theorem absorb_lattice (truth : Truth) : lattice isAnd (some !isAnd) truth = some !isAnd := by
  cases isAnd <;> rfl

/-- The connective over a list, from a running value. -/
def fold (start : Truth) (truths : List Truth) : Truth :=
  truths.foldl (lattice isAnd) start

theorem fold_absorb (truths : List Truth) : fold isAnd (some !isAnd) truths = some !isAnd := by
  induction truths with
  | nil => rfl
  | cons truth truths ih =>
    change fold isAnd (lattice isAnd (some !isAnd) truth) truths = _
    rw [absorb_lattice]
    exact ih

theorem lattice_assoc (first second third : Truth) :
    lattice isAnd (lattice isAnd first second) third =
      lattice isAnd first (lattice isAnd second third) := by
  cases isAnd <;> rcases first with _ | _ | _ <;> rcases second with _ | _ | _ <;>
    rcases third with _ | _ | _ <;> rfl

theorem fold_eq_lattice (start : Truth) (truths : List Truth) :
    fold isAnd start truths = lattice isAnd start (fold isAnd (some isAnd) truths) := by
  induction truths generalizing start with
  | nil => exact (lattice_unit isAnd start).symm
  | cons truth truths ih =>
    change fold isAnd (lattice isAnd start truth) truths =
      lattice isAnd start (fold isAnd (lattice isAnd (some isAnd) truth) truths)
    rw [ih, ih (lattice isAnd (some isAnd) truth), unit_lattice, lattice_assoc]

theorem fold_cons (truth : Truth) (truths : List Truth) :
    fold isAnd (some isAnd) (truth :: truths) =
      lattice isAnd truth (fold isAnd (some isAnd) truths) := by
  change fold isAnd (lattice isAnd (some isAnd) truth) truths = _
  rw [unit_lattice, fold_eq_lattice]

theorem not_eq_some_iff {truth : Truth} {value : Bool} :
    truth.not = some value ↔ truth = some !value := by
  rcases truth with _ | _ | _ <;> cases value <;> simp [not]

theorem lattice_eq_some_iff {left right : Truth} {value : Bool} :
    lattice isAnd left right = some value ↔
      if value = isAnd then left = some value ∧ right = some value
      else left = some value ∨ right = some value := by
  cases isAnd <;> cases value <;> rcases left with _ | _ | _ <;>
    rcases right with _ | _ | _ <;> simp [lattice, and, or]

/-- The first verdict is the second one, but for a `false` where that is lost. -/
def Loses (lost : Bool) (low high : Truth) : Prop :=
  ∀ value, low = some value ↔ high = some value ∧ (lost = true → value = true)

theorem Loses.refl (truth : Truth) : Loses false truth truth := by
  simp [Loses]

theorem Loses.of_none : Loses true none (some false) := by
  simp [Loses]

theorem Loses.unique {lost : Bool} {low low' high : Truth} (h : Loses lost low high)
    (h' : Loses lost low' high) : low = low' :=
  Option.ext fun value => (h value).trans (h' value).symm

end Truth

end Ourios.Foundation
