/-
# Infinite schedules

A deterministic step function driven by an infinite sequence of inputs. An invariant holds
at every time; a value that some part of the state shows keeps being shown until a first
step changes it; and what is true from some time on can be used at every later time.

A finite run is a schedule that stutters after it, so what holds at every time of every
schedule holds after every finite run.
-/

import Mathlib.Data.Nat.Find

namespace Ourios.Foundation

universe u v w

variable {σ : Type u} {ι : Type v} {τ : Type w}

/-- The state of a schedule at a time. -/
def stateAt (step : σ → ι → σ) (start : σ) (inputs : ℕ → ι) : ℕ → σ
  | 0 => start
  | n + 1 => step (stateAt step start inputs n) (inputs n)

section Schedules

variable {step : σ → ι → σ} {start : σ} {inputs : ℕ → ι}

/-- What every step keeps holds at every time. -/
theorem stateAt_invariant {holds : σ → Prop} (hstart : holds start)
    (hstep : ∀ s input, holds s → holds (step s input)) (n : ℕ) :
    holds (stateAt step start inputs n) := by
  induction n with
  | zero => exact hstart
  | succ n ih => exact hstep _ _ ih

/-- What every step keeps, once true, stays true. -/
theorem stateAt_stable {holds : σ → Prop} (hstep : ∀ s input, holds s → holds (step s input))
    {n m : ℕ} (hle : n ≤ m) (h : holds (stateAt step start inputs n)) :
    holds (stateAt step start inputs m) := by
  induction m, hle using Nat.le_induction with
  | base => exact h
  | succ m _ ih => exact hstep _ _ ih

/-- What a state shows, if it is ever different, changes in some first step. -/
theorem exists_first_change (shows : σ → τ) {n m : ℕ} (hle : n ≤ m)
    (hne : shows (stateAt step start inputs m) ≠ shows (stateAt step start inputs n)) :
    ∃ k, n ≤ k ∧ k < m ∧
      shows (stateAt step start inputs k) = shows (stateAt step start inputs n) ∧
      shows (stateAt step start inputs (k + 1)) ≠ shows (stateAt step start inputs n) := by
  induction m, hle using Nat.le_induction with
  | base => exact absurd rfl hne
  | succ m hle ih =>
    by_cases hsame : shows (stateAt step start inputs m) = shows (stateAt step start inputs n)
    · exact ⟨m, hle, Nat.lt_succ_self m, hsame, hne⟩
    · obtain ⟨k, hnk, hkm, hbefore, hafter⟩ := ih hsame
      exact ⟨k, hnk, Nat.lt_succ_of_lt hkm, hbefore, hafter⟩

end Schedules

end Ourios.Foundation
