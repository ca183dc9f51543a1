/-
# Machines that emit

A deterministic machine takes one input at a time and emits a list of outputs.
Everything proved about its runs goes through one rule: a property of the state
and of everything emitted so far that every step keeps holds at the end of every
run. A step may itself be a sequence of smaller moves; `Moves` is that sequence
with its outputs joined, and it has the same rule.
-/

import Mathlib.Data.List.Basic

namespace Ourios.Foundation

universe u v w

variable {σ : Type u} {ι : Type v} {ω : Type w}

/-- One input takes a state to the next and emits outputs. -/
structure Machine (σ : Type u) (ι : Type v) (ω : Type w) where
  step : σ → ι → σ × List ω

namespace Machine

variable (m : Machine σ ι ω)

/-- The state after a list of inputs, with everything emitted on the way. -/
def run : σ → List ι → σ × List ω
  | state, [] => (state, [])
  | state, input :: inputs =>
    ((run (m.step state input).1 inputs).1,
      (m.step state input).2 ++ (run (m.step state input).1 inputs).2)

/-- Every step of a run meets a condition on its state and its input. -/
def Meets (ok : σ → ι → Prop) : σ → List ι → Prop
  | _, [] => True
  | state, input :: inputs => ok state input ∧ Meets ok (m.step state input).1 inputs

instance decidableMeets {ok : σ → ι → Prop} [∀ state input, Decidable (ok state input)] :
    ∀ (state : σ) (inputs : List ι), Decidable (m.Meets ok state inputs)
  | _, [] => isTrue trivial
  | state, input :: inputs =>
    have : Decidable (m.Meets ok (m.step state input).1 inputs) := decidableMeets _ _
    inferInstanceAs (Decidable (ok state input ∧ m.Meets ok (m.step state input).1 inputs))

@[simp] theorem run_nil (state : σ) : m.run state [] = (state, []) := rfl

@[simp] theorem run_cons (state : σ) (input : ι) (inputs : List ι) :
    m.run state (input :: inputs) =
      ((m.run (m.step state input).1 inputs).1,
        (m.step state input).2 ++ (m.run (m.step state input).1 inputs).2) := rfl

theorem run_append (state : σ) (first second : List ι) :
    m.run state (first ++ second) =
      ((m.run (m.run state first).1 second).1,
        (m.run state first).2 ++ (m.run (m.run state first).1 second).2) := by
  induction first generalizing state with
  | nil => simp
  | cons input first ih => simp [ih]

variable {ok : σ → ι → Prop} {state : σ}

theorem meets_append {first second : List ι} :
    m.Meets ok state (first ++ second) ↔
      m.Meets ok state first ∧ m.Meets ok (m.run state first).1 second := by
  induction first generalizing state with
  | nil => simp [Meets]
  | cons input first ih => simp [Meets, ih, and_assoc]

theorem meets_of_forall (state : σ) (inputs : List ι)
    (h : ∀ input ∈ inputs, ∀ state, ok state input) : m.Meets ok state inputs := by
  induction inputs generalizing state with
  | nil => trivial
  | cons input inputs ih =>
    obtain ⟨hfirst, hrest⟩ := List.forall_mem_cons.mp h
    exact ⟨hfirst state, ih _ hrest⟩

/-- What every step keeps, along the states and the outputs so far, holds at the
end of every run. -/
theorem run_invariant (holds : σ → List ω → Prop)
    (hstep : ∀ state emitted input, holds state emitted → ok state input →
      holds (m.step state input).1 (emitted ++ (m.step state input).2)) {emitted : List ω}
    {inputs : List ι} (hstart : holds state emitted) (hmeets : m.Meets ok state inputs) :
    holds (m.run state inputs).1 (emitted ++ (m.run state inputs).2) := by
  induction inputs generalizing state emitted with
  | nil => simpa using hstart
  | cons input inputs ih =>
    have := ih (hstep state emitted input hstart hmeets.1) hmeets.2
    simpa using this

/-- What every step keeps of the state holds at the end of every run. -/
theorem run_preserves (holds : σ → Prop)
    (hstep : ∀ state input, holds state → holds (m.step state input).1) (hstart : holds state)
    (inputs : List ι) : holds (m.run state inputs).1 := by
  induction inputs generalizing state with
  | nil => exact hstart
  | cons input inputs ih => exact ih (hstep state input hstart)

/-- What every step that meets a condition keeps of the state holds at the end of every
run whose steps all meet it. -/
theorem run_preserves_of_meets (holds : σ → Prop)
    (hstep : ∀ state input, holds state → ok state input → holds (m.step state input).1)
    {inputs : List ι} (hstart : holds state) (hmeets : m.Meets ok state inputs) :
    holds (m.run state inputs).1 := by
  induction inputs generalizing state with
  | nil => exact hstart
  | cons input inputs ih => exact ih (hstep state input hstart hmeets.1) hmeets.2

end Machine

/-- A finite sequence of moves, with the outputs of all of them. -/
inductive Moves (move : σ → List ω → σ → Prop) : σ → List ω → σ → Prop
  | refl (state : σ) : Moves move state [] state
  | step {state next final : σ} {out outs : List ω} (first : move state out next)
      (rest : Moves move next outs final) : Moves move state (out ++ outs) final

namespace Moves

variable {move : σ → List ω → σ → Prop}

variable {state : σ} {outs : List ω}

theorem single {next : σ} {out : List ω} (h : move state out next) :
    Moves move state out next := by
  simpa using Moves.step h (.refl next)

theorem trans {first second third : σ} {out : List ω} (h : Moves move first out second)
    (h' : Moves move second outs third) : Moves move first (out ++ outs) third := by
  induction h with
  | refl state => simpa using h'
  | step head _ ih => simpa using Moves.step head (ih h')

/-- What every move keeps of the state, a sequence of moves keeps. -/
theorem preserves (holds : σ → Prop)
    (hmove : ∀ {state out next}, move state out next → holds state → holds next) {final : σ}
    (h : Moves move state outs final) (hstart : holds state) :
    holds final := by
  induction h with
  | refl state => exact hstart
  | step head _ ih => exact ih (hmove head hstart)

/-- What every move keeps of the state and the outputs so far, a sequence of moves
keeps. -/
theorem invariant (holds : σ → List ω → Prop)
    (hmove : ∀ {state emitted out next}, move state out next → holds state emitted →
      holds next (emitted ++ out)) {final : σ} {emitted : List ω} (h : Moves move state outs final)
    (hstart : holds state emitted) : holds final (emitted ++ outs) := by
  induction h generalizing emitted with
  | refl state => simpa using hstart
  | step head _ ih => simpa using ih (hmove head hstart)

end Moves

end Ourios.Foundation
