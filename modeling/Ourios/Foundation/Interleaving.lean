/-
# Processes over a shared state

Any number of processes act on one shared state, one action at a time, and events from
outside change it too or start a process. An action that is not enabled changes nothing,
so a list of moves is a schedule.

Invariants of such a system are proved process by process. Each process has an assertion
about the shared state, and a relation that says which changes by the others it relies
on. An action has to keep the shared invariant and its own assertion, and to be a change
every other process relies on; an assertion has to be stable under what its process
relies on. Nothing then has to be said about pairs of processes.
-/

import Ourios.Foundation.Machine

namespace Ourios.Foundation

universe u v w x

/-- What a process does to the shared state and to itself, and what an event does. A
process is given its number, an event the number of the process it would start. -/
structure Interleaving (σ : Type u) (π : Type v) (α : Type w) (ε : Type x) where
  act : σ → Nat → π → α → Option (σ × π)
  event : σ → Nat → ε → Option (σ × Option π)

/-- A shared state and the processes started so far. -/
structure World (σ : Type u) (π : Type v) where
  shared : σ
  procs : List π

inductive Move (α : Type w) (ε : Type x)
  | act (pid : Nat) (action : α)
  | event (event : ε)

variable {σ : Type u} {π : Type v} {α : Type w} {ε : Type x}

namespace Interleaving

variable (system : Interleaving σ π α ε)

/-- One move; a move that is not enabled changes nothing. -/
def step (world : World σ π) : Move α ε → World σ π
  | .act pid action =>
    match world.procs[pid]? with
    | none => world
    | some proc =>
      match system.act world.shared pid proc action with
      | none => world
      | some next => ⟨next.1, world.procs.set pid next.2⟩
  | .event event =>
    match system.event world.shared world.procs.length event with
    | none => world
    | some next => ⟨next.1, world.procs ++ next.2.toList⟩

/-- The system as a machine that takes moves. -/
def machine : Machine (World σ π) (Move α ε) Unit :=
  ⟨fun world move => (system.step world move, [])⟩

def run (world : World σ π) (moves : List (Move α ε)) : World σ π :=
  (system.machine.run world moves).1

@[simp] theorem run_nil (world : World σ π) : system.run world [] = world := rfl

@[simp] theorem run_cons (world : World σ π) (move : Move α ε) (moves : List (Move α ε)) :
    system.run world (move :: moves) = system.run (system.step world move) moves := rfl

theorem run_append (world : World σ π) (first second : List (Move α ε)) :
    system.run world (first ++ second) = system.run (system.run world first) second := by
  rw [run, system.machine.run_append]
  rfl

/-- A condition on the actions of the processes and on the events. -/
structure Condition (σ : Type u) (π : Type v) (α : Type w) (ε : Type x) where
  act : σ → π → α → Prop
  event : σ → ε → Prop

/-- A move meets a condition in a world. -/
def Allows (condition : Condition σ π α ε) (world : World σ π) : Move α ε → Prop
  | .act pid action => ∀ proc, world.procs[pid]? = some proc →
    condition.act world.shared proc action
  | .event event => condition.event world.shared event

/-- Every move of a schedule meets a condition. -/
def Meets (condition : Condition σ π α ε) (world : World σ π) (moves : List (Move α ε)) : Prop :=
  system.machine.Meets (Allows condition) world moves

variable {system} {condition : Condition σ π α ε}

theorem meets_append {world : World σ π} {first second : List (Move α ε)} :
    system.Meets condition world (first ++ second) ↔
      system.Meets condition world first ∧ system.Meets condition (system.run world first) second :=
  system.machine.meets_append

/-- A weaker condition is met as well. -/
theorem Meets.imp {weaker : Condition σ π α ε}
    (hact : ∀ s proc action, condition.act s proc action → weaker.act s proc action)
    (hevent : ∀ s event, condition.event s event → weaker.event s event) {world : World σ π}
    {moves : List (Move α ε)} (h : system.Meets condition world moves) :
    system.Meets weaker world moves := by
  induction moves generalizing world with
  | nil => trivial
  | cons move moves ih =>
    refine ⟨?_, ih h.2⟩
    have hmove := h.1
    cases move with
    | act pid action => exact fun proc hproc => hact _ _ _ (hmove proc hproc)
    | event event => exact hevent _ _ hmove

theorem getElem?_among (before after : List π) (proc : π) :
    (before ++ proc :: after)[before.length]? = some proc := by
  rw [List.getElem?_append_right (Nat.le_refl _), Nat.sub_self]
  rfl

theorem step_act {action : α} {s s' : σ} {before after : List π} {proc proc' : π}
    (hact : system.act s before.length proc action = some (s', proc')) :
    system.step ⟨s, before ++ proc :: after⟩ (.act before.length action) =
      ⟨s', before ++ proc' :: after⟩ := by
  have hset : (before ++ proc :: after).set before.length proc' = before ++ proc' :: after := by
    rw [List.set_append_right _ _ (Nat.le_refl _), Nat.sub_self]
    rfl
  rw [step]
  simp only [getElem?_among, hact, hset]

theorem allows_act {action : α} {s : σ} {before after : List π} {proc : π}
    (hok : condition.act s proc action) :
    Allows condition ⟨s, before ++ proc :: after⟩ (.act before.length action) := by
  intro found hfound
  rw [getElem?_among] at hfound
  exact Option.some.inj hfound ▸ hok

/-- Some schedule that meets a condition leads from one world to another. -/
def Reaches (system : Interleaving σ π α ε) (condition : Condition σ π α ε)
    (world world' : World σ π) : Prop :=
  ∃ moves, system.Meets condition world moves ∧ system.run world moves = world'

namespace Reaches

variable {world world' world'' : World σ π}

theorem refl (world : World σ π) : system.Reaches condition world world := ⟨[], trivial, rfl⟩

theorem trans (h : system.Reaches condition world world')
    (h' : system.Reaches condition world' world'') : system.Reaches condition world world'' := by
  obtain ⟨first, hfirst, rfl⟩ := h
  obtain ⟨second, hsecond, rfl⟩ := h'
  exact ⟨first ++ second, meets_append.mpr ⟨hfirst, hsecond⟩, system.run_append _ _ _⟩

theorem imp {weaker : Condition σ π α ε}
    (hact : ∀ s proc action, condition.act s proc action → weaker.act s proc action)
    (hevent : ∀ s event, condition.event s event → weaker.event s event)
    (h : system.Reaches condition world world') : system.Reaches weaker world world' := by
  obtain ⟨moves, hmoves, hrun⟩ := h
  exact ⟨moves, hmoves.imp hact hevent, hrun⟩

variable {s s' : σ}

/-- An event that starts no process. -/
theorem occur (event : ε) {procs : List π} (hok : condition.event s event)
    (hevent : system.event s procs.length event = some (s', none)) :
    system.Reaches condition ⟨s, procs⟩ ⟨s', procs⟩ := by
  refine ⟨[.event event], ⟨hok, trivial⟩, ?_⟩
  rw [run_cons, run_nil, step, hevent]
  simp

/-- An event that starts a process. -/
theorem start (event : ε) {procs : List π} {proc : π} (hok : condition.event s event)
    (hevent : system.event s procs.length event = some (s', some proc)) :
    system.Reaches condition ⟨s, procs⟩ ⟨s', procs ++ [proc]⟩ := by
  refine ⟨[.event event], ⟨hok, trivial⟩, ?_⟩
  rw [run_cons, run_nil, step, hevent]
  rfl

/-- A process acts among others. -/
theorem act (action : α) {before after : List π} {proc proc' : π}
    (hok : condition.act s proc action)
    (hact : system.act s before.length proc action = some (s', proc')) :
    system.Reaches condition ⟨s, before ++ proc :: after⟩ ⟨s', before ++ proc' :: after⟩ :=
  ⟨[.act before.length action], ⟨allows_act hok, trivial⟩, step_act hact⟩

end Reaches

variable [∀ s proc action, Decidable (condition.act s proc action)]
variable [∀ s event, Decidable (condition.event s event)]

instance decidableAllows (world : World σ π) :
    ∀ move : Move α ε, Decidable (Allows condition world move)
  | .act pid action =>
    inferInstanceAs (Decidable (∀ proc, world.procs[pid]? = some proc →
      condition.act world.shared proc action))
  | .event event => inferInstanceAs (Decidable (condition.event world.shared event))

instance decidableMeets (world : World σ π) (moves : List (Move α ε)) :
    Decidable (system.Meets condition world moves) :=
  inferInstanceAs (Decidable (system.machine.Meets (Allows condition) world moves))

end Interleaving

/-- An invariant of the shared state, an assertion for each process, and what each process
relies on, with what makes them hold along every run that meets a condition. -/
structure Discipline (system : Interleaving σ π α ε)
    (condition : Interleaving.Condition σ π α ε) where
  shared : σ → Prop
  assertion : σ → Nat → π → Prop
  rely : Nat → σ → σ → Prop
  act_sound : ∀ {s pid proc action next}, shared s → assertion s pid proc →
    condition.act s proc action → system.act s pid proc action = some next →
    shared next.1 ∧ assertion next.1 pid next.2 ∧ ∀ other ≠ pid, rely other s next.1
  event_sound : ∀ {s pid event next}, shared s → condition.event s event →
    system.event s pid event = some next →
    shared next.1 ∧ (∀ proc, next.2 = some proc → assertion next.1 pid proc) ∧
      ∀ other ≠ pid, rely other s next.1
  stable : ∀ {s s' pid proc}, rely pid s s' → assertion s pid proc → assertion s' pid proc

namespace Discipline

variable {system : Interleaving σ π α ε} {condition : Interleaving.Condition σ π α ε}
variable (discipline : Discipline system condition)

/-- The shared invariant and the assertion of every process. -/
structure Holds (world : World σ π) : Prop where
  shared : discipline.shared world.shared
  procs : ∀ pid proc, world.procs[pid]? = some proc → discipline.assertion world.shared pid proc

variable {discipline}

variable {world : World σ π}

section

variable (h : discipline.Holds world)
include h

theorem Holds.act {pid : Nat} {proc : π} {action : α} {next : σ × π}
    (hproc : world.procs[pid]? = some proc) (hok : condition.act world.shared proc action)
    (hact : system.act world.shared pid proc action = some next) :
    discipline.Holds ⟨next.1, world.procs.set pid next.2⟩ := by
  obtain ⟨hshared, hself, hothers⟩ :=
    discipline.act_sound h.shared (h.procs pid proc hproc) hok hact
  refine ⟨hshared, ?_⟩
  intro other found hfound
  by_cases heq : pid = other
  · subst other
    have hlt : pid < world.procs.length := (List.getElem?_eq_some_iff.mp hproc).1
    rw [List.getElem?_set_self hlt] at hfound
    exact Option.some.inj hfound ▸ hself
  · rw [List.getElem?_set_ne heq] at hfound
    exact discipline.stable (hothers other (Ne.symm heq)) (h.procs other found hfound)

theorem Holds.event {event : ε} {next : σ × Option π} (hok : condition.event world.shared event)
    (hevent : system.event world.shared world.procs.length event = some next) :
    discipline.Holds ⟨next.1, world.procs ++ next.2.toList⟩ := by
  obtain ⟨hshared, hnew, hothers⟩ := discipline.event_sound h.shared hok hevent
  refine ⟨hshared, ?_⟩
  intro other found hfound
  rcases Nat.lt_or_ge other world.procs.length with hlt | hge
  · rw [List.getElem?_append_left hlt] at hfound
    exact discipline.stable (hothers other (Nat.ne_of_lt hlt)) (h.procs other found hfound)
  · rw [List.getElem?_append_right hge] at hfound
    cases hnext : next.2 with
    | none =>
      rw [hnext] at hfound
      cases hfound
    | some proc =>
      rw [hnext, Option.toList_some, List.getElem?_singleton] at hfound
      split at hfound
      · have heq : other = world.procs.length := by omega
        cases hfound
        rw [heq]
        exact hnew _ hnext
      · cases hfound

theorem Holds.step {move : Move α ε} (hok : Interleaving.Allows condition world move) :
    discipline.Holds (system.step world move) := by
  cases move with
  | act pid action =>
    rw [Interleaving.step]
    split
    · exact h
    · rename_i proc hproc
      split
      · exact h
      · rename_i next hact
        exact h.act hproc (hok proc hproc) hact
  | event event =>
    rw [Interleaving.step]
    split
    · exact h
    · rename_i next hevent
      exact h.event hok hevent

/-- What a discipline asserts holds at the end of every run that meets its condition. -/
theorem Holds.run {moves : List (Move α ε)}
    (hmeets : system.Meets condition world moves) : discipline.Holds (system.run world moves) :=
  system.machine.run_preserves_of_meets discipline.Holds (fun _ _ hholds hok => hholds.step hok) h
    hmeets

end

/-- A world without processes starts one. -/
theorem holds_start {s : σ} (h : discipline.shared s) : discipline.Holds ⟨s, []⟩ :=
  ⟨h, fun pid proc hproc => by cases hproc⟩

end Discipline

end Ourios.Foundation
