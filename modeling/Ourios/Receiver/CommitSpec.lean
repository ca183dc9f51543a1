/-
# Group commit over every schedule

A commit returns success only after a sync that began after its append and succeeded.
Every call that has appended is waited for by something: a call about to spawn a flush, a
flush that has not captured its range or has captured one that includes it, or an outcome
that covers it; and a call that waits for a change has not seen such an outcome. So if
every flush completes, every call returns. The gate lets one sequence in at a time, in the
order of the appends.

The sequence numbers are natural numbers: a run of the receiver makes fewer than `2^64`
appends.
-/

import Ourios.Foundation.Schedules
import Ourios.Receiver.Commit

namespace Ourios.Receiver

open Ourios.Foundation

universe u v

variable {Offset : Type u} {Failure : Type v}

/-! ## What a step can do -/

/-- The steps of a call, as the task it moves to and the coordinator it leaves. -/
inductive CommitSteps (s : Coordinator Offset Failure) :
    CommitTask Offset Failure → CommitTask Offset Failure → Coordinator Offset Failure → Prop
  | refuse (failure : Failure) : CommitSteps s .called (.refused failure) s
  | append (own : Offset) (fillCut : Bool) :
      CommitSteps s .called (.appended ⟨s.nextSeq, own⟩ fillCut)
        { s with nextSeq := s.nextSeq + 1, appendedSeq := s.nextSeq }
  | share {ticket : Ticket Offset} {fillCut : Bool} (h : s.flushPending = true) :
      CommitSteps s (.appended ticket fillCut) (.signalling ticket fillCut) s
  | arm {ticket : Ticket Offset} {fillCut : Bool} (h : s.flushPending = false) :
      CommitSteps s (.appended ticket fillCut) (.spawning ticket fillCut)
        { s with flushPending := true }
  | spawn {ticket : Ticket Offset} {fillCut : Bool} :
      CommitSteps s (.spawning ticket fillCut) (.checking ticket)
        ({ s with flushes := s.flushes ++ [FlushTask.armed s.fill] }.bumpFill fillCut)
  | signal {ticket : Ticket Offset} {fillCut : Bool} :
      CommitSteps s (.signalling ticket fillCut) (.checking ticket) (s.bumpFill fillCut)
  | answer {ticket : Ticket Offset} {result : Except Failure Offset}
      (h : coveredOutcome s.outcome ticket.seq = some result) :
      CommitSteps s (.checking ticket) (.returned ticket result) s
  | wait {ticket : Ticket Offset} (h : coveredOutcome s.outcome ticket.seq = none) :
      CommitSteps s (.checking ticket) (.waiting ticket s.version) s
  | wake {ticket : Ticket Offset} {seen : Nat} (h : s.version ≠ seen) :
      CommitSteps s (.waiting ticket seen) (.checking ticket) s
  | queue {ticket : Ticket Offset} {result : Except Failure Offset}
      (h : s.ingestGate < ticket.seq) :
      CommitSteps s (.returned ticket result) (.queued ticket result s.gateVersion) s
  | enter {ticket : Ticket Offset} {result : Except Failure Offset}
      (h : ticket.seq ≤ s.ingestGate) :
      CommitSteps s (.returned ticket result) (.inTurn ticket result)
        { s with turns := s.turns ++ [ticket.seq] }
  | recheck {ticket : Ticket Offset} {result : Except Failure Offset} {seen : Nat}
      (h : s.gateVersion ≠ seen) :
      CommitSteps s (.queued ticket result seen) (.returned ticket result) s
  | complete {ticket : Ticket Offset} {result : Except Failure Offset} :
      CommitSteps s (.inTurn ticket result) (.completed ticket result)
        { s with ingestGate := ticket.seq + 1, gateVersion := s.gateVersion + 1 }

inductive FlushSteps (s : Coordinator Offset Failure) :
    FlushTask Offset Failure → FlushTask Offset Failure → Coordinator Offset Failure → Prop
  | wake {seen : Nat} : FlushSteps s (.armed seen) .woken s
  | capture : FlushSteps s .woken (.captured s.appendedSeq) { s with flushPending := false }
  | begin {coveredSeq : Nat} (h : s.journalHeld = false) :
      FlushSteps s (.captured coveredSeq) (.syncing coveredSeq s.appendedSeq)
        { s with journalHeld := true }
  | finish {coveredSeq began : Nat} (sync : Except Failure Offset) :
      FlushSteps s (.syncing coveredSeq began) (.synced coveredSeq sync)
        { s with journalHeld := false, syncs := s.syncs ++ [Sync.mk began (isOk sync)] }
  | number {coveredSeq : Nat} {result : Except Failure Offset} :
      FlushSteps s (.synced coveredSeq result)
        (.numbered ⟨s.outcome.generation + 1, coveredSeq, result⟩) s
  | publish {outcome : FlushOutcome Offset Failure} :
      FlushSteps s (.numbered outcome) (.done outcome.coveredSeq) (s.publish outcome)

/-- What a step can do. -/
inductive Steps (s : Coordinator Offset Failure) : Coordinator Offset Failure → Prop
  | stutter : Steps s s
  | call : Steps s { s with commits := s.commits ++ [CommitTask.called] }
  | commit {i : Nat} {task next : CommitTask Offset Failure} {s' : Coordinator Offset Failure}
      (htask : s.commits[i]? = some task) (h : CommitSteps s task next s') :
      Steps s (s'.moveCommit i next)
  | flush {f : Nat} {task next : FlushTask Offset Failure} {s' : Coordinator Offset Failure}
      (htask : s.flushes[f]? = some task) (h : FlushSteps s task next s') :
      Steps s (s'.moveFlush f next)

variable (s : Coordinator Offset Failure)

/-- A call cannot go on: it waits for the journal lock, for a new outcome or for the gate
to move, or it is over. -/
def CommitTask.Blocked : CommitTask Offset Failure → Prop
  | .called => s.journalHeld = true
  | .waiting _ seen => s.version = seen
  | .queued _ _ seen => s.gateVersion = seen
  | .refused _ | .completed _ _ => True
  | _ => False

/-- A call that is polled takes a step, unless it is blocked. -/
theorem stepCommit_cases {i : Nat} {task : CommitTask Offset Failure}
    (htask : s.commits[i]? = some task) (append : Except Failure (Offset × Bool)) :
    (task.Blocked s ∧ s.stepCommit i append = s) ∨
      ∃ next after, CommitSteps s task next after ∧
        s.stepCommit i append = after.moveCommit i next := by
  unfold Coordinator.stepCommit
  rw [htask]
  cases task with
  | called =>
    by_cases hheld : s.journalHeld
    · exact .inl ⟨hheld, if_pos hheld⟩
    · simp only [if_neg hheld]
      cases append with
      | error failure => exact .inr ⟨_, _, .refuse failure, rfl⟩
      | ok answer => exact .inr ⟨_, _, .append answer.1 answer.2, rfl⟩
  | appended =>
    by_cases hpending : s.flushPending
    · exact .inr ⟨_, _, .share hpending, if_pos hpending⟩
    · exact .inr ⟨_, _, .arm (Bool.eq_false_iff.mpr hpending), if_neg hpending⟩
  | spawning => exact .inr ⟨_, _, .spawn, rfl⟩
  | signalling => exact .inr ⟨_, _, .signal, rfl⟩
  | checking ticket =>
    cases hcovered : coveredOutcome s.outcome ticket.seq with
    | none => exact .inr ⟨_, _, .wait hcovered, by simp only [hcovered]⟩
    | some result => exact .inr ⟨_, _, .answer hcovered, by simp only [hcovered]⟩
  | waiting ticket seen =>
    by_cases hversion : s.version = seen
    · exact .inl ⟨hversion, if_pos hversion⟩
    · exact .inr ⟨_, _, .wake hversion, if_neg hversion⟩
  | returned ticket =>
    by_cases hgate : s.ingestGate < ticket.seq
    · exact .inr ⟨_, _, .queue hgate, if_pos hgate⟩
    · exact .inr ⟨_, _, .enter (Nat.le_of_not_lt hgate), if_neg hgate⟩
  | queued ticket result seen =>
    by_cases hversion : s.gateVersion = seen
    · exact .inl ⟨hversion, if_pos hversion⟩
    · exact .inr ⟨_, _, .recheck hversion, if_neg hversion⟩
  | inTurn => exact .inr ⟨_, _, .complete, rfl⟩
  | refused | completed => exact .inl ⟨trivial, rfl⟩

theorem steps_stepCommit (i : Nat)
    (append : Except Failure (Offset × Bool)) : Steps s (s.stepCommit i append) := by
  cases htask : s.commits[i]? with
  | none =>
    unfold Coordinator.stepCommit
    rw [htask]
    exact .stutter
  | some task =>
    rcases stepCommit_cases s htask append with ⟨-, heq⟩ | ⟨next, after, hstep, heq⟩
    · rw [heq]
      exact .stutter
    · rw [heq]
      exact .commit htask hstep

theorem steps_stepFlush (f : Nat) (timer : Bool)
    (sync : Except Failure Offset) : Steps s (s.stepFlush f timer sync) := by
  unfold Coordinator.stepFlush
  split
  · rename_i htask
    split
    · exact .flush htask .wake
    · exact .stutter
  · rename_i htask
    exact .flush htask .capture
  · rename_i htask
    split
    · exact .stutter
    · rename_i hheld
      exact .flush htask (.begin (Bool.eq_false_iff.mpr hheld))
  · rename_i htask
    exact .flush htask (.finish sync)
  · rename_i htask
    exact .flush htask .number
  · rename_i htask
    exact .flush htask .publish
  · exact .stutter

theorem steps_step (action : Action Offset Failure) : Steps s (s.step action) := by
  cases action with
  | call => exact .call
  | commit i append => exact steps_stepCommit s i append
  | flush f timer sync => exact steps_stepFlush s f timer sync

/-! ## What holds along a run -/

namespace Coordinator

variable (s : Coordinator Offset Failure)

/-- A sync that began after an append succeeded. -/
def SyncedUpTo (seq : Nat) : Prop := ∃ sync ∈ s.syncs, seq ≤ sync.began ∧ sync.ok = true

/-- A call is about to spawn a flush. -/
def Spawns : Prop :=
  ∃ (i : Nat) (ticket : Ticket Offset) (fillCut : Bool),
    s.commits[i]? = some (.spawning ticket fillCut)

/-- The outcome cell covers a sequence. -/
def Covered (seq : Nat) : Prop := 1 ≤ s.outcome.generation ∧ seq ≤ s.outcome.coveredSeq

end Coordinator

/-- A flush has captured, or will capture, a range that includes a sequence. -/
def FlushTask.Covers (seq : Nat) : FlushTask Offset Failure → Prop
  | .armed _ | .woken => True
  | .captured coveredSeq | .syncing coveredSeq _ | .synced coveredSeq _ | .done coveredSeq =>
    seq ≤ coveredSeq
  | .numbered outcome => seq ≤ outcome.coveredSeq

/-- A flush has not captured its range. -/
def FlushTask.IsOpen : FlushTask Offset Failure → Prop
  | .armed _ | .woken => True
  | _ => False

/-- Something will bring an outcome for a sequence, or has. -/
def Coordinator.Awaited (seq : Nat) : Prop :=
  s.Spawns ∨ (∃ (f : Nat) (task : FlushTask Offset Failure),
    s.flushes[f]? = some task ∧ task.Covers seq) ∨ s.Covered seq

def FlushTask.Ok : FlushTask Offset Failure → Prop
  | .armed _ | .woken => True
  | .captured coveredSeq => coveredSeq ≤ s.appendedSeq
  | .syncing coveredSeq began => coveredSeq ≤ began
  | .synced coveredSeq result => isOk result = true → s.SyncedUpTo coveredSeq
  | .numbered outcome =>
    1 ≤ outcome.generation ∧ (isOk outcome.result = true → s.SyncedUpTo outcome.coveredSeq)
  | .done coveredSeq => s.Covered coveredSeq

/-- What a call knows. -/
def CommitTask.Ok : CommitTask Offset Failure → Prop
  | .called | .refused _ => True
  | .appended ticket _ => ticket.seq ≤ s.appendedSeq
  | .spawning ticket _ | .signalling ticket _ | .checking ticket =>
    ticket.seq ≤ s.appendedSeq ∧ s.Awaited ticket.seq
  | .waiting ticket seen =>
    ticket.seq ≤ s.appendedSeq ∧ s.Awaited ticket.seq ∧ seen ≤ s.version ∧
      (seen = s.version → coveredOutcome s.outcome ticket.seq = none)
  | .returned ticket result | .queued ticket result _ | .inTurn ticket result
  | .completed ticket result => isOk result = true → s.SyncedUpTo ticket.seq

/-- The invariant of the coordinator up to the return of a call. -/
structure Sound (s : Coordinator Offset Failure) : Prop where
  next : s.nextSeq = s.appendedSeq + 1
  seed : s.outcome.generation = 0 → s.outcome.coveredSeq = 0
  outcome : 1 ≤ s.outcome.generation → isOk s.outcome.result = true →
    s.SyncedUpTo s.outcome.coveredSeq
  pending : s.flushPending = true →
    s.Spawns ∨ ∃ (f : Nat) (task : FlushTask Offset Failure),
      s.flushes[f]? = some task ∧ task.IsOpen
  flushes : ∀ (f : Nat) (task : FlushTask Offset Failure), s.flushes[f]? = some task → task.Ok s
  commits : ∀ (i : Nat) (task : CommitTask Offset Failure), s.commits[i]? = some task → task.Ok s

/-- What no step takes back. -/
structure Grows (s s' : Coordinator Offset Failure) : Prop where
  appended : s.appendedSeq ≤ s'.appendedSeq
  syncs : ∀ sync ∈ s.syncs, sync ∈ s'.syncs
  covered : ∀ {seq}, s.Covered seq → s'.Covered seq
  version : s.version ≤ s'.version
  same : s'.version = s.version → s'.outcome = s.outcome
  spawns : s.Spawns → s'.Spawns ∨ ∃ f seen : Nat, s'.flushes[f]? = some (.armed seen)
  flushes : ∀ {f : Nat} {task : FlushTask Offset Failure} {seq : Nat}, s.flushes[f]? = some task →
    seq ≤ s.appendedSeq → task.Covers seq → ∃ task', s'.flushes[f]? = some task' ∧ task'.Covers seq

section Growth

variable {s s' : Coordinator Offset Failure}

variable (h : Grows s s')
include h

theorem Grows.syncedUpTo {seq : Nat} (hsynced : s.SyncedUpTo seq) : s'.SyncedUpTo seq := by
  obtain ⟨sync, hsync, hok⟩ := hsynced
  exact ⟨sync, h.syncs sync hsync, hok⟩

/-- A call about to spawn a flush still is, or the flush is there and open. -/
theorem Grows.open_of_spawns (hspawns : s.Spawns) :
    s'.Spawns ∨ ∃ (f : Nat) (task : FlushTask Offset Failure),
      s'.flushes[f]? = some task ∧ task.IsOpen := by
  rcases h.spawns hspawns with hspawns' | ⟨f, seen, harmed⟩
  · exact .inl hspawns'
  · exact .inr ⟨f, _, harmed, trivial⟩

theorem Grows.awaited {seq : Nat} (hle : seq ≤ s.appendedSeq)
    (hawaited : s.Awaited seq) : s'.Awaited seq := by
  rcases hawaited with hspawns | ⟨f, task, htask, hcovers⟩ | hcovered
  · rcases h.spawns hspawns with hspawns' | ⟨f, seen, harmed⟩
    · exact .inl hspawns'
    · exact .inr (.inl ⟨f, _, harmed, trivial⟩)
  · obtain ⟨task', htask', hcovers'⟩ := h.flushes htask hle hcovers
    exact .inr (.inl ⟨f, task', htask', hcovers'⟩)
  · exact .inr (.inr (h.covered hcovered))

theorem FlushTask.Ok.grows {task : FlushTask Offset Failure} (hok : task.Ok s) : task.Ok s' := by
  cases task with
  | armed | woken => trivial
  | captured coveredSeq => exact le_trans hok h.appended
  | syncing coveredSeq began => exact hok
  | synced coveredSeq result => exact fun hresult => h.syncedUpTo (hok hresult)
  | numbered outcome => exact ⟨hok.1, fun hresult => h.syncedUpTo (hok.2 hresult)⟩
  | done coveredSeq => exact h.covered hok

theorem CommitTask.Ok.grows {task : CommitTask Offset Failure} (hok : task.Ok s) : task.Ok s' := by
  have hpending : ∀ {seq : Nat}, seq ≤ s.appendedSeq ∧ s.Awaited seq →
      seq ≤ s'.appendedSeq ∧ s'.Awaited seq := fun hawaited =>
    ⟨le_trans hawaited.1 h.appended, h.awaited hawaited.1 hawaited.2⟩
  cases task with
  | called | refused => trivial
  | appended ticket fillCut => exact le_trans hok h.appended
  | waiting ticket seen =>
    obtain ⟨hle, hawaited, hseen, hnone⟩ := hok
    have hversion := h.version
    refine ⟨le_trans hle h.appended, h.awaited hle hawaited, le_trans hseen h.version, ?_⟩
    intro hsame
    rw [h.same (by omega)]
    exact hnone (by omega)
  | returned | queued | inTurn | completed => exact fun hresult => h.syncedUpTo (hok hresult)
  | _ => exact hpending hok

end Growth

/-! ## One step -/

section Step

variable {s s' : Coordinator Offset Failure}

/-- What a step of a call leaves alone. -/
structure CommitFrame (s s' : Coordinator Offset Failure) : Prop where
  commits : s'.commits = s.commits
  outcome : s'.outcome = s.outcome
  version : s'.version = s.version
  syncs : s'.syncs = s.syncs
  flushes : ∀ {f : Nat} {task : FlushTask Offset Failure}, s.flushes[f]? = some task →
    s'.flushes[f]? = some task

variable {task next : CommitTask Offset Failure} {i seq f : Nat}

/-- The tasks after one of them came. -/
theorem getElem?_concat_cases {α : Type*} {tasks : List α} {new task : α}
    (h : (tasks ++ [new])[i]? = some task) : task = new ∨ tasks[i]? = some task := by
  rw [List.getElem?_append] at h
  split at h
  · exact .inr h
  · exact .inl (List.mem_singleton.mp (List.mem_of_getElem? h))

theorem getElem?_concat {α : Type*} {tasks : List α} {new task : α} (h : tasks[i]? = some task) :
    (tasks ++ [new])[i]? = some task := by
  rw [List.getElem?_append_left (List.getElem?_eq_some_iff.mp h).1, h]

theorem getElem?_moved {α : Type*} {tasks : List α} {next task : α} (h : tasks[i]? = some task) :
    (tasks.set i next)[i]? = some next :=
  List.getElem?_set_self (List.getElem?_eq_some_iff.mp h).1

theorem CommitSteps.frame (h : CommitSteps s task next s') :
    CommitFrame s s' := by
  cases h with
  | spawn =>
    refine ⟨rfl, rfl, rfl, rfl, ?_⟩
    intro f task hf
    exact getElem?_concat hf
  | _ => exact ⟨rfl, rfl, rfl, rfl, id⟩

theorem CommitSteps.appended_le (hs : Sound s) (h : CommitSteps s task next s') :
    s.appendedSeq ≤ s'.appendedSeq := by
  cases h with
  | append own fillCut =>
    have := hs.next
    change s.appendedSeq ≤ s.nextSeq
    omega
  | _ => exact le_refl _

/-- The tasks after one of them moved. -/
theorem getElem?_set_cases {α : Type*} {tasks : List α} {j : Nat} {next task : α}
    (h : (tasks.set i next)[j]? = some task) :
    (j = i ∧ task = next) ∨ (j ≠ i ∧ tasks[j]? = some task) := by
  rw [List.getElem?_set] at h
  split at h
  · rename_i hij
    split at h
    · exact .inl ⟨hij.symm, (Option.some.inj h).symm⟩
    · cases h
  · rename_i hij
    exact .inr ⟨Ne.symm hij, h⟩

theorem CommitSteps.spawns (htask : s.commits[i]? = some task) (h : CommitSteps s task next s')
    (hspawns : s.Spawns) :
    (s'.moveCommit i next).Spawns ∨
      ∃ f seen : Nat, (s'.moveCommit i next).flushes[f]? = some (.armed seen) := by
  obtain ⟨j, ticket, fillCut, hj⟩ := hspawns
  by_cases hij : i = j
  · subst hij
    rw [htask] at hj
    cases hj
    cases h with
    | spawn =>
      refine .inr ⟨s.flushes.length, s.fill, ?_⟩
      exact (List.getElem?_append_right (le_refl _)).trans (by rw [Nat.sub_self]; rfl)
  · refine .inl ⟨j, ticket, fillCut, ?_⟩
    change (s'.commits.set i next)[j]? = _
    rw [h.frame.commits, List.getElem?_set_ne hij]
    exact hj

theorem CommitSteps.grows (hs : Sound s) (htask : s.commits[i]? = some task)
    (h : CommitSteps s task next s') :
    Grows s (s'.moveCommit i next) := by
  have hframe := h.frame
  have happended := h.appended_le hs
  refine ⟨happended, ?_, ?_, ?_, ?_, h.spawns htask, ?_⟩
  · intro sync hsync
    change sync ∈ s'.syncs
    rwa [hframe.syncs]
  · intro seq hcovered
    change 1 ≤ s'.outcome.generation ∧ seq ≤ s'.outcome.coveredSeq
    rwa [hframe.outcome]
  · exact Nat.le_of_eq hframe.version.symm
  · exact fun _ => hframe.outcome
  · intro f flush seq hflush _ hcovers
    exact ⟨flush, hframe.flushes hflush, hcovers⟩

/-- What a step of a flush leaves alone, and what it adds. -/
structure FlushFrame (s s' : Coordinator Offset Failure) : Prop where
  commits : s'.commits = s.commits
  flushes : s'.flushes = s.flushes
  appended : s'.appendedSeq = s.appendedSeq
  next : s'.nextSeq = s.nextSeq
  syncs : ∀ sync ∈ s.syncs, sync ∈ s'.syncs
  covered : ∀ {seq}, s.Covered seq → s'.Covered seq
  version : s.version ≤ s'.version
  same : s'.version = s.version → s'.outcome = s.outcome

theorem FlushFrame.refl (s : Coordinator Offset Failure) : FlushFrame s s :=
  ⟨rfl, rfl, rfl, rfl, fun _ => id, id, le_refl _, fun _ => rfl⟩

theorem FlushSteps.frame {task next : FlushTask Offset Failure} (hok : task.Ok s)
    (h : FlushSteps s task next s') : FlushFrame s s' := by
  cases h with
  | wake | number => exact .refl s
  | capture | begin => exact ⟨rfl, rfl, rfl, rfl, fun _ => id, id, le_refl _, fun _ => rfl⟩
  | finish sync =>
    exact ⟨rfl, rfl, rfl, rfl, fun _ hsync => List.mem_append_left _ hsync, id, le_refl _,
      fun _ => rfl⟩
  | @publish outcome =>
    unfold Coordinator.publish
    split
    · rename_i hle
      refine ⟨rfl, rfl, rfl, rfl, fun _ => id, ?_, Nat.le_succ _, ?_⟩
      · intro seq hcovered
        exact ⟨hok.1, le_trans hcovered.2 hle⟩
      · intro hsame
        exact absurd hsame (Nat.succ_ne_self _)
    · exact .refl s

/-- A flush keeps what it covers. -/
theorem FlushSteps.covers {task next : FlushTask Offset Failure} (h : FlushSteps s task next s')
    (hle : seq ≤ s.appendedSeq) (hcovers : task.Covers seq) :
    next.Covers seq := by
  cases h with
  | wake => trivial
  | capture => exact hle
  | _ => exact hcovers

theorem FlushSteps.grows {task next : FlushTask Offset Failure} (hs : Sound s)
    (htask : s.flushes[f]? = some task) (h : FlushSteps s task next s') :
    Grows s (s'.moveFlush f next) := by
  have hframe := h.frame (hs.flushes f task htask)
  refine ⟨Nat.le_of_eq hframe.appended.symm, hframe.syncs, hframe.covered, hframe.version,
    hframe.same, ?_, ?_⟩
  · rintro ⟨i, ticket, fillCut, hi⟩
    refine .inl ⟨i, ticket, fillCut, ?_⟩
    change s'.commits[i]? = _
    rw [hframe.commits, hi]
  · intro g flush seq hflush hle hcovers
    change ∃ task', (s'.flushes.set f next)[g]? = some task' ∧ _
    rw [hframe.flushes]
    by_cases hfg : f = g
    · subst hfg
      rw [htask] at hflush
      cases hflush
      exact ⟨next, getElem?_moved htask, h.covers hle hcovers⟩
    · exact ⟨flush, by rw [List.getElem?_set_ne hfg, hflush], hcovers⟩

/-- No step takes back what was reached. -/
theorem Sound.grows (hs : Sound s) (h : Steps s s') : Grows s s' := by
  have hsame : Grows s s := ⟨le_refl _, fun _ => id, id, le_refl _, fun _ => rfl, .inl,
    fun hflush _ hcovers => ⟨_, hflush, hcovers⟩⟩
  cases h with
  | stutter => exact hsame
  | call =>
    refine ⟨le_refl _, fun _ => id, id, le_refl _, fun _ => rfl, ?_, hsame.flushes⟩
    rintro ⟨i, ticket, fillCut, hi⟩
    exact .inl ⟨i, ticket, fillCut, getElem?_concat hi⟩
  | commit htask h | flush htask h => exact h.grows hs htask

/-! ## The invariant -/

theorem coveredOutcome_eq_some {outcome : FlushOutcome Offset Failure}
    {result : Except Failure Offset} (h : coveredOutcome outcome seq = some result) :
    1 ≤ outcome.generation ∧ seq ≤ outcome.coveredSeq ∧ result = outcome.result := by
  unfold coveredOutcome at h
  split at h
  · cases h
  · rename_i hcovers
    rw [not_or] at hcovers
    exact ⟨Nat.pos_of_ne_zero hcovers.1, Nat.le_of_not_lt hcovers.2, (Option.some.inj h).symm⟩

theorem coveredOutcome_of_covered (h : s.Covered seq) :
    coveredOutcome s.outcome seq = some s.outcome.result := by
  obtain ⟨hgeneration, hle⟩ := h
  exact if_neg (by omega)

theorem Coordinator.SyncedUpTo.mono {seq' : Nat} (h : s.SyncedUpTo seq) (hle : seq' ≤ seq) :
    s.SyncedUpTo seq' := by
  obtain ⟨sync, hsync, hbegan, hok⟩ := h
  exact ⟨sync, hsync, le_trans hle hbegan, hok⟩

/-- A pending flush covers whatever was appended. -/
theorem Sound.awaited_of_pending (hs : Sound s) (hpending : s.flushPending = true) (seq : Nat) :
    s.Awaited seq := by
  rcases hs.pending hpending with hspawns | ⟨f, task, htask, hopen⟩
  · exact .inl hspawns
  · refine .inr (.inl ⟨f, task, htask, ?_⟩)
    cases task with
    | armed seen => trivial
    | woken => trivial
    | _ => exact hopen.elim

theorem CommitSteps.ok (hs : Sound s) (htask : s.commits[i]? = some task)
    (h : CommitSteps s task next s') :
    next.Ok (s'.moveCommit i next) := by
  have hgrows := h.grows hs htask
  have hok := hs.commits i task htask
  cases h with
  | refuse failure => trivial
  | append own fillCut => exact le_refl s.nextSeq
  | share hpending => exact CommitTask.Ok.grows hgrows ⟨hok, hs.awaited_of_pending hpending _⟩
  | @arm ticket fillCut hpending =>
    exact ⟨hok, .inl ⟨i, ticket, fillCut, getElem?_moved htask⟩⟩
  | spawn | signal => exact CommitTask.Ok.grows hgrows hok
  | answer hcovered =>
    intro hresult
    obtain ⟨hgeneration, hle, rfl⟩ := coveredOutcome_eq_some hcovered
    exact (hs.outcome hgeneration hresult).mono hle
  | wait hcovered =>
    obtain ⟨hle, hawaited⟩ := hok
    exact ⟨hle, hgrows.awaited hle hawaited, le_refl _, fun _ => hcovered⟩
  | wake hversion =>
    have hchecking : CommitTask.Ok s (.checking _ : CommitTask Offset Failure) :=
      ⟨hok.1, hok.2.1⟩
    exact CommitTask.Ok.grows hgrows hchecking
  | _ => exact hok

theorem FlushSteps.ok {task next : FlushTask Offset Failure} (hs : Sound s)
    (htask : s.flushes[f]? = some task) (h : FlushSteps s task next s') :
    next.Ok (s'.moveFlush f next) := by
  have hok := hs.flushes f task htask
  cases h with
  | wake => trivial
  | capture => exact le_refl s.appendedSeq
  | begin hheld => exact hok
  | @finish coveredSeq began sync =>
    intro hresult
    exact ⟨⟨began, isOk sync⟩, List.mem_append_right _ List.mem_cons_self, hok, hresult⟩
  | number => exact ⟨Nat.succ_pos _, hok⟩
  | @publish outcome =>
    change (s.publish outcome).Covered outcome.coveredSeq
    unfold Coordinator.publish
    split
    · exact ⟨hok.1, le_refl _⟩
    · rename_i hle
      have hseed := hs.seed
      exact ⟨Nat.pos_of_ne_zero fun hzero => by omega, by omega⟩

theorem CommitSteps.sound (hs : Sound s) (htask : s.commits[i]? = some task)
    (h : CommitSteps s task next s') :
    Sound (s'.moveCommit i next) := by
  have hgrows := h.grows hs htask
  have hframe := h.frame
  refine ⟨?_, ?_, ?_, ?_, ?_, ?_⟩
  · cases h with
    | append own fillCut => rfl
    | _ => exact hs.next
  · intro hgeneration
    change s'.outcome.generation = 0 at hgeneration
    change s'.outcome.coveredSeq = 0
    rw [hframe.outcome] at hgeneration ⊢
    exact hs.seed hgeneration
  · intro hgeneration hresult
    change 1 ≤ s'.outcome.generation at hgeneration
    change isOk s'.outcome.result = true at hresult
    rw [hframe.outcome] at hgeneration hresult
    have hsynced := hgrows.syncedUpTo (hs.outcome hgeneration hresult)
    rwa [← hframe.outcome] at hsynced
  · intro hpending
    by_cases hbefore : s.flushPending = true
    · rcases hs.pending hbefore with hspawns | ⟨f, flush, hflush, hopen⟩
      · exact hgrows.open_of_spawns hspawns
      · exact .inr ⟨f, flush, hframe.flushes hflush, hopen⟩
    · cases h with
      | @arm ticket fillCut _ =>
        exact .inl ⟨i, ticket, fillCut, getElem?_moved htask⟩
      | _ => exact absurd hpending hbefore
  · intro f flush hflush
    cases h with
    | spawn =>
      change (s.flushes ++ [FlushTask.armed s.fill])[f]? = some flush at hflush
      rcases getElem?_concat_cases hflush with rfl | hold
      · trivial
      · exact (hs.flushes f flush hold).grows hgrows
    | _ => exact (hs.flushes f flush hflush).grows hgrows
  · intro j other hother
    change (s'.commits.set i next)[j]? = some other at hother
    rw [hframe.commits] at hother
    rcases getElem?_set_cases hother with ⟨rfl, rfl⟩ | ⟨-, hsame⟩
    · exact h.ok hs htask
    · exact (hs.commits j other hsame).grows hgrows

theorem FlushSteps.sound {task next : FlushTask Offset Failure} (hs : Sound s)
    (htask : s.flushes[f]? = some task) (h : FlushSteps s task next s') :
    Sound (s'.moveFlush f next) := by
  have hgrows := h.grows hs htask
  have hok := hs.flushes f task htask
  have hframe := h.frame hok
  refine ⟨?_, ?_, ?_, ?_, ?_, ?_⟩
  · change s'.nextSeq = s'.appendedSeq + 1
    rw [hframe.next, hframe.appended]
    exact hs.next
  · cases h with
    | @publish outcome =>
      intro hgeneration
      change (s.publish outcome).outcome.generation = 0 at hgeneration
      change (s.publish outcome).outcome.coveredSeq = 0
      unfold Coordinator.publish at hgeneration ⊢
      split
      · rename_i hle
        rw [if_pos hle] at hgeneration
        exact absurd hgeneration (Nat.ne_of_gt hok.1)
      · rename_i hle
        rw [if_neg hle] at hgeneration
        exact hs.seed hgeneration
    | _ => exact hs.seed
  · intro hgeneration hresult
    cases h with
    | @publish outcome =>
      change isOk (s.publish outcome).outcome.result = true at hresult
      change 1 ≤ (s.publish outcome).outcome.generation at hgeneration
      change (s.publish outcome).SyncedUpTo (s.publish outcome).outcome.coveredSeq
      unfold Coordinator.publish at hresult hgeneration ⊢
      split
      · rename_i hle
        rw [if_pos hle] at hresult
        exact hok.2 hresult
      · rename_i hle
        rw [if_neg hle] at hresult hgeneration
        exact hs.outcome hgeneration hresult
    | _ => exact hgrows.syncedUpTo (hs.outcome hgeneration hresult)
  · intro hpending
    have hkeep : s.flushPending = true → task ≠ .woken →
        (s'.moveFlush f next).Spawns ∨ ∃ (g : Nat) (flush : FlushTask Offset Failure),
          (s'.moveFlush f next).flushes[g]? = some flush ∧ flush.IsOpen := by
      intro hbefore hnot
      rcases hs.pending hbefore with hspawns | ⟨g, flush, hflush, hopen⟩
      · exact hgrows.open_of_spawns hspawns
      · change _ ∨ ∃ (g : Nat) (flush : FlushTask Offset Failure),
          (s'.flushes.set f next)[g]? = some flush ∧ flush.IsOpen
        rw [hframe.flushes]
        by_cases hfg : f = g
        · subst hfg
          rw [htask] at hflush
          cases hflush
          refine .inr ⟨f, next, getElem?_moved htask, ?_⟩
          cases h with
          | wake => trivial
          | capture => exact absurd rfl hnot
          | _ => exact hopen.elim
        · exact .inr ⟨g, flush, by rw [List.getElem?_set_ne hfg, hflush], hopen⟩
    cases h with
    | capture => cases hpending
    | @publish outcome =>
      have hsame : (s.publish outcome).flushPending = s.flushPending := by
        unfold Coordinator.publish
        split
        · rfl
        · rfl
      exact hkeep (hsame ▸ hpending) nofun
    | _ => exact hkeep hpending nofun
  · intro g flush hflush
    change (s'.flushes.set f next)[g]? = some flush at hflush
    rw [hframe.flushes] at hflush
    rcases getElem?_set_cases hflush with ⟨rfl, rfl⟩ | ⟨-, hsame⟩
    · exact h.ok hs htask
    · exact (hs.flushes g flush hsame).grows hgrows
  · intro i commit hcommit
    change s'.commits[i]? = some commit at hcommit
    rw [hframe.commits] at hcommit
    exact (hs.commits i commit hcommit).grows hgrows

theorem sound_new (nil : Offset) : Sound (Coordinator.new nil : Coordinator Offset Failure) := by
  exact ⟨rfl, fun _ => rfl, nofun, nofun, nofun, nofun⟩

theorem Sound.step (hs : Sound s) (h : Steps s s') : Sound s' := by
  have hgrows := hs.grows h
  cases h with
  | stutter => exact hs
  | call =>
    refine ⟨hs.next, hs.seed, hs.outcome, ?_, hs.flushes, ?_⟩
    · intro hpending
      rcases hs.pending hpending with hspawns | hopen
      · exact hgrows.open_of_spawns hspawns
      · exact .inr hopen
    · intro i task htask
      rcases getElem?_concat_cases htask with rfl | hold
      · trivial
      · exact (hs.commits i task hold).grows hgrows
  | commit htask h | flush htask h => exact h.sound hs htask

end Step

/-! ## Turns -/

/-- The sequence of a call that has appended. -/
def CommitTask.seq? : CommitTask Offset Failure → Option Nat
  | .called | .refused _ => none
  | .appended ticket _ | .spawning ticket _ | .signalling ticket _ | .checking ticket
  | .waiting ticket _ | .returned ticket _ | .queued ticket _ _ | .inTurn ticket _
  | .completed ticket _ => some ticket.seq

def CommitTask.IsTurn : CommitTask Offset Failure → Prop
  | .inTurn _ _ => True
  | _ => False

/-- Where a call stands to the gate, given its value and its version. -/
def CommitTask.AtGate (gate version : Nat) : CommitTask Offset Failure → Prop
  | .called | .refused _ => True
  | .appended ticket _ | .spawning ticket _ | .signalling ticket _ | .checking ticket
  | .waiting ticket _ | .returned ticket _ => gate ≤ ticket.seq
  | .queued ticket _ seen =>
    gate ≤ ticket.seq ∧ seen ≤ version ∧ (seen = version → gate < ticket.seq)
  | .inTurn ticket _ => ticket.seq = gate
  | .completed ticket _ => ticket.seq < gate

/-- The calls that have appended have the sequences up to the last one, each one of
them. -/
structure Numbered (s : Coordinator Offset Failure) : Prop where
  next : s.nextSeq = s.appendedSeq + 1
  distinct : ∀ {i j : Nat} {first second : CommitTask Offset Failure} {seq : Nat},
    s.commits[i]? = some first → s.commits[j]? = some second → first.seq? = some seq →
    second.seq? = some seq → i = j
  owned : ∀ seq, 1 ≤ seq → seq ≤ s.appendedSeq → ∃ (i : Nat) (task : CommitTask Offset Failure),
    s.commits[i]? = some task ∧ task.seq? = some seq
  bounded : ∀ {i : Nat} {task : CommitTask Offset Failure} {seq : Nat}, s.commits[i]? = some task →
    task.seq? = some seq → 1 ≤ seq ∧ seq ≤ s.appendedSeq

/-- The gate has let in the sequences before it, in order, and the one in its turn. -/
structure Gated (s : Coordinator Offset Failure) : Prop where
  atGate : ∀ {i : Nat} {task : CommitTask Offset Failure}, s.commits[i]? = some task →
    task.AtGate s.ingestGate s.gateVersion
  gate_pos : 1 ≤ s.ingestGate
  gate_le : s.ingestGate ≤ s.appendedSeq + 1
  turns : s.turns = List.range' 1 s.turns.length
  idle : (∀ (i : Nat) (task : CommitTask Offset Failure), s.commits[i]? = some task →
    ¬ task.IsTurn) → s.turns.length + 1 = s.ingestGate
  busy : ∀ {i : Nat} {task : CommitTask Offset Failure}, s.commits[i]? = some task → task.IsTurn →
    s.turns.length = s.ingestGate

section Turns

variable {s s' : Coordinator Offset Failure} {task next : CommitTask Offset Failure} {i : Nat}

theorem CommitTask.IsTurn.atGate (hturn : task.IsTurn) {gate version : Nat}
    (h : task.AtGate gate version) : task.seq? = some gate := by
  cases task with
  | inTurn ticket result => exact congrArg some h
  | _ => exact hturn.elim

/-- A call that keeps its sequence moves. -/
theorem Numbered.move (hs : Numbered s) (htask : s.commits[i]? = some task)
    (hcommits : s'.commits = s.commits.set i next) (hseq : next.seq? = task.seq?)
    (hnext : s'.nextSeq = s.nextSeq) (happended : s'.appendedSeq = s.appendedSeq) :
    Numbered s' := by
  have hback : ∀ {j : Nat} {other : CommitTask Offset Failure}, s'.commits[j]? = some other →
      ∃ before, s.commits[j]? = some before ∧ other.seq? = before.seq? := by
    intro j other hother
    rw [hcommits] at hother
    rcases getElem?_set_cases hother with ⟨rfl, rfl⟩ | ⟨-, hsame⟩
    · exact ⟨task, htask, hseq⟩
    · exact ⟨other, hsame, rfl⟩
  refine ⟨by rw [hnext, happended, hs.next], ?_, ?_, ?_⟩
  · intro a b first second seq hfirst hsecond hone htwo
    obtain ⟨first', hfirst', hone'⟩ := hback hfirst
    obtain ⟨second', hsecond', htwo'⟩ := hback hsecond
    exact hs.distinct hfirst' hsecond' (hone' ▸ hone) (htwo' ▸ htwo)
  · intro seq hpos hle
    rw [happended] at hle
    obtain ⟨j, before, hbefore, howned⟩ := hs.owned seq hpos hle
    rw [hcommits]
    by_cases hij : i = j
    · subst hij
      rw [htask] at hbefore
      cases hbefore
      exact ⟨i, next, getElem?_moved htask, hseq.trans howned⟩
    · exact ⟨j, before, by rw [List.getElem?_set_ne hij, hbefore], howned⟩
  · intro j other seq hother hsome
    obtain ⟨before, hbefore, hsame⟩ := hback hother
    rw [happended]
    exact hs.bounded hbefore (hsame ▸ hsome)

/-- A call gets the next sequence. -/
theorem Numbered.append (hs : Numbered s) (htask : s.commits[i]? = some .called)
    (hcommits : s'.commits = s.commits.set i next) (hseq : next.seq? = some s.nextSeq)
    (hnext : s'.nextSeq = s.nextSeq + 1) (happended : s'.appendedSeq = s.nextSeq) :
    Numbered s' := by
  have hlast := hs.next
  have hold : ∀ {j : Nat} {other : CommitTask Offset Failure}, s.commits[j]? = some other →
      other.seq? ≠ some s.nextSeq := by
    intro j other hother hsome
    have hbound := hs.bounded hother hsome
    omega
  refine ⟨by rw [hnext, happended], ?_, ?_, ?_⟩
  · intro a b first second seq hfirst hsecond hone htwo
    rw [hcommits] at hfirst hsecond
    rcases getElem?_set_cases hfirst with ⟨rfl, rfl⟩ | ⟨-, hfirst'⟩
    · rcases getElem?_set_cases hsecond with ⟨rfl, rfl⟩ | ⟨-, hsecond'⟩
      · rfl
      · exact absurd (htwo.trans (hone.symm.trans hseq)) (hold hsecond')
    · rcases getElem?_set_cases hsecond with ⟨rfl, rfl⟩ | ⟨-, hsecond'⟩
      · exact absurd (hone.trans (htwo.symm.trans hseq)) (hold hfirst')
      · exact hs.distinct hfirst' hsecond' hone htwo
  · intro seq hpos hle
    rw [happended] at hle
    rw [hcommits]
    by_cases hnew : seq = s.nextSeq
    · exact ⟨i, next, getElem?_moved htask, hnew ▸ hseq⟩
    · obtain ⟨j, before, hbefore, howned⟩ := hs.owned seq hpos (by omega)
      have hij : i ≠ j := by
        rintro rfl
        rw [htask] at hbefore
        cases hbefore
        cases howned
      exact ⟨j, before, by rw [List.getElem?_set_ne hij, hbefore], howned⟩
  · intro j other seq hother hsome
    rw [happended]
    rw [hcommits] at hother
    rcases getElem?_set_cases hother with ⟨rfl, rfl⟩ | ⟨-, hother'⟩
    · have hsame : s.nextSeq = seq := Option.some.inj (hseq.symm.trans hsome)
      omega
    · have hbound := hs.bounded hother' hsome
      omega

/-- A call moves, and the gate and the turns stay. -/
theorem Gated.move (hs : Gated s) (htask : s.commits[i]? = some task)
    (hcommits : s'.commits = s.commits.set i next) (happended : s.appendedSeq ≤ s'.appendedSeq)
    (hgate : s'.ingestGate = s.ingestGate) (hversion : s'.gateVersion = s.gateVersion)
    (hturns : s'.turns = s.turns) (hat : next.AtGate s.ingestGate s.gateVersion)
    (hafter : ¬ next.IsTurn) (hbefore : ¬ task.IsTurn) : Gated s' := by
  refine ⟨?_, by rw [hgate]; exact hs.gate_pos, ?_, by rw [hturns]; exact hs.turns, ?_, ?_⟩
  · intro j other hother
    rw [hcommits] at hother
    rw [hgate, hversion]
    rcases getElem?_set_cases hother with ⟨rfl, rfl⟩ | ⟨-, hother'⟩
    · exact hat
    · exact hs.atGate hother'
  · have hle := hs.gate_le
    omega
  · intro hnone
    rw [hturns, hgate]
    apply hs.idle
    intro j other hother hturn
    by_cases hij : i = j
    · subst hij
      rw [htask] at hother
      cases hother
      exact hbefore hturn
    · exact hnone j other (by rw [hcommits, List.getElem?_set_ne hij, hother]) hturn
  · intro j other hother hturn
    rw [hcommits] at hother
    rw [hturns, hgate]
    rcases getElem?_set_cases hother with ⟨rfl, rfl⟩ | ⟨-, hother'⟩
    · exact absurd hturn hafter
    · exact hs.busy hother' hturn

/-- Only the sequence the gate is at can be in its turn. -/
theorem Gated.not_turn {j : Nat} {other : CommitTask Offset Failure} (hs : Gated s)
    (hnumbered : Numbered s) (htask : s.commits[i]? = some task)
    (hseq : task.seq? = some s.ingestGate) (hother : s.commits[j]? = some other) (hne : j ≠ i) :
    ¬ other.IsTurn := by
  intro hturn
  exact hne (hnumbered.distinct hother htask (hturn.atGate (hs.atGate hother)) hseq)

/-- A call enters its turn. -/
theorem Gated.enter {ticket : Ticket Offset} {result : Except Failure Offset} (hs : Gated s)
    (hnumbered : Numbered s) (htask : s.commits[i]? = some (.returned ticket result))
    (hgate : ticket.seq ≤ s.ingestGate) :
    Gated ({ s with turns := s.turns ++ [ticket.seq] }.moveCommit i (.inTurn ticket result)) := by
  have heq : ticket.seq = s.ingestGate := Nat.le_antisymm hgate (hs.atGate htask)
  have hidle : s.turns.length + 1 = s.ingestGate := by
    apply hs.idle
    intro j other hother hturn
    by_cases hij : j = i
    · subst hij
      rw [htask] at hother
      cases hother
      exact hturn
    · exact hs.not_turn hnumbered htask (congrArg some heq) hother hij hturn
  have hlength : (s.turns ++ [ticket.seq]).length = s.turns.length + 1 := List.length_append
  refine ⟨?_, hs.gate_pos, hs.gate_le, ?_, ?_, ?_⟩
  · intro j other hother
    rcases getElem?_set_cases hother with ⟨rfl, rfl⟩ | ⟨-, hother'⟩
    · exact heq
    · exact hs.atGate hother'
  · change s.turns ++ [ticket.seq] = List.range' 1 (s.turns ++ [ticket.seq]).length
    have hlast : ticket.seq = 1 + 1 * s.turns.length := by omega
    rw [hlength, List.range'_concat, ← hs.turns, hlast]
  · intro hnone
    exact absurd trivial (hnone i _ (getElem?_moved htask))
  · intro j other hother hturn
    exact hlength.trans hidle

/-- A call completes its turn. -/
theorem Gated.complete {ticket : Ticket Offset} {result : Except Failure Offset} (hs : Gated s)
    (hnumbered : Numbered s) (htask : s.commits[i]? = some (.inTurn ticket result)) :
    Gated ({ s with ingestGate := ticket.seq + 1, gateVersion := s.gateVersion + 1 }.moveCommit i
      (.completed ticket result)) := by
  have heq : ticket.seq = s.ingestGate := hs.atGate htask
  have hbusy : s.turns.length = s.ingestGate := hs.busy htask trivial
  have hbound := hnumbered.bounded htask rfl
  refine ⟨?_, Nat.succ_pos _, Nat.succ_le_succ hbound.2, hs.turns, ?_, ?_⟩
  · intro j other hother
    change other.AtGate (ticket.seq + 1) (s.gateVersion + 1)
    rcases getElem?_set_cases hother with ⟨rfl, rfl⟩ | ⟨hne, hother'⟩
    · exact Nat.lt_succ_self _
    · -- another call has another sequence, so it is not at the old gate
      have hat := hs.atGate hother'
      have hother_ne : other.seq? ≠ some s.ingestGate := fun hsome =>
        hne (hnumbered.distinct hother' htask hsome (congrArg some heq))
      rw [heq]
      cases other with
      | called => trivial
      | refused failure => trivial
      | inTurn other result => exact absurd (congrArg some hat) hother_ne
      | completed other result => exact Nat.lt_succ_of_lt hat
      | queued other result seen =>
        obtain ⟨hle, hseen, -⟩ := hat
        refine ⟨Nat.lt_of_le_of_ne hle fun h => hother_ne (congrArg some h.symm),
          Nat.le_succ_of_le hseen, ?_⟩
        intro hsame
        omega
      | _ => exact Nat.lt_of_le_of_ne hat fun h => hother_ne (congrArg some h.symm)
  · intro hnone
    change s.turns.length + 1 = ticket.seq + 1
    omega
  · intro j other hother hturn
    rcases getElem?_set_cases hother with ⟨rfl, rfl⟩ | ⟨hne, hother'⟩
    · exact hturn.elim
    · exact absurd hturn (hs.not_turn hnumbered htask (congrArg some heq) hother' hne)

theorem Numbered.commit (hs : Numbered s) (htask : s.commits[i]? = some task)
    (h : CommitSteps s task next s') :
    Numbered (s'.moveCommit i next) := by
  cases h with
  | append own fillCut => exact hs.append htask rfl rfl rfl rfl
  | _ => exact hs.move htask rfl rfl rfl rfl

theorem Gated.commit (hs : Gated s) (hnumbered : Numbered s) (htask : s.commits[i]? = some task)
    (h : CommitSteps s task next s') : Gated (s'.moveCommit i next) := by
  have hat := hs.atGate htask
  cases h with
  | append own fillCut =>
    have hnext := hnumbered.next
    have hle := hs.gate_le
    have hnew : s.ingestGate ≤ s.nextSeq := by omega
    have hgrow : s.appendedSeq ≤ s.nextSeq := by omega
    exact hs.move htask rfl hgrow rfl rfl rfl hnew id id
  | @queue ticket result hgate =>
    exact hs.move htask rfl (le_refl _) rfl rfl rfl ⟨hat, le_refl _, fun _ => hgate⟩ id id
  | enter hgate => exact hs.enter hnumbered htask hgate
  | recheck hversion => exact hs.move htask rfl (le_refl _) rfl rfl rfl hat.1 id id
  | complete => exact hs.complete hnumbered htask
  | _ => exact hs.move htask rfl (le_refl _) rfl rfl rfl hat id id

/-- A flush leaves the gate alone. -/
theorem FlushSteps.gate_eq {task next : FlushTask Offset Failure} (h : FlushSteps s task next s') :
    s'.ingestGate = s.ingestGate ∧ s'.gateVersion = s.gateVersion := by
  cases h with
  | publish =>
    unfold Coordinator.publish
    split <;> exact ⟨rfl, rfl⟩
  | _ => exact ⟨rfl, rfl⟩

theorem Numbered.flush {task next : FlushTask Offset Failure} {f : Nat} (hs : Numbered s)
    (h : FlushSteps s task next s') : Numbered (s'.moveFlush f next) := by
  cases h with
  | publish =>
    unfold Coordinator.publish
    split <;> exact ⟨hs.next, hs.distinct, hs.owned, hs.bounded⟩
  | _ => exact ⟨hs.next, hs.distinct, hs.owned, hs.bounded⟩

theorem Gated.flush {task next : FlushTask Offset Failure} {f : Nat} (hs : Gated s)
    (h : FlushSteps s task next s') : Gated (s'.moveFlush f next) := by
  cases h with
  | publish =>
    unfold Coordinator.publish
    split <;> exact ⟨hs.atGate, hs.gate_pos, hs.gate_le, hs.turns, hs.idle, hs.busy⟩
  | _ => exact ⟨hs.atGate, hs.gate_pos, hs.gate_le, hs.turns, hs.idle, hs.busy⟩

theorem Numbered.call (hs : Numbered s) :
    Numbered { s with commits := s.commits ++ [CommitTask.called] } := by
  refine ⟨hs.next, ?_, ?_, ?_⟩
  · intro i j first second seq hfirst hsecond hone htwo
    rcases getElem?_concat_cases hfirst with rfl | hfirst'
    · cases hone
    · rcases getElem?_concat_cases hsecond with rfl | hsecond'
      · cases htwo
      · exact hs.distinct hfirst' hsecond' hone htwo
  · intro seq hpos hle
    obtain ⟨i, task, htask, howned⟩ := hs.owned seq hpos hle
    exact ⟨i, task, getElem?_concat htask, howned⟩
  · intro i task seq htask hsome
    rcases getElem?_concat_cases htask with rfl | htask'
    · cases hsome
    · exact hs.bounded htask' hsome

theorem Gated.call (hs : Gated s) :
    Gated { s with commits := s.commits ++ [CommitTask.called] } := by
  refine ⟨?_, hs.gate_pos, hs.gate_le, hs.turns, ?_, ?_⟩
  · intro i task htask
    rcases getElem?_concat_cases htask with rfl | htask'
    · trivial
    · exact hs.atGate htask'
  · intro hnone
    exact hs.idle fun i task htask => hnone i task (getElem?_concat htask)
  · intro i task htask hturn
    rcases getElem?_concat_cases htask with rfl | htask'
    · exact hturn.elim
    · exact hs.busy htask' hturn

end Turns

/-! ## Every state of a schedule -/

/-- What holds in every state. -/
structure Invariant (s : Coordinator Offset Failure) : Prop where
  sound : Sound s
  numbered : Numbered s
  gated : Gated s

theorem Invariant.step {s s' : Coordinator Offset Failure} (hs : Invariant s) (h : Steps s s') :
    Invariant s' := by
  refine ⟨hs.sound.step h, ?_, ?_⟩
  · cases h with
    | stutter => exact hs.numbered
    | call => exact hs.numbered.call
    | commit htask h => exact hs.numbered.commit htask h
    | flush htask h => exact hs.numbered.flush h
  · cases h with
    | stutter => exact hs.gated
    | call => exact hs.gated.call
    | commit htask h => exact hs.gated.commit hs.numbered htask h
    | flush htask h => exact hs.gated.flush h

theorem invariant_new (nil : Offset) :
    Invariant (Coordinator.new nil : Coordinator Offset Failure) := by
  refine ⟨sound_new nil, ⟨rfl, nofun, ?_, nofun⟩,
    ⟨nofun, le_refl _, le_refl _, rfl, fun _ => rfl, nofun⟩⟩
  intro seq hpos hle
  change seq ≤ 0 at hle
  omega

/-- The coordinator at a time of a schedule. -/
def coordinatorAt (nil : Offset) (actions : ℕ → Action Offset Failure) :
    ℕ → Coordinator Offset Failure :=
  stateAt Coordinator.step (.new nil) actions

section Schedule

variable (nil : Offset) (actions : ℕ → Action Offset Failure)

theorem invariant_coordinatorAt (n : ℕ) : Invariant (coordinatorAt nil actions n) :=
  stateAt_invariant (invariant_new nil) (fun s action hs => hs.step (steps_step s action)) n

theorem steps_coordinatorAt (n : ℕ) :
    Steps (coordinatorAt nil actions n) (coordinatorAt nil actions (n + 1)) :=
  steps_step _ (actions n)

end Schedule

end Ourios.Receiver
