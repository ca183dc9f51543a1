/-
# Every commit returns, and every sequence has its turn

The results about whole schedules. What is assumed of a schedule is stated here: every
flush completes, a call that can go on is polled at some time (at one when the journal lock
is free, if it asks for that), and so is a caller in its turn. Nothing is assumed of the
order in which this happens, of the windows, of the fill cuts, or of what the journal
answers.
-/

import Ourios.Receiver.CommitSpec

namespace Ourios.Receiver

open Ourios.Foundation

universe u v

variable {Offset : Type u} {Failure : Type v}

/-- A task that waits for nothing. A caller in its turn is apart. -/
def CommitTask.Runnable (s : Coordinator Offset Failure) : CommitTask Offset Failure → Prop
  | .waiting _ seen => s.version ≠ seen
  | .queued _ _ seen => s.gateVersion ≠ seen
  | .refused _ | .inTurn _ _ | .completed _ _ => False
  | _ => True

def CommitTask.HasReturned : CommitTask Offset Failure → Prop
  | .refused _ | .returned _ _ | .queued _ _ _ | .inTurn _ _ | .completed _ _ => True
  | _ => False

/-- What the call returned, with its ticket. -/
def CommitTask.result? :
    CommitTask Offset Failure → Option (Ticket Offset × Except Failure Offset)
  | .returned ticket result | .queued ticket result _ | .inTurn ticket result
  | .completed ticket result => some (ticket, result)
  | _ => none

/-! ## What is assumed of a schedule -/

section Fairness

variable (nil : Offset) (actions : ℕ → Action Offset Failure)

/-- A call at a time. -/
def commitAt (n i : ℕ) : Option (CommitTask Offset Failure) :=
  (coordinatorAt nil actions n).commits[i]?

def FlushesComplete : Prop :=
  ∀ n f : ℕ, f < (coordinatorAt nil actions n).flushes.length →
    ∃ m ≥ n, ∃ coveredSeq, (coordinatorAt nil actions m).flushes[f]? = some (.done coveredSeq)

/-- Every call that can go on is polled, with the journal lock if it asks for it. -/
def Scheduled : Prop :=
  ∀ (n i : ℕ) (task : CommitTask Offset Failure), commitAt nil actions n i = some task →
    task.Runnable (coordinatorAt nil actions n) → ∃ m ≥ n, ∃ append,
      actions m = .commit i append ∧
        (task = .called → (coordinatorAt nil actions m).journalHeld = false)

/-- Every caller in its turn goes on. -/
def TurnsComplete : Prop :=
  ∀ (n i : ℕ) (task : CommitTask Offset Failure), commitAt nil actions n i = some task →
    task.IsTurn → ∃ m ≥ n, ∃ append, actions m = .commit i append

end Fairness

/-! ## One call -/

section Steps

variable {s s' : Coordinator Offset Failure}

/-- A call stays, or takes a step of its own. -/
theorem Steps.task_cases (h : Steps s s') (hs : Invariant s) {i : ℕ}
    {task : CommitTask Offset Failure} (htask : s.commits[i]? = some task) :
    s'.commits[i]? = some task ∨
      ∃ next after, CommitSteps s task next after ∧ s' = after.moveCommit i next ∧
        s'.commits[i]? = some next := by
  cases h with
  | stutter => exact .inl htask
  | call => exact .inl (getElem?_concat htask)
  | @commit j moved next after hmoved h =>
    by_cases hij : j = i
    · subst hij
      rw [hmoved] at htask
      cases htask
      refine .inr ⟨next, after, h, rfl, ?_⟩
      exact getElem?_moved (h.frame.commits ▸ hmoved)
    · refine .inl ?_
      change (after.commits.set j next)[i]? = _
      rw [h.frame.commits, List.getElem?_set_ne hij, htask]
  | @flush f moved next after hmoved h =>
    refine .inl ?_
    change after.commits[i]? = _
    rw [(h.frame (hs.sound.flushes f moved hmoved)).commits, htask]

/-- The gate only moves up. -/
theorem Steps.gate_le (h : Steps s s') (hs : Invariant s) :
    s.ingestGate ≤ s'.ingestGate ∧ s.gateVersion ≤ s'.gateVersion := by
  cases h with
  | stutter | call => exact ⟨le_refl _, le_refl _⟩
  | commit htask h =>
    cases h with
    | @complete ticket result =>
      have heq : ticket.seq = s.ingestGate := hs.gated.atGate htask
      exact ⟨heq ▸ Nat.le_succ _, Nat.le_succ _⟩
    | _ => exact ⟨le_refl _, le_refl _⟩
  | flush htask h => exact ⟨Nat.le_of_eq h.gate_eq.1.symm, Nat.le_of_eq h.gate_eq.2.symm⟩

/-- A call keeps the sequence its append gave it. -/
theorem Steps.seq?_eq (h : Steps s s') (hs : Invariant s) {i seq : ℕ}
    {task : CommitTask Offset Failure} (htask : s.commits[i]? = some task)
    (hseq : task.seq? = some seq) :
    ∃ next, s'.commits[i]? = some next ∧ next.seq? = some seq := by
  rcases h.task_cases hs htask with hsame | ⟨next, after, hstep, -, hnext⟩
  · exact ⟨task, hsame, hseq⟩
  · refine ⟨next, hnext, ?_⟩
    cases hstep with
    | refuse | append => cases hseq
    | _ => exact hseq

end Steps

section Schedule

variable {nil : Offset} {actions : ℕ → Action Offset Failure}

variable {n m i seq : ℕ} {task : CommitTask Offset Failure} {ticket : Ticket Offset}
  {result : Except Failure Offset}

/-- What every step keeps, with the invariant, stays true. -/
theorem coordinatorAt_stable (holds : Coordinator Offset Failure → Prop)
    (hstep : ∀ s s', Invariant s → Steps s s' → holds s → holds s') (hle : n ≤ m)
    (h : holds (coordinatorAt nil actions n)) : holds (coordinatorAt nil actions m) := by
  have hboth : ∀ s action, Invariant s ∧ holds s →
      Invariant (Coordinator.step s action) ∧ holds (Coordinator.step s action) :=
        fun s action hs =>
    ⟨hs.1.step (steps_step s action), hstep s _ hs.1 (steps_step s action) hs.2⟩
  exact (stateAt_stable hboth hle ⟨invariant_coordinatorAt nil actions n, h⟩).2

theorem gate_mono (hle : n ≤ m) :
    (coordinatorAt nil actions n).ingestGate ≤ (coordinatorAt nil actions m).ingestGate ∧
      (coordinatorAt nil actions n).gateVersion ≤ (coordinatorAt nil actions m).gateVersion :=
  coordinatorAt_stable
    (fun s => (coordinatorAt nil actions n).ingestGate ≤ s.ingestGate ∧
      (coordinatorAt nil actions n).gateVersion ≤ s.gateVersion)
    (fun _ _ hs hstep h =>
      ⟨le_trans h.1 (hstep.gate_le hs).1, le_trans h.2 (hstep.gate_le hs).2⟩)
    hle ⟨le_refl _, le_refl _⟩

/-- A change that a call waits for is not taken back. -/
theorem runnable_mono (htask : commitAt nil actions n i = some task) (hle : n ≤ m)
    (h : task.Runnable (coordinatorAt nil actions n)) :
    task.Runnable (coordinatorAt nil actions m) := by
  cases task with
  | waiting ticket seen =>
    obtain ⟨-, -, hseen, -⟩ := (invariant_coordinatorAt nil actions n).sound.commits i _ htask
    have hversion : (coordinatorAt nil actions n).version ≤ (coordinatorAt nil actions m).version :=
      coordinatorAt_stable (fun s => (coordinatorAt nil actions n).version ≤ s.version)
        (fun _ _ hs hstep h => le_trans h (hs.sound.grows hstep).version) hle (le_refl _)
    exact Nat.ne_of_gt (lt_of_lt_of_le (lt_of_le_of_ne hseen (Ne.symm h)) hversion)
  | queued ticket result seen =>
    obtain ⟨-, hseen, -⟩ := (invariant_coordinatorAt nil actions n).gated.atGate htask
    exact Nat.ne_of_gt (lt_of_lt_of_le (lt_of_le_of_ne hseen (Ne.symm h)) (gate_mono hle).2)
  | _ => exact h

/-- A call that is polled while it is not blocked takes a step by then. -/
theorem exists_step (htask : commitAt nil actions n i = some task) (hle : n ≤ m)
    {append : Except Failure (Offset × Bool)} (hpoll : actions m = .commit i append)
    (hfree : ¬ task.Blocked (coordinatorAt nil actions m)) :
    ∃ k ≥ n, commitAt nil actions k i = some task ∧ ∃ next after,
      CommitSteps (coordinatorAt nil actions k) task next after ∧
      coordinatorAt nil actions (k + 1) = after.moveCommit i next ∧
      commitAt nil actions (k + 1) i = some next := by
  have hpolled : coordinatorAt nil actions (m + 1) =
      (coordinatorAt nil actions m).stepCommit i append := by
    change Coordinator.step _ (actions m) = _
    rw [hpoll]
    rfl
  by_cases hsame : commitAt nil actions m i = some task
  · rcases stepCommit_cases _ hsame append with ⟨hblocked, -⟩ | ⟨next, after, hstep, heq⟩
    · exact absurd hblocked hfree
    · refine ⟨m, hle, hsame, next, after, hstep, hpolled.trans heq, ?_⟩
      rw [commitAt, hpolled, heq]
      exact getElem?_moved (hstep.frame.commits.symm ▸ hsame : after.commits[i]? = some task)
  have hne : commitAt nil actions m i ≠ commitAt nil actions n i := by
    rw [htask]
    exact hsame
  obtain ⟨k, hnk, -, hbefore, hafter⟩ := exists_first_change
    (fun s : Coordinator Offset Failure => s.commits[i]?) hle hne
  have hk : commitAt nil actions k i = some task := hbefore.trans htask
  refine ⟨k, hnk, hk, ?_⟩
  rcases (steps_coordinatorAt nil actions k).task_cases (invariant_coordinatorAt nil actions k) hk
    with hsame | hstep
  · exact absurd (hsame.trans htask.symm) hafter
  · exact hstep

theorem Scheduled.exists_step (hscheduled : Scheduled nil actions)
    (htask : commitAt nil actions n i = some task)
    (hrunnable : task.Runnable (coordinatorAt nil actions n)) :
    ∃ k ≥ n, commitAt nil actions k i = some task ∧ ∃ next after,
      CommitSteps (coordinatorAt nil actions k) task next after ∧
      coordinatorAt nil actions (k + 1) = after.moveCommit i next ∧
      commitAt nil actions (k + 1) i = some next := by
  obtain ⟨m, hle, append, hpoll, hlock⟩ := hscheduled n i task htask hrunnable
  refine Receiver.exists_step htask hle hpoll fun hblocked => ?_
  have hthen := runnable_mono htask hle hrunnable
  cases task with
  | called => cases (hlock rfl).symm.trans hblocked
  | waiting | queued => exact hthen hblocked
  | refused | completed => exact hthen
  | _ => exact hblocked

/-! ## Outcomes -/

theorem covered_mono (hle : n ≤ m) (h : (coordinatorAt nil actions n).Covered seq) :
    (coordinatorAt nil actions m).Covered seq :=
  coordinatorAt_stable (fun s => s.Covered seq)
    (fun _ _ hs hstep => (hs.sound.grows hstep).covered) hle h

/-- A flush that covers a sequence brings an outcome that does. -/
theorem eventually_covered_of_flush (hflushes : FlushesComplete nil actions) {f : ℕ}
    {task : FlushTask Offset Failure}
    (htask : (coordinatorAt nil actions n).flushes[f]? = some task)
    (hle : seq ≤ (coordinatorAt nil actions n).appendedSeq) (hcovers : task.Covers seq) :
    ∃ m ≥ n, (coordinatorAt nil actions m).Covered seq := by
  have hlt : f < (coordinatorAt nil actions n).flushes.length :=
    (List.getElem?_eq_some_iff.mp htask).1
  obtain ⟨m, hnm, coveredSeq, hdone⟩ := hflushes n f hlt
  refine ⟨m, hnm, ?_⟩
  have hkept : seq ≤ (coordinatorAt nil actions m).appendedSeq ∧
      ∃ task, (coordinatorAt nil actions m).flushes[f]? = some task ∧ task.Covers seq := by
    apply coordinatorAt_stable (fun s => seq ≤ s.appendedSeq ∧
      ∃ task, s.flushes[f]? = some task ∧ task.Covers seq) _ hnm ⟨hle, task, htask, hcovers⟩
    rintro s s' hs hstep ⟨hseq, flush, hflush, hcover⟩
    have hgrows := hs.sound.grows hstep
    exact ⟨le_trans hseq hgrows.appended, hgrows.flushes hflush hseq hcover⟩
  obtain ⟨-, found, hfound, hcover⟩ := hkept
  rw [hdone] at hfound
  cases hfound
  obtain ⟨hgeneration, hcovered⟩ :=
    (invariant_coordinatorAt nil actions m).sound.flushes f _ hdone
  exact ⟨hgeneration, le_trans hcover hcovered⟩

/-- What is awaited comes. -/
theorem eventually_covered (hflushes : FlushesComplete nil actions)
    (hscheduled : Scheduled nil actions) (hle : seq ≤ (coordinatorAt nil actions n).appendedSeq)
    (hawaited : (coordinatorAt nil actions n).Awaited seq) :
    ∃ m ≥ n, (coordinatorAt nil actions m).Covered seq := by
  rcases hawaited with ⟨i, ticket, fillCut, hspawning⟩ | ⟨f, task, htask, hcovers⟩ | hcovered
  · obtain ⟨k, hnk, hk, next, after, hstep, hafter, -⟩ :=
      hscheduled.exists_step hspawning trivial
    cases hstep with
    | spawn =>
      have harmed : (coordinatorAt nil actions (k + 1)).flushes[
          (coordinatorAt nil actions k).flushes.length]? =
            some (.armed (coordinatorAt nil actions k).fill) := by
        rw [hafter]
        exact (List.getElem?_append_right (le_refl _)).trans (by rw [Nat.sub_self]; rfl)
      have happended : seq ≤ (coordinatorAt nil actions (k + 1)).appendedSeq :=
        coordinatorAt_stable (fun s => seq ≤ s.appendedSeq)
          (fun s s' hs hstep hseq => le_trans hseq (hs.sound.grows hstep).appended)
          (Nat.le_succ_of_le hnk) hle
      obtain ⟨m, hkm, hcovered⟩ :=
        eventually_covered_of_flush hflushes harmed happended trivial
      exact ⟨m, by omega, hcovered⟩
  · exact eventually_covered_of_flush hflushes htask hle hcovers
  · exact ⟨n, le_refl _, hcovered⟩

/-! ## Returns -/

variable (nil actions) in
/-- A call has returned, or does so later. -/
def Returns (n i : ℕ) : Prop :=
  ∃ m ≥ n, ∃ task, commitAt nil actions m i = some task ∧ task.HasReturned

theorem Returns.before (h : Returns nil actions m i) (hle : n ≤ m) : Returns nil actions n i := by
  obtain ⟨k, hmk, hreturned⟩ := h
  exact ⟨k, le_trans hle hmk, hreturned⟩

section Scheduled

variable (hscheduled : Scheduled nil actions)

include hscheduled

/-- A call that checks a covering outcome returns. -/
theorem returns_of_checking (htask : commitAt nil actions n i = some (.checking ticket))
    (hcovered : (coordinatorAt nil actions n).Covered ticket.seq) :
    Returns nil actions n i := by
  obtain ⟨k, hnk, hk, next, after, hstep, -, hnext⟩ := hscheduled.exists_step htask trivial
  have hthen := coveredOutcome_of_covered (covered_mono hnk hcovered)
  cases hstep with
  | answer hanswer => exact ⟨k + 1, Nat.le_succ_of_le hnk, _, hnext, trivial⟩
  | wait hnone =>
    rw [hthen] at hnone
    cases hnone

/-- A call that waits while an outcome covers it has not seen it, and returns. -/
theorem returns_of_waiting {seen : ℕ}
    (htask : commitAt nil actions n i = some (.waiting ticket seen))
    (hcovered : (coordinatorAt nil actions n).Covered ticket.seq) :
    Returns nil actions n i := by
  obtain ⟨-, -, -, hunseen⟩ := (invariant_coordinatorAt nil actions n).sound.commits i _ htask
  have hversion : (coordinatorAt nil actions n).version ≠ seen := by
    intro hsame
    have hnone := hunseen hsame.symm
    rw [coveredOutcome_of_covered hcovered] at hnone
    cases hnone
  obtain ⟨k, hnk, hk, next, after, hstep, -, hnext⟩ := hscheduled.exists_step htask hversion
  cases hstep with
  | wake hwoken =>
    have hthen := covered_mono (Nat.le_succ_of_le hnk) hcovered
    exact (returns_of_checking hscheduled hnext hthen).before (Nat.le_succ_of_le hnk)

/-- A call between its append and its return. -/
def CommitTask.Polls (ticket : Ticket Offset) : CommitTask Offset Failure → Prop
  | .checking other | .waiting other _ => other = ticket
  | task => task.HasReturned

omit hscheduled in
/-- A call that checks goes on checking until it returns. -/
theorem polls_stable (hle : n ≤ m)
    (h : ∃ task, commitAt nil actions n i = some task ∧ task.Polls ticket) :
    ∃ task, commitAt nil actions m i = some task ∧ task.Polls ticket := by
  apply coordinatorAt_stable
    (fun s => ∃ task : CommitTask Offset Failure, s.commits[i]? = some task ∧ task.Polls ticket)
    _ hle h
  rintro s s' hs hstep ⟨task, htask, hpolls⟩
  rcases hstep.task_cases hs htask with hsame | ⟨next, after, hmove, -, hnext⟩
  · exact ⟨task, hsame, hpolls⟩
  · refine ⟨next, hnext, ?_⟩
    cases hmove with
    | refuse | append | share | arm | spawn | signal => exact hpolls.elim
    | wait | wake => exact hpolls
    | _ => trivial

variable (hflushes : FlushesComplete nil actions)

include hflushes

/-- A call that polls for an awaited outcome returns. -/
theorem returns_of_polls (htask : commitAt nil actions n i = some task)
    (hpolls : task.Polls ticket) (hle : ticket.seq ≤ (coordinatorAt nil actions n).appendedSeq)
    (hawaited : (coordinatorAt nil actions n).Awaited ticket.seq) :
    Returns nil actions n i := by
  obtain ⟨k, hnk, hcovered⟩ := eventually_covered hflushes hscheduled hle hawaited
  obtain ⟨found, hk, hpolls⟩ := polls_stable hnk ⟨task, htask, hpolls⟩
  refine Returns.before ?_ hnk
  cases found with
  | checking other =>
    cases hpolls
    exact returns_of_checking hscheduled hk hcovered
  | waiting other seen =>
    cases hpolls
    exact returns_of_waiting hscheduled hk hcovered
  | _ => exact ⟨k, le_refl _, _, hk, hpolls⟩

theorem returns_of_checks (htask : commitAt nil actions n i = some (.checking ticket)) :
    Returns nil actions n i := by
  obtain ⟨hle, hawaited⟩ := (invariant_coordinatorAt nil actions n).sound.commits i _ htask
  exact returns_of_polls hscheduled hflushes htask rfl hle hawaited

/-- A call that arms or shares a flush returns. -/
theorem returns_of_flushing {fillCut : Bool}
    (htask : commitAt nil actions n i = some (.spawning ticket fillCut) ∨
      commitAt nil actions n i = some (.signalling ticket fillCut)) : Returns nil actions n i := by
  rcases htask with htask | htask
  all_goals
    obtain ⟨k, hnk, hk, next, after, hstep, -, hnext⟩ := hscheduled.exists_step htask trivial
    cases hstep
    exact (returns_of_checks hscheduled hflushes hnext).before (Nat.le_succ_of_le hnk)

theorem returns_of_appended {fillCut : Bool}
    (htask : commitAt nil actions n i = some (.appended ticket fillCut)) :
    Returns nil actions n i := by
  obtain ⟨k, hnk, hk, next, after, hstep, -, hnext⟩ := hscheduled.exists_step htask trivial
  refine Returns.before ?_ (Nat.le_succ_of_le hnk)
  cases hstep with
  | share hpending => exact returns_of_flushing hscheduled hflushes (.inr hnext)
  | arm hpending => exact returns_of_flushing hscheduled hflushes (.inl hnext)

/-- Every call returns. -/
theorem eventually_returns (htask : commitAt nil actions n i = some task) :
    Returns nil actions n i := by
  cases task with
  | called =>
    obtain ⟨k, hnk, hk, next, after, hstep, -, hnext⟩ := hscheduled.exists_step htask trivial
    cases hstep with
    | refuse failure => exact ⟨k + 1, Nat.le_succ_of_le hnk, _, hnext, trivial⟩
    | append own fillCut =>
      exact (returns_of_appended hscheduled hflushes hnext).before (Nat.le_succ_of_le hnk)
  | appended ticket fillCut => exact returns_of_appended hscheduled hflushes htask
  | spawning ticket fillCut => exact returns_of_flushing hscheduled hflushes (.inl htask)
  | signalling ticket fillCut => exact returns_of_flushing hscheduled hflushes (.inr htask)
  | checking ticket => exact returns_of_checks hscheduled hflushes htask
  | waiting ticket seen =>
    obtain ⟨hle, hawaited, -, -⟩ := (invariant_coordinatorAt nil actions n).sound.commits i _ htask
    exact returns_of_polls hscheduled hflushes htask rfl hle hawaited
  | _ => exact ⟨n, le_refl _, _, htask, trivial⟩

end Scheduled

/-! ## Turns -/

/-- A call keeps its sequence. -/
theorem seq?_stable (hle : n ≤ m)
    (h : ∃ task, commitAt nil actions n i = some task ∧ task.seq? = some seq) :
    ∃ task, commitAt nil actions m i = some task ∧ task.seq? = some seq := by
  apply coordinatorAt_stable
    (fun s => ∃ task : CommitTask Offset Failure, s.commits[i]? = some task ∧
      task.seq? = some seq) _ hle h
  rintro s s' hs hstep ⟨task, htask, hseq⟩
  exact hstep.seq?_eq hs htask hseq

variable (nil actions) in
/-- The gate has passed a sequence, or does so later. -/
def Passes (n seq : ℕ) : Prop := ∃ m ≥ n, seq < (coordinatorAt nil actions m).ingestGate

theorem Passes.before (h : Passes nil actions m seq) (hle : n ≤ m) : Passes nil actions n seq := by
  obtain ⟨k, hmk, hpassed⟩ := h
  exact ⟨k, le_trans hle hmk, hpassed⟩

section Turns

variable (hturns : TurnsComplete nil actions)

include hturns

/-- A caller in its turn moves the gate past its sequence. -/
theorem passes_of_inTurn (htask : commitAt nil actions n i = some (.inTurn ticket result)) :
    Passes nil actions n ticket.seq := by
  obtain ⟨m, hle, append, hpoll⟩ := hturns n i _ htask trivial
  obtain ⟨k, hnk, hk, next, after, hstep, -, hnext⟩ := exists_step htask hle hpoll id
  cases hstep with
  | complete =>
    have hpassed : ticket.seq < (coordinatorAt nil actions (k + 1)).ingestGate :=
      (invariant_coordinatorAt nil actions (k + 1)).gated.atGate hnext
    exact ⟨k + 1, Nat.le_succ_of_le hnk, hpassed⟩

variable (hscheduled : Scheduled nil actions)

include hscheduled

/-- A call that has returned, with the gate at its sequence, enters its turn. -/
theorem passes_of_returned (htask : commitAt nil actions n i = some (.returned ticket result))
    (hgate : ticket.seq ≤ (coordinatorAt nil actions n).ingestGate) :
    Passes nil actions n ticket.seq := by
  obtain ⟨k, hnk, hk, next, after, hstep, -, hnext⟩ := hscheduled.exists_step htask trivial
  have hreached : ticket.seq ≤ (coordinatorAt nil actions k).ingestGate :=
    le_trans hgate (gate_mono hnk).1
  cases hstep with
  | queue hbefore => omega
  | enter hthere =>
    exact (passes_of_inTurn hturns hnext).before (Nat.le_succ_of_le hnk)

/-- A call queued at the gate was woken when the gate came to its sequence. -/
theorem passes_of_queued {seen : ℕ}
    (htask : commitAt nil actions n i = some (.queued ticket result seen))
    (hgate : ticket.seq ≤ (coordinatorAt nil actions n).ingestGate) :
    Passes nil actions n ticket.seq := by
  obtain ⟨-, -, hseen⟩ := (invariant_coordinatorAt nil actions n).gated.atGate htask
  have hversion : (coordinatorAt nil actions n).gateVersion ≠ seen := by
    intro hsame
    omega
  obtain ⟨k, hnk, hk, next, after, hstep, -, hnext⟩ := hscheduled.exists_step htask hversion
  cases hstep with
  | recheck hwoken =>
    have hthen := le_trans hgate (gate_mono (Nat.le_succ_of_le hnk)).1
    exact (passes_of_returned hturns hscheduled hnext hthen).before (Nat.le_succ_of_le hnk)

/-- The gate moves past the sequence it has come to, once its call has returned. -/
theorem passes_of_hasReturned (htask : commitAt nil actions n i = some task)
    (hreturned : task.HasReturned) (hseq : task.seq? = some seq)
    (hgate : seq ≤ (coordinatorAt nil actions n).ingestGate) : Passes nil actions n seq := by
  cases task with
  | returned ticket result =>
    cases hseq
    exact passes_of_returned hturns hscheduled htask hgate
  | queued ticket result seen =>
    cases hseq
    exact passes_of_queued hturns hscheduled htask hgate
  | inTurn ticket result =>
    cases hseq
    exact passes_of_inTurn hturns htask
  | completed ticket result =>
    cases hseq
    exact ⟨n, le_refl _, (invariant_coordinatorAt nil actions n).gated.atGate htask⟩
  | refused failure => cases hseq
  | _ => exact hreturned.elim

/-- The gate passes every appended sequence, by induction on the sequence. -/
theorem eventually_passes (hflushes : FlushesComplete nil actions) (n seq : ℕ)
    (hle : seq ≤ (coordinatorAt nil actions n).appendedSeq) : Passes nil actions n seq := by
  induction seq with
  | zero => exact ⟨n, le_refl _, (invariant_coordinatorAt nil actions n).gated.gate_pos⟩
  | succ seq ih =>
    obtain ⟨before, hbefore, hgate⟩ := ih (by omega)
    obtain ⟨i, task, htask, hseq⟩ :=
      (invariant_coordinatorAt nil actions n).numbered.owned (seq + 1) (by omega) hle
    obtain ⟨other, hother, -⟩ := seq?_stable hbefore ⟨task, htask, hseq⟩
    obtain ⟨m, hm, found, hfound, hreturned⟩ := eventually_returns hscheduled hflushes hother
    have hfoundSeq : found.seq? = some (seq + 1) := by
      obtain ⟨same, hsame, hsameSeq⟩ := seq?_stable (le_trans hbefore hm) ⟨task, htask, hseq⟩
      rw [hfound] at hsame
      cases hsame
      exact hsameSeq
    have hreached : seq + 1 ≤ (coordinatorAt nil actions m).ingestGate :=
      le_trans hgate (gate_mono hm).1
    exact (passes_of_hasReturned hturns hscheduled hfound hreturned hfoundSeq hreached).before
      (le_trans hbefore hm)

end Turns

end Schedule

variable {s : Coordinator Offset Failure}

/-- A sequence the gate has passed had its turn. -/
theorem Gated.mem_turns (hs : Gated s) {seq : ℕ} (hpos : 1 ≤ seq) (hgate : seq < s.ingestGate) :
    seq ∈ s.turns := by
  have hlength : s.ingestGate ≤ s.turns.length + 1 := by
    by_cases hidle : ∀ (i : ℕ) (task : CommitTask Offset Failure), s.commits[i]? = some task →
        ¬ task.IsTurn
    · exact Nat.le_of_eq (hs.idle hidle).symm
    · push Not at hidle
      obtain ⟨i, task, htask, hturn⟩ := hidle
      have hbusy := hs.busy htask hturn
      omega
  rw [hs.turns, List.mem_range'_1]
  omega

/-- At most one call is in its turn. -/
theorem Gated.turn_unique (hs : Gated s) (hnumbered : Numbered s) {i j : ℕ}
    {first second : CommitTask Offset Failure} (hfirst : s.commits[i]? = some first)
    (hsecond : s.commits[j]? = some second) (hturn : first.IsTurn) (hother : second.IsTurn) :
    i = j :=
  hnumbered.distinct hfirst hsecond (hturn.atGate (hs.atGate hfirst))
    (hother.atGate (hs.atGate hsecond))

/-- An answer that is `Ok` is backed by a sync. -/
theorem Sound.synced_of_result (hs : Sound s) {i : ℕ} {task : CommitTask Offset Failure}
    {ticket : Ticket Offset} {offset : Offset} (htask : s.commits[i]? = some task)
    (hresult : task.result? = some (ticket, .ok offset)) :
    s.SyncedUpTo ticket.seq := by
  have hok := hs.commits i task htask
  cases task with
  | returned | queued | inTurn | completed =>
    cases hresult
    exact hok rfl
  | _ => cases hresult

/-- For every interleaving of calls, timers, fill cuts and overlapping flushes:

* a call answered `Ok` is backed by a sync that began after its append and succeeded;
* when every flush completes, every call returns;
* turns are taken one at a time and in the order of the appends, and when each caller
  completes its turn, every appended sequence has its turn, once. -/
theorem group_commit_sound (nil : Offset) (actions : ℕ → Action Offset Failure) :
    (∀ (n i : ℕ) (task : CommitTask Offset Failure) (ticket : Ticket Offset) (offset : Offset),
      commitAt nil actions n i = some task → task.result? = some (ticket, .ok offset) →
      (coordinatorAt nil actions n).SyncedUpTo ticket.seq) ∧
    (FlushesComplete nil actions → Scheduled nil actions →
      ∀ (n i : ℕ) (task : CommitTask Offset Failure), commitAt nil actions n i = some task →
      ∃ m ≥ n, ∃ task, commitAt nil actions m i = some task ∧ task.HasReturned) ∧
    (∀ (n i j : ℕ) (first second : CommitTask Offset Failure),
      commitAt nil actions n i = some first → commitAt nil actions n j = some second →
      first.IsTurn → second.IsTurn → i = j) ∧
    (∀ n : ℕ, (coordinatorAt nil actions n).turns =
      List.range' 1 (coordinatorAt nil actions n).turns.length) ∧
    (FlushesComplete nil actions → Scheduled nil actions → TurnsComplete nil actions →
      ∀ n seq : ℕ, 1 ≤ seq → seq ≤ (coordinatorAt nil actions n).appendedSeq →
      ∃ m ≥ n, seq ∈ (coordinatorAt nil actions m).turns) := by
  refine ⟨?_, ?_, ?_, ?_, ?_⟩
  · intro n i task ticket offset htask hresult
    exact (invariant_coordinatorAt nil actions n).sound.synced_of_result htask hresult
  · intro hflushes hscheduled n i task htask
    exact eventually_returns hscheduled hflushes htask
  · intro n i j first second hfirst hsecond hturn hother
    have hs := invariant_coordinatorAt nil actions n
    exact hs.gated.turn_unique hs.numbered hfirst hsecond hturn hother
  · intro n
    exact (invariant_coordinatorAt nil actions n).gated.turns
  · intro hflushes hscheduled hturns n seq hpos hle
    obtain ⟨m, hm, hpassed⟩ := eventually_passes hturns hscheduled hflushes n seq hle
    exact ⟨m, hm, (invariant_coordinatorAt nil actions m).gated.mem_turns hpos hpassed⟩

/-! ## A schedule with overlapping flushes -/

/-- A poll of a call that has appended. -/
def poll (i : ℕ) : Action ℕ Unit := .commit i (.error ())

/-- A step of a flush whose window is over and whose sync succeeds. -/
def flushOk (f : ℕ) : Action ℕ Unit := .flush f true (.ok 0)

/-- Two calls and their flushes. Both flushes have captured their range before one of them
syncs; the sync of the first one fails, and its outcome comes after the other one's. Then
the calls are polled for ever. -/
def overlapping (n : ℕ) : Action ℕ Unit :=
  ([.call, .call, .commit 0 (.ok (10, false)), poll 0, poll 0, flushOk 0, flushOk 0,
    .commit 1 (.ok (20, false)), poll 1, poll 1, flushOk 1, flushOk 1, flushOk 1, flushOk 1,
    flushOk 0, .flush 0 true (.error ()), poll 0, flushOk 1, flushOk 1, flushOk 0, flushOk 0,
    poll 1, poll 1, poll 0, poll 0, poll 0, poll 0, poll 1, poll 1, poll 1] : List _).getD n
      (poll (n % 2))

theorem overlapping_over (k : ℕ) :
    coordinatorAt 0 overlapping (30 + k) = coordinatorAt 0 overlapping 30 := by
  induction k with
  | zero => rfl
  | succ k ih =>
    have hpoll : overlapping (30 + k) = poll ((30 + k) % 2) := by
      simp [overlapping, List.getD]
    change Coordinator.step (coordinatorAt 0 overlapping (30 + k)) (overlapping (30 + k)) = _
    rw [ih, hpoll]
    rcases Nat.mod_two_eq_zero_or_one (30 + k) with heven | hodd
    · rw [heven]
      rfl
    · rw [hodd]
      rfl

theorem overlapping_size (n : ℕ) : (coordinatorAt 0 overlapping n).flushes.length ≤ 2 ∧
    (coordinatorAt 0 overlapping n).commits.length ≤ 2 := by
  rcases Nat.lt_or_ge n 30 with hlt | hge
  · revert n
    decide +kernel
  · obtain ⟨k, rfl⟩ := Nat.exists_eq_add_of_le hge
    rw [overlapping_over]
    decide +kernel

theorem flushesComplete_overlapping : FlushesComplete 0 overlapping := by
  intro n f hf
  have hsmall : f < 2 := lt_of_lt_of_le hf (overlapping_size n).1
  refine ⟨30 + n, Nat.le_add_left _ _, ?_⟩
  rw [overlapping_over]
  obtain rfl | rfl : f = 0 ∨ f = 1 := by omega
  · exact ⟨1, rfl⟩
  · exact ⟨2, rfl⟩

/-- Every call is polled again while no other call holds the journal. -/
theorem overlapping_polls {n i : ℕ} {task : CommitTask ℕ Unit}
    (h : commitAt 0 overlapping n i = some task) :
    ∃ m ≥ n, overlapping m = poll i ∧ (coordinatorAt 0 overlapping m).journalHeld = false := by
  have hsmall : i < 2 :=
    lt_of_lt_of_le (List.getElem?_eq_some_iff.mp h).1 (overlapping_size n).2
  refine ⟨30 + (2 * n + i), by omega, ?_, ?_⟩
  · have hi : (30 + (2 * n + i)) % 2 = i := by omega
    simp [overlapping, List.getD, hi]
  · rw [overlapping_over]
    rfl

/-- Its flushes complete and its calls are polled, so the second call too has its turn. -/
theorem group_commit_sound_overlapping :
    FlushesComplete 0 overlapping ∧ Scheduled 0 overlapping ∧ TurnsComplete 0 overlapping ∧
      (coordinatorAt 0 overlapping 12).flushes = [.captured 1, .captured 2] ∧
      ∃ m ≥ 8, 2 ∈ (coordinatorAt 0 overlapping m).turns := by
  have hscheduled : Scheduled 0 overlapping := by
    intro n i task htask _
    obtain ⟨m, hle, hpoll, hfree⟩ := overlapping_polls htask
    exact ⟨m, hle, _, hpoll, fun _ => hfree⟩
  have hturns : TurnsComplete 0 overlapping := by
    intro n i task htask _
    obtain ⟨m, hle, hpoll, -⟩ := overlapping_polls htask
    exact ⟨m, hle, _, hpoll⟩
  refine ⟨flushesComplete_overlapping, hscheduled, hturns, rfl, ?_⟩
  exact (group_commit_sound 0 overlapping).2.2.2.2 flushesComplete_overlapping hscheduled hturns 8 2
    (by decide) (by decide +kernel)

end Ourios.Receiver
