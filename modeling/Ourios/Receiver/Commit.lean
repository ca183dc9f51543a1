/-
# Group commit

The commit coordinator (`receiver/commit.rs`): calls of `commit` append under the journal
lock and share windowed syncs, a flush broadcasts its outcome in one cell that later
outcomes overwrite, and a gate lets the callers run their post-durability step in append
order.

Every call and every flush is a task, and a step of a task is what it does between two
points where another task can come in: an acquisition of the journal lock or of the
coordinator's state lock, a read or a write of a watched cell. A watched cell has a version
that every write increases, and a task that waits for a change goes on when the version is
not the one it saw last. The window timer fires when it likes.

`syncs` and `turns` are what a run has done so far: for every sync the number of appends
made when it began, and the sequences in the order of their turns. No step reads them.
-/

import Mathlib.Data.List.Basic

namespace Ourios.Receiver

universe u v

variable {Offset : Type u} {Failure : Type v}

structure FlushOutcome (Offset : Type u) (Failure : Type v) where
  generation : Nat
  coveredSeq : Nat
  result : Except Failure Offset

/-- The result an outcome has for a sequence, once it covers it. -/
def coveredOutcome (outcome : FlushOutcome Offset Failure) (seq : Nat) :
    Option (Except Failure Offset) :=
  if outcome.generation = 0 ∨ outcome.coveredSeq < seq then none else some outcome.result

/-- What an append gave a call: its sequence and the offset of its frame. -/
structure Ticket (Offset : Type u) where
  seq : Nat
  own : Offset

/-- Where a call of `commit`, and then its caller, stands. -/
inductive CommitTask (Offset : Type u) (Failure : Type v)
  | called
  | refused (failure : Failure)
  | appended (ticket : Ticket Offset) (fillCut : Bool)
  | spawning (ticket : Ticket Offset) (fillCut : Bool)
  | signalling (ticket : Ticket Offset) (fillCut : Bool)
  | checking (ticket : Ticket Offset)
  | waiting (ticket : Ticket Offset) (seen : Nat)
  | returned (ticket : Ticket Offset) (result : Except Failure Offset)
  | queued (ticket : Ticket Offset) (result : Except Failure Offset) (seen : Nat)
  | inTurn (ticket : Ticket Offset) (result : Except Failure Offset)
  | completed (ticket : Ticket Offset) (result : Except Failure Offset)

/-- Where a flush stands. -/
inductive FlushTask (Offset : Type u) (Failure : Type v)
  | armed (seen : Nat)
  | woken
  | captured (coveredSeq : Nat)
  | syncing (coveredSeq began : Nat)
  | synced (coveredSeq : Nat) (result : Except Failure Offset)
  | numbered (outcome : FlushOutcome Offset Failure)
  | done (coveredSeq : Nat)

/-- A sync: how many appends had been made when it began, and how it ended. -/
structure Sync where
  began : Nat
  ok : Bool
  deriving DecidableEq, Repr

structure Coordinator (Offset : Type u) (Failure : Type v) where
  journalHeld : Bool
  flushPending : Bool
  nextSeq : Nat
  appendedSeq : Nat
  outcome : FlushOutcome Offset Failure
  version : Nat
  fill : Nat
  ingestGate : Nat
  gateVersion : Nat
  commits : List (CommitTask Offset Failure)
  flushes : List (FlushTask Offset Failure)
  syncs : List Sync
  turns : List Nat

/-- A new coordinator. The first outcome covers nothing. -/
def Coordinator.new (nil : Offset) : Coordinator Offset Failure where
  journalHeld := false
  flushPending := false
  nextSeq := 1
  appendedSeq := 0
  outcome := ⟨0, 0, .ok nil⟩
  version := 0
  fill := 0
  ingestGate := 1
  gateVersion := 0
  commits := []
  flushes := []
  syncs := []
  turns := []

/-- Whether a result is a success. -/
def isOk : Except Failure Offset → Bool
  | .ok _ => true
  | .error _ => false

namespace Coordinator

variable (s : Coordinator Offset Failure)

/-- A call is at another point. -/
def moveCommit (i : Nat) (task : CommitTask Offset Failure) : Coordinator Offset Failure :=
  { s with commits := s.commits.set i task }

/-- A flush is at another point. -/
def moveFlush (f : Nat) (task : FlushTask Offset Failure) : Coordinator Offset Failure :=
  { s with flushes := s.flushes.set f task }

/-- A bump of the fill cell, if a call cuts the window short. -/
def bumpFill (fillCut : Bool) : Coordinator Offset Failure :=
  { s with fill := if fillCut then s.fill + 1 else s.fill }

/-- One step of a call. `append` is what the journal answers, with whether its unflushed
bytes reach the segment size. -/
def stepCommit (i : Nat) (append : Except Failure (Offset × Bool)) : Coordinator Offset Failure :=
  match s.commits[i]? with
  | some .called =>
    if s.journalHeld then s
    else
      match append with
      | .error failure => s.moveCommit i (.refused failure)
      | .ok (own, fillCut) =>
        { s with nextSeq := s.nextSeq + 1, appendedSeq := s.nextSeq }.moveCommit i
          (.appended ⟨s.nextSeq, own⟩ fillCut)
  | some (.appended ticket fillCut) =>
    if s.flushPending then s.moveCommit i (.signalling ticket fillCut)
    else { s with flushPending := true }.moveCommit i (.spawning ticket fillCut)
  | some (.spawning ticket fillCut) =>
    -- the receiver of the fill cell is subscribed before the bump
    ({ s with flushes := s.flushes ++ [FlushTask.armed s.fill] }.bumpFill fillCut).moveCommit i
      (.checking ticket)
  | some (.signalling ticket fillCut) => (s.bumpFill fillCut).moveCommit i (.checking ticket)
  | some (.checking ticket) =>
    match coveredOutcome s.outcome ticket.seq with
    | some result => s.moveCommit i (.returned ticket result)
    | none => s.moveCommit i (.waiting ticket s.version)
  | some (.waiting ticket seen) =>
    if s.version = seen then s else s.moveCommit i (.checking ticket)
  | some (.returned ticket result) =>
    if s.ingestGate < ticket.seq then s.moveCommit i (.queued ticket result s.gateVersion)
    else { s with turns := s.turns ++ [ticket.seq] }.moveCommit i (.inTurn ticket result)
  | some (.queued ticket result seen) =>
    if s.gateVersion = seen then s else s.moveCommit i (.returned ticket result)
  | some (.inTurn ticket result) =>
    { s with ingestGate := ticket.seq + 1, gateVersion := s.gateVersion + 1 }.moveCommit i
      (.completed ticket result)
  | _ => s

/-- The outcome cell after a flush: an outcome that covers less is dropped. -/
def publish (new : FlushOutcome Offset Failure) : Coordinator Offset Failure :=
  if s.outcome.coveredSeq ≤ new.coveredSeq then
    { s with outcome := new, version := s.version + 1 }
  else s

/-- One step of a flush. `timer` says whether its window is over, `sync` is what the
journal answers. -/
def stepFlush (f : Nat) (timer : Bool) (sync : Except Failure Offset) :
    Coordinator Offset Failure :=
  match s.flushes[f]? with
  | some (.armed seen) => if timer || s.fill != seen then s.moveFlush f .woken else s
  | some .woken => { s with flushPending := false }.moveFlush f (.captured s.appendedSeq)
  | some (.captured coveredSeq) =>
    if s.journalHeld then s
    else { s with journalHeld := true }.moveFlush f (.syncing coveredSeq s.appendedSeq)
  | some (.syncing coveredSeq began) =>
    { s with journalHeld := false, syncs := s.syncs ++ [Sync.mk began (isOk sync)] }.moveFlush f
      (.synced coveredSeq sync)
  | some (.synced coveredSeq result) =>
    s.moveFlush f (.numbered ⟨s.outcome.generation + 1, coveredSeq, result⟩)
  | some (.numbered outcome) => (s.publish outcome).moveFlush f (.done outcome.coveredSeq)
  | _ => s

end Coordinator

/-- What happens next: a new call, or a step of a task. -/
inductive Action (Offset : Type u) (Failure : Type v)
  | call
  | commit (i : Nat) (append : Except Failure (Offset × Bool))
  | flush (f : Nat) (timer : Bool) (sync : Except Failure Offset)

def Coordinator.step (s : Coordinator Offset Failure) :
    Action Offset Failure → Coordinator Offset Failure
  | .call => { s with commits := s.commits ++ [CommitTask.called] }
  | .commit i append => s.stepCommit i append
  | .flush f timer sync => s.stepFlush f timer sync

end Ourios.Receiver
