/-
# The housekeeping pass

A pass runs in parts. The ledger half pops what may be unlinked and hands out an owned
plan; the record half writes the plan into the reclamation record, and only then are files
unlinked; the ledger half runs again with what became of them. Between the parts the log
takes appends, rotates and checkpoints, a later pass may replace a plan that was never
settled, and the caller may hold on to any plan it was handed.

Everything that reads or moves the record does so under one lock, so each part is one
step. Whether a write of the record reaches the disk is an argument of the step.
-/

import Ourios.Foundation.Machine
import Ourios.Wal.LedgerPlans
import Ourios.Wal.Rebuild
import Ourios.Wal.Reconcile

namespace Ourios.Housekeeping

open Ourios.Foundation Ourios.Reclaim Ourios.Retain

/-! ## What travels between the parts -/

inductive SkipReason
  | noCheckpoint
  | migrationWindow
  | refused
  deriving DecidableEq

inductive PassOutcome
  | planned
  | skipped (reason : SkipReason)
  deriving DecidableEq

structure HousekeepingProgress where
  removedSegments : ℕ
  removedPartials : ℕ
  capped : Bool
  horizonRemaining : ℕ
  unlinkRemaining : ℕ
  floor : RetainFloor
  lagBytes : ℕ
  lagSegments : ℕ
  outcome : PassOutcome

/-- What one pass may unlink, and whether it owes the record a write. -/
structure ReclaimPlan where
  pass : ℕ
  segments : List Popped
  partials : List Text
  records : Bool
  progress : HousekeepingProgress
  mode : EntryMode

/-- The plan a commit is owed for. -/
structure Outstanding where
  pass : ℕ
  segments : List Popped
  partials : List Text
  mode : EntryMode
  progress : HousekeepingProgress

/-- What the file half did. -/
inductive ReclaimOutcome
  | recordFailed
  | unlinked (removed : List Text) (fsyncFailed : Bool)

inductive HousekeepingError
  | modeDisagreement (recorded : RecordedMode) (attempted : EntryMode)
  | unrecoverable (tenant : TenantId) (horizon : WalOffset)
  | settled (pass : ℕ)
  | superseded (pass outstanding : ℕ)
  | plannedNames (segment : Uuid) (error : NotLive)

structure ReclaimError where
  progress : HousekeepingProgress
  source : HousekeepingError

/-- Why a plan does not reach the record. -/
inductive PlanRefusal
  | settled
  | superseded (outstanding : ℕ)
  deriving DecidableEq

inductive MergeError
  | sizing (error : GeometryError)
  | full (error : DictionaryFull)
  deriving DecidableEq

inductive WritePlanError
  | refused (refusal : PlanRefusal)
  | merge (error : MergeError)
  | store (error : StoreError)
  deriving DecidableEq

def entryMode : SnapshotHorizons → EntryMode
  | .noConsumer => .noConsumer
  | .known _ => .known

def recordedMode : EntryMode → RecordedMode
  | .known => .known
  | .noConsumer => .noConsumer

/-! ## Merging a plan into the record -/

/-- Give one tenant of a planned segment its slot id and its offset. -/
def planMember (geometry : Geometry) (planning : Dictionary × OrderedMap ℕ WalOffset)
    (member : TenantId × WalOffset) :
    Except DictionaryFull (Dictionary × OrderedMap ℕ WalOffset) :=
  match planning.1.idOf member.1 with
  | some id => .ok (planning.1, planning.2.insert id member.2)
  | none =>
    match planning.1.assign member.1 geometry with
    | .error error => .error error
    | .ok (dictionary, id) => .ok (dictionary, planning.2.insert id member.2)

/-- The row of one popped segment, and the dictionary its tenants are in. -/
def planEntry (geometry : Geometry) (dictionary : Dictionary) (popped : Popped) :
    Except DictionaryFull (Dictionary × PlannedUnlink) :=
  (popped.lastOffsets.foldlM (planMember geometry) (dictionary, .empty)).map fun planning =>
    (planning.1, ⟨popped.segment, popped.uncertain, planning.2⟩)

/-- Replace a segment's row by one at the end. -/
def mergeSegment (geometry : Geometry) (record : ReclaimRecord) (popped : Popped) :
    Except DictionaryFull ReclaimRecord :=
  (planEntry geometry record.dictionary popped).map fun (dictionary, row) =>
    { record with
      dictionary
      planned := (record.planned.filter fun row => row.segment ≠ popped.segment) ++ [row] }

/-- The record as it stands with a plan's segments and, where it has none, its mode. A plan
that brings neither writes nothing. -/
def mergePlan (current : ReclaimRecord) (plan : ReclaimPlan) (maxUnlinksPerPass : ℕ) :
    Except MergeError (Option ReclaimRecord) :=
  match geometry maxUnlinksPerPass with
  | .error error => .error (.sizing error)
  | .ok geometry =>
    let adopting := current.consumerMode = .unrecorded
    let record :=
      if adopting then { current with consumerMode := recordedMode plan.mode } else current
    match plan.segments.foldlM (mergeSegment geometry) record with
    | .error error => .error (.full error)
    | .ok merged => .ok (if adopting ∨ plan.segments ≠ [] then some merged else none)

/-! ## The state of a pass -/

/-- The log as housekeeping sees it. `live` is the pass that may still write and unlink,
zero where none may. -/
structure Keeper where
  root : Text
  maxUnlinksPerPass : ℕ
  current : Uuid
  currentPath : Text
  checkpoint : Option WalOffset
  version : Option SidecarVersion
  gate : ReclaimGate
  legacyOrigin : Bool
  store : Option ReclaimStore
  ledger : SegmentLedger
  stalePartials : List Text
  outstanding : Option Outstanding := none
  passes : ℕ := 0
  live : ℕ := 0
  unreclaimedBytes : ℕ := 0

variable (keeper : Keeper) (crc : Crc)

namespace Keeper

/-- Open a root. The append target is the newest segment or a new one. -/
def openRoot (root : Text) (maxUnlinksPerPass : ℕ) (sidecar : Option Sidecar)
    (record : Option (List UInt8)) (segments : List SegmentFound) (partials : List Text)
    (target : Uuid × Text) : Except OpenError Keeper :=
  if 1 ≤ maxUnlinksPerPass ∧ maxUnlinksPerPass ≤ maxUnlinksPerPassCeiling then
    match Housekeeping.root crc maxUnlinksPerPass sidecar record segments with
    | .error error => .error error
    | .ok witness =>
      let ledger : SegmentLedger := {}
      .ok
        { root, maxUnlinksPerPass
          current := target.1
          currentPath := target.2
          checkpoint := sidecar.map Sidecar.offset
          version := sidecar.map Sidecar.version
          gate := witness.gate
          legacyOrigin := witness.legacy
          store := witness.store
          ledger := if segments = [] then ledger.describeRoot else ledger
          stalePartials := partials }
  else .error (.invalidConfig (.maxUnlinksPerPass maxUnlinksPerPass))

def record (keeper : Keeper) : Option ReclaimRecord := keeper.store.map ReclaimStore.record

/-- Every part of the last checkpoint is on disk. -/
def checkpointIsSettled : Bool :=
  keeper.gate = .opened && keeper.version = some .current &&
    match keeper.record with
    | none => false
    | some record => record.witness.checkpoint = .terminal

def onLegacyBranch : Bool :=
  keeper.gate = .unwitnessed && keeper.legacyOrigin

def progress (removedSegments removedPartials : ℕ) (outcome : PassOutcome) :
    HousekeepingProgress where
  removedSegments := removedSegments
  removedPartials := removedPartials
  capped := false
  horizonRemaining := keeper.ledger.horizonRemaining
  unlinkRemaining := keeper.ledger.unlinkRemaining keeper.current
  floor := keeper.ledger.floor
  lagBytes := (keeper.ledger.lag keeper.current).1
  lagSegments := (keeper.ledger.lag keeper.current).2
  outcome := outcome

def failure (source : HousekeepingError) : ReclaimError where
  progress := keeper.progress 0 0 (.skipped .refused)
  source := source

/-- Paths a pass did not verify go back to the head of the list. -/
def requeuePartials (paths : List Text) : Keeper :=
  { keeper with stalePartials := paths ++ keeper.stalePartials }

/-! ## The ledger half -/

/-- A plan of another mode gives its segments up, as ones the file half may have had. -/
def withdrawAcrossModes (abandoned : Outstanding) (horizons : SnapshotHorizons) : Keeper :=
  if abandoned.mode = entryMode horizons then keeper
  else
    { keeper with
      ledger := abandoned.segments.foldl (fun ledger popped => ledger.withdraw popped.segment)
        keeper.ledger }

/-- What every pass does before it can be refused: no permit stays live, and a plan that
was never settled gives its partials back. -/
def abandon (horizons : SnapshotHorizons) : Keeper :=
  let idle := { keeper with live := 0, outstanding := none }
  match keeper.outstanding with
  | none => idle
  | some abandoned =>
    (idle.withdrawAcrossModes abandoned horizons).requeuePartials abandoned.partials

/-- Every pass on a root runs under the mode its record carries. -/
def refuseModeDisagreement (horizons : SnapshotHorizons) : Option HousekeepingError :=
  match keeper.record with
  | none => none
  | some record =>
    if record.consumerMode = .unrecorded ∨ record.consumerMode.admits (entryMode horizons) then
      none
    else some (.modeDisagreement record.consumerMode (entryMode horizons))

/-- A tenant may still have a frame on the root. -/
def mayHoldFrames (tenant : TenantId) : Bool :=
  !keeper.ledger.describesRoot || (keeper.ledger.oldestFrame tenant).isSome

/-- The offset of an entry no restorable horizon reaches. -/
def lostEntry (marks : Marks) (held : DictRecord) : Option WalOffset :=
  match held.reclaimed? with
  | none => none
  | some entry =>
    let restorable := (marks.lookup held.key).bind TenantHorizon.restorable?
    let reached := restorable.any fun horizon => entry.offset ≤ horizon
    if entry.mode = .known && keeper.mayHoldFrames held.key && !reached then
      some entry.offset
    else none

def firstLostEntry (marks : Marks) (record : ReclaimRecord) : Option (TenantId × WalOffset) :=
  record.dictionary.live.findSome? fun (_, held) =>
    (keeper.lostEntry marks held).map fun offset => (held.key, offset)

/-- The first tenant whose oldest frame its horizon does not explain. -/
def firstLegacyStaleGap (marks : Marks) : Option (TenantId × WalOffset) :=
  (ascending keeper.ledger.tenants.keys.toFinset).findSome? fun tenant =>
    match keeper.ledger.oldestFrame tenant with
    | none => none
    | some oldest =>
      match marks.lookup tenant with
      | some (.restorable _) => none
      | some (.recordedOnly recorded) =>
        if oldest ≤ recorded then none else some (tenant, recorded)
      | none => some (tenant, oldest)

def refuseUnexplainedTenants (horizons : SnapshotHorizons) : Option HousekeepingError :=
  match horizons with
  | .noConsumer => none
  | .known marks =>
    match keeper.record.bind (keeper.firstLostEntry marks) with
    | some (tenant, offset) => some (.unrecoverable tenant offset)
    | none =>
      if keeper.onLegacyBranch then
        (keeper.firstLegacyStaleGap marks).map fun (tenant, horizon) =>
          .unrecoverable tenant horizon
      else none

/-- The greatest value of the index type of the source. -/
def usizeMax : ℕ := 2 ^ 64 - 1

/-- The segments the record has rows for, and the rows it has room for. -/
def plannedRows : PlannedRows :=
  match keeper.record with
  | none => .new ∅ 0 usizeMax
  | some record =>
    .new (record.planned.map PlannedUnlink.segment).toFinset record.planned.length
      keeper.maxUnlinksPerPass

def popBound (checkpoint : WalOffset) (horizons : SnapshotHorizons) : PopBound where
  checkpoint := checkpoint
  current := keeper.current
  tenantAware :=
    match horizons with
    | .noConsumer => false
    | .known _ => true
  rows := keeper.plannedRows

/-- Pop a pass's segments, or say why it plans none. -/
def popSegments (horizons : SnapshotHorizons) (budget : ℕ) :
    SegmentLedger × List Popped × Bool × PassOutcome :=
  match keeper.checkpoint with
  | none => (keeper.ledger, [], false, .skipped .noCheckpoint)
  | some checkpoint =>
    if keeper.checkpointIsSettled then
      let (ledger, popped, capped) := keeper.ledger.pop (keeper.popBound checkpoint horizons) budget
      (ledger, popped, capped, .planned)
    else (keeper.ledger, [], false, .skipped .migrationWindow)

/-- The budget of a pass, shared by partials and segments. -/
def cap (maxUnlinks : ℕ) : ℕ := max 1 (min maxUnlinks keeper.maxUnlinksPerPass)

/-- A pass's state once its horizons are applied and its partials are popped. -/
def received (horizons : SnapshotHorizons) (maxUnlinks : ℕ) (order : List TenantId) : Keeper :=
  { keeper with
    ledger := (keeper.ledger.apply horizons (keeper.cap maxUnlinks) order).1
    stalePartials := keeper.stalePartials.drop (keeper.cap maxUnlinks) }

/-- What is left of the budget of a pass for segments. -/
def segmentBudget (maxUnlinks : ℕ) : ℕ :=
  keeper.cap maxUnlinks - (keeper.stalePartials.take (keeper.cap maxUnlinks)).length

def planPass (horizons : SnapshotHorizons) (maxUnlinks : ℕ)
    (order : List TenantId) : Keeper × ReclaimPlan :=
  let horizonsCapped := (keeper.ledger.apply horizons (keeper.cap maxUnlinks) order).2
  let partials := keeper.stalePartials.take (keeper.cap maxUnlinks)
  let received := keeper.received horizons maxUnlinks order
  let partialsCapped := received.stalePartials ≠ []
  let (ledger, segments, popsCapped, outcome) :=
    received.popSegments horizons (keeper.segmentBudget maxUnlinks)
  let pass := keeper.passes + 1
  let popped := { received with ledger, passes := pass, live := pass }
  let progress : HousekeepingProgress :=
    { popped.progress 0 0 outcome with
      capped := horizonsCapped || popsCapped || partialsCapped }
  let mode := entryMode horizons
  ({ popped with outstanding := some ⟨pass, segments, partials, mode, progress⟩ },
    ⟨pass, segments, partials, outcome = .planned, progress, mode⟩)

/-- `housekeeping_prepare`. The order is that in which the tenants that are behind are
taken up. -/
def prepare (horizons : SnapshotHorizons) (maxUnlinks : ℕ)
    (order : List TenantId) : Keeper × Except ReclaimError ReclaimPlan :=
  let idle := keeper.abandon horizons
  match (idle.refuseModeDisagreement horizons).or (idle.refuseUnexplainedTenants horizons) with
  | some error => (idle, .error (idle.failure error))
  | none =>
    let (next, plan) := idle.planPass horizons maxUnlinks order
    (next, .ok plan)

/-! ## The record half -/

/-- How a write to the record ends: done, or stopped with some of its bytes written. -/
abbrev Io := Option (ℕ → Bool)

/-- Carry out a change of the record. One that stops leaves the process with what it
remembered, over a file that has some of the new bytes. -/
def attempt (io : Io) (changed : Except StoreError ReclaimStore) :
    Keeper × Except StoreError Unit :=
  match changed with
  | .error error => (keeper, .error error)
  | .ok store =>
    if keeper.store = some store then (keeper, .ok ())
    else
      match io with
      | none => ({ keeper with store := some store }, .ok ())
      | some written =>
        ({ keeper with
            store := keeper.store.map fun held =>
              { held with file := torn written held.file store.file } },
          .error .io)

/-- `write_plan_record`. A plan that owes the record nothing is permitted as it is. -/
def writePlan (keeper : Keeper) (plan : ReclaimPlan) (io : Io) :
    Keeper × Except WritePlanError Unit :=
  if keeper.live = 0 then (keeper, .error (.refused .settled))
  else if keeper.live ≠ plan.pass then (keeper, .error (.refused (.superseded keeper.live)))
  else if !plan.records then (keeper, .ok ())
  else
    match keeper.store with
    | none => (keeper, .ok ())
    | some store =>
      match mergePlan store.record plan keeper.maxUnlinksPerPass with
      | .error error => (keeper, .error (.merge error))
      | .ok none => (keeper, .ok ())
      | .ok (some record) =>
        let (next, result) := keeper.attempt io (store.commit crc record)
        (next, result.mapError .store)

/-! ## The ledger half again -/

/-- Raise every tenant the row of a completed segment names. -/
def raiseEntry (record : ReclaimRecord) (segment : Uuid) : Except NotLive ReclaimRecord :=
  match entryMode? record.consumerMode with
  | none => .ok record
  | some mode =>
    match record.planned.find? fun row => row.segment = segment with
    | none => .ok record
    | some row => raiseReclaimed mode record row

def releaseRow (record : ReclaimRecord) (segment : Uuid) : ReclaimRecord :=
  { record with planned := record.planned.filter fun row => row.segment ≠ segment }

def markUncertain (record : ReclaimRecord) (segment : Uuid) : ReclaimRecord :=
  { record with
    planned := record.planned.map fun row =>
      if row.segment = segment then { row with uncertain := true } else row }

/-- What folding unlink results back has come to. -/
structure Settling where
  ledger : SegmentLedger
  record : ReclaimRecord
  unreclaimedBytes : ℕ
  done : ℕ

/-- Fold the unlink results of popped segments back, up to one that cannot be raised. -/
def settleSegments (removed : List Text) (fsyncFailed : Bool) :
    Settling → List Popped → Settling × Option HousekeepingError
  | settling, [] => (settling, none)
  | settling, popped :: rest =>
    if popped.path ∈ removed then
      if fsyncFailed then
        settleSegments removed fsyncFailed
          { settling with
            ledger := settling.ledger.hold popped.segment true
            record := markUncertain settling.record popped.segment }
          rest
      else
        match raiseEntry settling.record popped.segment with
        | .error error => (settling, some (.plannedNames popped.segment error))
        | .ok record =>
          let (ledger, bytes) := settling.ledger.remove popped.segment
          settleSegments removed fsyncFailed
            { ledger
              record := releaseRow record popped.segment
              unreclaimedBytes := settling.unreclaimedBytes - bytes
              done := settling.done + 1 }
            rest
    else
      settleSegments removed fsyncFailed
        { settling with ledger := settling.ledger.hold popped.segment popped.uncertain } rest

/-- The progress of a settled pass: its own decisions with what was removed and the
backlog as it stands. -/
def settledProgress (planned : HousekeepingProgress)
    (removedSegments removedPartials : ℕ) : HousekeepingProgress :=
  { planned with
    removedSegments, removedPartials
    horizonRemaining := keeper.ledger.horizonRemaining
    unlinkRemaining := keeper.ledger.unlinkRemaining keeper.current }

/-- Count the partials whose removal is verified and put the others back. -/
def settlePartials (popped : List Text) (removed : List Text) (fsyncFailed : Bool) : Keeper × ℕ :=
  let (done, requeued) := popped.partition fun path => path ∈ removed && !fsyncFailed
  (keeper.requeuePartials requeued, done.length)

/-- Settle what was unlinked. Without a record nothing was, and where a row cannot be
raised the record stays as it was. -/
def settleUnlinked (outstanding : Outstanding) (removed : List Text)
    (fsyncFailed : Bool) : Keeper × Except ReclaimError HousekeepingProgress :=
  match keeper.store with
  | none =>
    let (next, partials) := keeper.settlePartials outstanding.partials removed fsyncFailed
    (next, .ok (next.settledProgress outstanding.progress 0 partials))
  | some store =>
    let (settled, failed) := settleSegments removed fsyncFailed
      ⟨keeper.ledger, store.record, keeper.unreclaimedBytes, 0⟩ outstanding.segments
    let folded := { keeper with
      ledger := settled.ledger
      unreclaimedBytes := settled.unreclaimedBytes }
    match failed with
    | some error => (folded, .error (folded.failure error))
    | none =>
      let adopted := { folded with store := some { store with record := settled.record } }
      let (next, partials) := adopted.settlePartials outstanding.partials removed fsyncFailed
      (next, .ok (next.settledProgress outstanding.progress settled.done partials))

/-- `housekeeping_commit`. -/
def commit (pass : ℕ) (outcome : ReclaimOutcome) :
    Keeper × Except ReclaimError HousekeepingProgress :=
  match keeper.outstanding with
  | none => (keeper, .error (keeper.failure (.settled pass)))
  | some outstanding =>
    if outstanding.pass ≠ pass then
      (keeper, .error (keeper.failure (.superseded pass outstanding.pass)))
    else
      let spent := { keeper with live := 0, outstanding := none }
      match outcome with
      | .recordFailed =>
        let restored := { spent with
          ledger := outstanding.segments.foldl
            (fun ledger (popped : Popped) => ledger.restore popped.segment) spent.ledger }
        let next := restored.requeuePartials outstanding.partials
        (next, .ok (next.settledProgress outstanding.progress 0 0))
      | .unlinked removed fsyncFailed => spent.settleUnlinked outstanding removed fsyncFailed

/-! ## What the log does between the parts -/

/-- A frame that an append or the recovery walk put at an offset of 64 bits. -/
structure Landed where
  segment : Uuid
  byte : UInt64
  kind : FrameKind
  payload : List UInt8

def Landed.delivered (frame : Landed) : Delivered :=
  ⟨⟨frame.segment, frame.byte.toNat⟩, frame.kind, frame.payload⟩

/-- A frame landed in the append target. -/
def append (byte : UInt64) (kind : FrameKind) (payload : List UInt8) : Keeper :=
  { keeper with
    ledger := keeper.ledger.observe
      ⟨⟨keeper.current, byte.toNat⟩, frameLen payload, tenantOf kind payload, keeper.currentPath⟩
    unreclaimedBytes := keeper.unreclaimedBytes + frameLen payload }

def partialPath (root : Text) (uuid : Uuid) : Text :=
  root ++ "/".toList ++ uuid.hyphenated ++ ".wal.partial".toList

/-- A rotation past the close of the old segment: the record is there before the new
segment is created, and a segment that is not renamed into place is left to the sweep. -/
def rotate (keeper : Keeper) (fresh : Uuid) (io : Io) (renamed : Bool) : Keeper :=
  match keeper.attempt io (ensureRecord crc keeper.maxUnlinksPerPass keeper.store) with
  | (failed, .error _) => failed
  | (recorded, .ok ()) =>
    let created := partialPath recorded.root fresh
    let queued := recorded.stalePartials ++ [created]
    if renamed then
      { recorded with
        current := fresh
        currentPath := segmentPath recorded.root fresh
        stalePartials := queued.filter fun path => path ≠ created }
    else { recorded with stalePartials := queued }

/-- `rebuild_ledger`, from the frames and the partials its walk was handed. A tenant that
is too long stops it. -/
def rebuildLedger (walked : List (Text × Landed)) (partials : List Text) : Keeper :=
  match walked.foldlM (fun ledger (path, frame) => consume path ledger frame.delivered)
      ({} : SegmentLedger) with
  | .error _ => keeper
  | .ok rebuilt =>
    { keeper with
      ledger := rebuilt.describeRoot
      stalePartials := partials
      unreclaimedBytes := rebuilt.bytes }

/-- How far a checkpoint gets: how its two writes of the record end, and whether the
sidecar is written and its directory entry made durable. -/
structure CheckpointIo where
  arming : Io
  written : Bool
  synced : Bool
  witnessing : Io

/-- `checkpoint`. A mark below the last one is refused, and one equal to it is not written
again once all of it is on disk. -/
def takeCheckpoint (keeper : Keeper) (durableTo : WalOffset) (io : CheckpointIo) : Keeper :=
  if keeper.checkpoint.any fun current => durableTo < current then keeper
  else if keeper.checkpoint = some durableTo ∧ keeper.checkpointIsSettled then keeper
  else
    match keeper.attempt io.arming (arm crc keeper.maxUnlinksPerPass keeper.store) with
    | (failed, .error _) => failed
    | (armed, .ok ()) =>
      if io.written then
        let marked := { armed with
          checkpoint := some durableTo
          version := some .current
          gate := .fsyncPending }
        if io.synced then
          let synced := { marked with gate := .opened }
          match synced.store with
          | none => synced
          | some store => (synced.attempt io.witnessing (witness crc store)).1
        else marked
      else armed

end Keeper

/-! ## A process -/

/-- A process and every plan it was handed. -/
structure Session where
  keeper : Keeper
  plans : List ReclaimPlan := []

inductive Step
  | append (byte : UInt64) (kind : FrameKind) (payload : List UInt8)
  | rotate (fresh : Uuid) (io : Keeper.Io) (renamed : Bool)
  | rebuildLedger (walked : List (Text × Keeper.Landed)) (partials : List Text)
  | checkpoint (durableTo : WalOffset) (io : Keeper.CheckpointIo)
  | prepare (horizons : SnapshotHorizons) (maxUnlinks : ℕ) (order : List TenantId)
  | writePlan (index : ℕ) (io : Keeper.Io)
  | commit (pass : ℕ) (outcome : ReclaimOutcome)

namespace Session

def step (session : Session) : Step → Session
  | .append byte kind payload =>
    { session with keeper := session.keeper.append byte kind payload }
  | .rotate fresh io renamed =>
    { session with keeper := session.keeper.rotate crc fresh io renamed }
  | .rebuildLedger walked partials =>
    { session with keeper := session.keeper.rebuildLedger walked partials }
  | .checkpoint durableTo io =>
    { session with keeper := session.keeper.takeCheckpoint crc durableTo io }
  | .prepare horizons maxUnlinks order =>
    match session.keeper.prepare horizons maxUnlinks order with
    | (keeper, .error _) => { session with keeper }
    | (keeper, .ok plan) => ⟨keeper, session.plans ++ [plan]⟩
  | .writePlan index io =>
    match session.plans[index]? with
    | none => session
    | some plan => { session with keeper := (session.keeper.writePlan crc plan io).1 }
  | .commit pass outcome => { session with keeper := (session.keeper.commit pass outcome).1 }

def machine : Machine Session Step Unit where
  step session step := (session.step crc step, [])

end Session

end Ourios.Housekeeping
