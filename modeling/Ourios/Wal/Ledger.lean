/-
# The segment ledger

Which tenants hold frames in which surviving segment, how far each tenant's snapshot
horizon has been applied, and which closed segments a pass may pop. The ledger keeps,
beside its two maps, the sets and counters a pass reads in constant time.

The maps of the source that hash have no order of their own. Where the order in which a
map is walked can be seen in what is computed (the queue of `walk`), it is an argument;
everywhere else it cannot. `saturated` is no field of the source: it records that a
subtraction on one of the counters had less to subtract from than it takes.
-/

import Ourios.Core.Audit
import Ourios.Foundation.Aggregate
import Ourios.Wal.Format

namespace Ourios.Retain

open Ourios.Foundation

/-- A tenant's snapshot state. Only a snapshot that restores bounds a reclamation. -/
inductive TenantHorizon
  | restorable (offset : WalOffset)
  | recordedOnly (offset : WalOffset)
  deriving DecidableEq

/-- The horizon a pass may reclaim under. -/
def TenantHorizon.restorable? : TenantHorizon → Option WalOffset
  | .restorable offset => some offset
  | .recordedOnly _ => none

abbrev Marks := AList fun _ : TenantId => TenantHorizon

/-- What the caller of a pass knows about snapshots. -/
inductive SnapshotHorizons
  | noConsumer
  | known (marks : Marks)

/-- Why a floor is or is not available. -/
inductive RetainFloor
  | unknown
  | none
  | min (offset : WalOffset)
  | pinned (offset : WalOffset) (tenants : ℕ)
  deriving DecidableEq

/-- A tenant's frames in one segment. -/
structure Span where
  first : WalOffset
  last : WalOffset
  deriving DecidableEq

/-- Where a segment stands in the pass. -/
inductive State
  | eligible
  | reclaiming (uncertain : Bool)
  deriving DecidableEq

/-- One validated frame, as the recovery walk or a live append sees it. -/
structure FrameAt where
  offset : WalOffset
  bytes : ℕ
  tenant : Option TenantId
  path : Text

/-- One surviving segment. `pending` are the tenants whose horizon does not cover it yet;
`attempted` says that a file half no commit has reported on was handed it. -/
structure Segment where
  path : Text
  highest : WalOffset
  bytes : ℕ
  members : AList fun _ : TenantId => Span
  pending : Finset TenantId
  state : State
  attempted : Bool

/-- A tenant's horizon, the newest segment it has been applied to, and how many of its
segments are above that one. -/
structure Tenant where
  horizon : Option WalOffset := none
  cursor : Option Uuid := none
  segments : Finset Uuid := ∅
  behind : ℕ := 0

structure SegmentLedger where
  segments : AList fun _ : Uuid => Segment := ∅
  tenants : AList fun _ : TenantId => Tenant := ∅
  unpinned : Finset Uuid := ∅
  behindTotal : ℕ := 0
  reclaiming : Finset Uuid := ∅
  heldBytes : ℕ := 0
  heldSegments : ℕ := 0
  describesRoot : Bool := false
  consumer : Bool := false
  floor : RetainFloor := .unknown
  saturated : Bool := false

/-- An id lies above a cursor that may not exist yet. -/
def isAbove (cursor : Option Uuid) (id : Uuid) : Bool :=
  match cursor with
  | none => true
  | some bound => bound < id

/-- The planned array of the record as one pass may fill it: the segments that have a
row, and how many rows there is room for beside them. -/
structure PlannedRows where
  durable : Finset Uuid
  free : ℕ

namespace PlannedRows

def new (durable : Finset Uuid) (occupied capacity : ℕ) : PlannedRows where
  durable := durable
  free := capacity - max occupied durable.card

def affords (rows : PlannedRows) (id : Uuid) : Bool := 0 < rows.free || id ∈ rows.durable

def spend (rows : PlannedRows) (id : Uuid) : PlannedRows :=
  if id ∈ rows.durable then rows else { rows with free := rows.free - 1 }

end PlannedRows

structure PopBound where
  checkpoint : WalOffset
  current : Uuid
  tenantAware : Bool
  rows : PlannedRows

/-- Which candidates a walk admits. -/
inductive Admit
  | reclaiming
  | rowed
  | eligible

/-- One walk of the ledger inside a pass. -/
structure Drain where
  bound : PopBound
  budget : ℕ
  admission : Admit

structure Popped where
  path : Text
  segment : Uuid
  uncertain : Bool
  lastOffsets : List (TenantId × WalOffset)

/-- A segment as it is entered, without the frame it is entered for. -/
def Segment.entered (frame : FrameAt) : Segment where
  path := frame.path
  highest := frame.offset
  bytes := 0
  members := ∅
  pending := ∅
  state := .eligible
  attempted := false

variable (ledger : SegmentLedger)

namespace SegmentLedger

/-- This ledger describes everything on the root. -/
def describeRoot : SegmentLedger := { ledger with describesRoot := true }

/-! ## Pins -/

/-- A tenant starts to hold a segment back. The answer says whether it did not before. -/
def pin (tenant : TenantId) (id : Uuid) : SegmentLedger × Bool :=
  match ledger.segments.lookup id with
  | none => (ledger, false)
  | some segment =>
    if tenant ∈ segment.pending then (ledger, false)
    else
      ({ ledger with
          segments := ledger.segments.insert id
            { segment with pending := insert tenant segment.pending }
          heldBytes :=
            if segment.pending = ∅ then ledger.heldBytes + segment.bytes else ledger.heldBytes
          heldSegments :=
            if segment.pending = ∅ then ledger.heldSegments + 1 else ledger.heldSegments
          unpinned := ledger.unpinned.erase id }, true)

/-- A tenant stops holding a segment back. -/
def unpin (tenant : TenantId) (id : Uuid) : SegmentLedger :=
  match ledger.segments.lookup id with
  | none => ledger
  | some segment =>
    let released := { segment with pending := segment.pending.erase tenant }
    if tenant ∉ segment.pending ∨ released.pending ≠ ∅ then
      { ledger with segments := ledger.segments.insert id released }
    else
      { ledger with
        segments := ledger.segments.insert id released
        heldBytes := ledger.heldBytes - segment.bytes
        heldSegments := ledger.heldSegments - 1
        unpinned :=
          if segment.state = .eligible then insert id ledger.unpinned else ledger.unpinned
        saturated := ledger.saturated || ledger.heldBytes < segment.bytes ||
          ledger.heldSegments < 1 }

/-! ## Observing -/

/-- The segment half of an observation. -/
def recordFrame (frame : FrameAt) : SegmentLedger :=
  let id := frame.offset.segment
  let entry := (ledger.segments.lookup id).getD (Segment.entered frame)
  { ledger with
    segments := ledger.segments.insert id
      { entry with
        bytes := entry.bytes + frame.bytes
        highest := max entry.highest frame.offset }
    unpinned :=
      if entry.state = .eligible ∧ entry.pending = ∅ then insert id ledger.unpinned
      else ledger.unpinned
    heldBytes :=
      if entry.pending = ∅ then ledger.heldBytes else ledger.heldBytes + frame.bytes }

/-- A tenant's last offset in a segment it holds frames in. -/
def extendSpan (tenant : TenantId) (offset : WalOffset) : Option SegmentLedger :=
  match ledger.segments.lookup offset.segment with
  | none => none
  | some entry =>
    match entry.members.lookup tenant with
    | none => none
    | some span =>
      some { ledger with
        segments := ledger.segments.insert offset.segment
          { entry with
            members := entry.members.insert tenant { span with last := max span.last offset } } }

/-- A tenant's first frame in a segment. -/
def join (tenant : TenantId) (offset : WalOffset) : SegmentLedger :=
  let id := offset.segment
  let joined :=
    match ledger.segments.lookup id with
    | none => ledger
    | some entry =>
      { ledger with
        segments := ledger.segments.insert id
          { entry with members := entry.members.insert tenant ⟨offset, offset⟩ } }
  let pinned := (joined.pin tenant id).1
  let state := (pinned.tenants.lookup tenant).getD {}
  if id ∉ state.segments ∧ isAbove state.cursor id then
    { pinned with
      tenants := pinned.tenants.insert tenant
        { state with segments := insert id state.segments, behind := state.behind + 1 }
      behindTotal := pinned.behindTotal + 1 }
  else
    { pinned with
      tenants := pinned.tenants.insert tenant
        { state with segments := insert id state.segments } }

/-- The tenant's horizon covers its last offset in a segment. -/
def covers (tenant : TenantId) (id : Uuid) : Bool :=
  match (ledger.tenants.lookup tenant).bind Tenant.horizon,
      (ledger.segments.lookup id).bind fun entry => entry.members.lookup tenant with
  | some horizon, some span => span.last ≤ horizon
  | _, _ => false

/-- Put a tenant back behind a segment. -/
def repin (tenant : TenantId) (id : Uuid) : SegmentLedger :=
  if ledger.covers tenant id then ledger
  else
    let (pinned, fresh) := ledger.pin tenant id
    if fresh then
      match pinned.tenants.lookup tenant with
      | none => pinned
      | some state =>
        if isAbove state.cursor id then pinned
        else
          { pinned with
            tenants := pinned.tenants.insert tenant
              { state with
                cursor := (state.segments.filter (· < id)).max
                behind := state.behind + 1 }
            behindTotal := pinned.behindTotal + 1 }
    else pinned

/-- Record a frame, from the recovery walk or a live append. -/
def observe (frame : FrameAt) : SegmentLedger :=
  let recorded := ledger.recordFrame frame
  match frame.tenant with
  | none => recorded
  | some tenant =>
    match recorded.extendSpan tenant frame.offset with
    | some extended => extended.repin tenant frame.offset.segment
    | none => recorded.join tenant frame.offset

/-! ## Settling popped segments -/

/-- Take a popped entry back out of the pass without forgetting that a file half may have
had it. -/
def withdraw (id : Uuid) : SegmentLedger :=
  match ledger.segments.lookup id with
  | none => ledger
  | some segment =>
    match segment.state with
    | .eligible => ledger
    | .reclaiming uncertain =>
      { ledger with
        segments := ledger.segments.insert id
          { segment with attempted := segment.attempted || uncertain, state := .eligible }
        reclaiming := ledger.reclaiming.erase id
        unpinned := if segment.pending = ∅ then insert id ledger.unpinned else ledger.unpinned }

/-- A popped segment the file half never unlinked. -/
def restore (id : Uuid) : SegmentLedger :=
  match ledger.segments.lookup id with
  | none => ledger
  | some segment =>
    let inherited :=
      match segment.state with
      | .reclaiming uncertain => uncertain
      | .eligible => false
    { ledger with
      segments := ledger.segments.insert id
        { segment with state := .eligible, attempted := inherited }
      reclaiming := if segment.state = .eligible then ledger.reclaiming
        else ledger.reclaiming.erase id
      unpinned := if segment.pending = ∅ then insert id ledger.unpinned else ledger.unpinned }

/-- A popped segment whose unlink failed, or whose deletion is uncertain. -/
def hold (id : Uuid) (uncertain : Bool) : SegmentLedger :=
  match ledger.segments.lookup id with
  | none => ledger
  | some segment =>
    { ledger with
      segments := ledger.segments.insert id
        { segment with state := .reclaiming uncertain, attempted := false } }

/-- A removed segment leaves the tenant that held frames in it. -/
def leave (id : Uuid) (tenant : TenantId) : SegmentLedger :=
  match ledger.tenants.lookup tenant with
  | none => ledger
  | some state =>
    let above := isAbove state.cursor id
    let left : Tenant :=
      { state with
        segments := state.segments.erase id
        behind := if above then state.behind - 1 else state.behind }
    let lowered : SegmentLedger :=
      { ledger with
        tenants := ledger.tenants.insert tenant left
        behindTotal := if above then ledger.behindTotal - 1 else ledger.behindTotal
        saturated := ledger.saturated ||
          (above && (state.behind < 1 || ledger.behindTotal < 1)) }
    if left.segments = ∅ then
      { lowered with
        behindTotal := lowered.behindTotal - left.behind
        tenants := lowered.tenants.erase tenant
        saturated := lowered.saturated || lowered.behindTotal < left.behind }
    else lowered

/-- The segment half of a removal. -/
def strike (id : Uuid) (segment : Segment) : SegmentLedger :=
  let held : Bool := segment.pending ≠ ∅
  { ledger with
    segments := ledger.segments.erase id
    reclaiming := if segment.state = .eligible then ledger.reclaiming
      else ledger.reclaiming.erase id
    heldBytes := if held then ledger.heldBytes - segment.bytes else ledger.heldBytes
    heldSegments := if held then ledger.heldSegments - 1 else ledger.heldSegments
    unpinned := ledger.unpinned.erase id
    saturated := ledger.saturated ||
      (held && (ledger.heldBytes < segment.bytes || ledger.heldSegments < 1)) }

/-- A segment whose deletion is verified. The answer is how many bytes left with it. -/
def remove (id : Uuid) : SegmentLedger × ℕ :=
  match ledger.segments.lookup id with
  | none => (ledger, 0)
  | some segment =>
    (segment.members.keys.foldl (fun ledger tenant => ledger.leave id tenant)
      (ledger.strike id segment), segment.bytes)

/-! ## Horizons -/

/-- A tenant holds one of its segments again, and a pass that had popped it loses it. -/
def repossess (tenant : TenantId) (ledger : SegmentLedger) (id : Uuid) : SegmentLedger :=
  let withdrawn := (ledger.pin tenant id).1.withdraw id
  { withdrawn with unpinned := withdrawn.unpinned.erase id }

/-- Put one tenant back to its unapplied state: it holds every one of its segments. -/
def rewind (tenant : TenantId) : SegmentLedger :=
  match ledger.tenants.lookup tenant with
  | none => ledger
  | some state =>
    let rewound : SegmentLedger :=
      { ledger with
        tenants := ledger.tenants.insert tenant
          { state with cursor := none, behind := state.segments.card }
        behindTotal := ledger.behindTotal - state.behind + state.segments.card
        saturated := ledger.saturated || ledger.behindTotal < state.behind }
    (ascending state.segments).foldl (repossess tenant) rewound

/-- The horizon a tenant has under the marks of a pass. -/
def nextHorizon (marks : Marks) (tenant : TenantId) : Option WalOffset :=
  (marks.lookup tenant).bind TenantHorizon.restorable?

/-- The horizon of a tenant regresses or disappears. -/
def regresses (marks : Marks) (tenant : TenantId) (state : Tenant) : Bool :=
  match state.horizon, nextHorizon marks tenant with
  | none, _ => false
  | some _, none => true
  | some held, some next => next < held

/-- One tenant has the horizon the marks give it. -/
def setHorizon (marks : Marks) (ledger : SegmentLedger) (tenant : TenantId) : SegmentLedger :=
  match ledger.tenants.lookup tenant with
  | none => ledger
  | some state =>
    { ledger with
      tenants := ledger.tenants.insert tenant
        { state with horizon := nextHorizon marks tenant } }

/-- Take a pass's horizons. -/
def receive (marks : Marks) : SegmentLedger :=
  let regressed := ledger.tenants.entries.filter fun entry => regresses marks entry.1 entry.2
  let rewound := (regressed.map Sigma.fst).foldl rewind ledger
  rewound.tenants.keys.foldl (setHorizon marks) rewound

/-- The oldest segment above a tenant's cursor, if its horizon covers it. -/
def nextCovered (tenant : TenantId) : Option Uuid :=
  match ledger.tenants.lookup tenant with
  | none => none
  | some state =>
    match (state.segments.filter fun id => isAbove state.cursor id).min with
    | none => none
    | some next => if ledger.covers tenant next then some next else none

/-- A tenant's horizon now covers a segment. -/
def applyTo (tenant : TenantId) (id : Uuid) : SegmentLedger :=
  let released := ledger.unpin tenant id
  match released.tenants.lookup tenant with
  | none => released
  | some state =>
    { released with
      tenants := released.tenants.insert tenant
        { state with cursor := some id, behind := state.behind - 1 }
      behindTotal := released.behindTotal - 1
      saturated := released.saturated || state.behind < 1 || released.behindTotal < 1 }

/-- Advance one tenant's cursor by one segment. -/
def step (tenant : TenantId) : Option SegmentLedger :=
  (ledger.nextCovered tenant).map (ledger.applyTo tenant)

def anyBehind : Bool := 0 < ledger.behindTotal

/-- The walk from a queue of tenants. Each turn spends budget or retires a tenant, so as
many turns as both together are enough. -/
def walkFrom : ℕ → SegmentLedger → ℕ → List TenantId → SegmentLedger × Bool
  | 0, ledger, _, _ => (ledger, ledger.anyBehind)
  | turns + 1, ledger, budget, active =>
    if budget = 0 then (ledger, ledger.anyBehind)
    else
      match active with
      | [] => (ledger, false)
      | tenant :: rest =>
        match ledger.step tenant with
        | some stepped => walkFrom turns stepped (budget - 1) (rest ++ [tenant])
        | none => walkFrom turns ledger budget rest

/-- The round-robin walk. `order` is the order in which the tenants are met. -/
def walk (budget : ℕ) (order : List TenantId) : SegmentLedger × Bool :=
  let active := order.filter fun tenant =>
    match ledger.tenants.lookup tenant with
    | none => false
    | some state => 0 < state.behind
  walkFrom (budget + active.length) ledger budget active

def oldestFrame (tenant : TenantId) : Option WalOffset :=
  match ledger.tenants.lookup tenant with
  | none => none
  | some state =>
    (ascending state.segments).findSome? fun id =>
      (ledger.segments.lookup id).bind fun entry =>
        (entry.members.lookup tenant).map Span.first

/-- The minimum over every tenant's horizon and every pin. -/
def deriveFloor : RetainFloor :=
  let marks := ledger.tenants.entries.filterMap fun entry =>
    entry.2.horizon.or (ledger.oldestFrame entry.1)
  let pinned := (ledger.tenants.entries.filter fun entry => entry.2.horizon.isNone).length
  match marks.min?, pinned with
  | none, _ =>
    match (ledger.segments.entries.map fun entry => entry.2.highest).max? with
    | none => .unknown
    | some highest => .min highest
  | some offset, 0 => .min offset
  | some offset, tenants + 1 => .pinned offset (tenants + 1)

/-- Apply horizons to at most `budget` pairs of a tenant and a segment, and derive the
floor. The answer says whether the budget bound. -/
def apply (horizons : SnapshotHorizons) (budget : ℕ)
    (order : List TenantId) : SegmentLedger × Bool :=
  match horizons with
  | .noConsumer => ({ ledger with consumer := false, floor := .none }, false)
  | .known marks =>
    let received := { ledger with consumer := true }.receive marks
    let (walked, capped) := received.walk budget order
    ({ walked with floor := walked.deriveFloor }, capped)

/-! ## Popping -/

/-- Mark one segment reclaiming and describe it for the record. -/
def take (id current : Uuid) : Option (SegmentLedger × Popped) :=
  if id = current then none
  else
    match ledger.segments.lookup id with
    | none => none
    | some segment =>
      let uncertain := segment.attempted || segment.state = .reclaiming true
      some
        ({ ledger with
            reclaiming := if segment.state = .eligible then insert id ledger.reclaiming
              else ledger.reclaiming
            segments := ledger.segments.insert id
              { segment with state := .reclaiming uncertain, attempted := true }
            unpinned := ledger.unpinned.erase id },
          { path := segment.path
            segment := id
            uncertain := uncertain
            lastOffsets := (ascending segment.members.keys.toFinset).filterMap fun tenant =>
              (segment.members.lookup tenant).map fun span => (tenant, span.last) })

/-- A segment is at or below the checkpoint of a bound. -/
def coveredBy (bound : PopBound) (id : Uuid) : Bool :=
  match ledger.segments.lookup id with
  | none => false
  | some segment => segment.highest ≤ bound.checkpoint

/-- No pass has a claim on a segment, and no tenant where tenants constrain. -/
def unclaimed (bound : PopBound) (id : Uuid) : Bool :=
  if bound.tenantAware then id ∈ ledger.unpinned else id ∉ ledger.reclaiming

/-- The ids one drain walks. -/
def candidates (drain : Drain) : List Uuid :=
  match drain.admission with
  | .reclaiming => ascending ledger.reclaiming
  | .rowed =>
    (ascending drain.bound.rows.durable).filter fun id =>
      id ≠ drain.bound.current && ledger.coveredBy drain.bound id &&
        ledger.unclaimed drain.bound id
  | .eligible =>
    if drain.bound.tenantAware then
      (((ascending ledger.unpinned).takeWhile (ledger.coveredBy drain.bound)).filter fun id =>
        id ≠ drain.bound.current).take (drain.budget + 1)
    else
      (((ascending ledger.segments.keys.toFinset).takeWhile
        (ledger.coveredBy drain.bound)).filter fun id =>
          id ≠ drain.bound.current && ledger.unclaimed drain.bound id).take (drain.budget + 1)

def admits (id : Uuid) (drain : Drain) : Bool :=
  match ledger.segments.lookup id with
  | none => false
  | some segment =>
    match drain.admission with
    | .reclaiming => true
    | .rowed | .eligible =>
      segment.state = .eligible && segment.highest ≤ drain.bound.checkpoint

/-- What a pass has popped so far. -/
structure Pops where
  ledger : SegmentLedger
  out : List Popped
  rows : PlannedRows

/-- Pop the candidates from a list of ids while both budgets hold. -/
def drainFrom (drain : Drain) (pops : Pops) (refused : Bool) : List Uuid → Pops × Bool
  | [] => (pops, refused)
  | id :: ids =>
    if drain.budget ≤ pops.out.length then (pops, true)
    else if pops.ledger.admits id drain then
      if pops.rows.affords id then
        match pops.ledger.take id drain.bound.current with
        | none => drainFrom drain pops refused ids
        | some (taken, popped) =>
          drainFrom drain
            { ledger :=
                { taken with
                  saturated := taken.saturated ||
                    (id ∉ pops.rows.durable && pops.rows.free < 1) }
              out := pops.out ++ [popped]
              rows := pops.rows.spend id }
            refused ids
      else drainFrom drain pops true ids
    else drainFrom drain pops refused ids

/-- Pop what one walk admits. The answer says whether a budget bound. -/
def drain (drain : Drain) (pops : Pops) : Pops × Bool :=
  drainFrom drain pops false (pops.ledger.candidates drain)

/-- Pop at most `budget` segments: entries already reclaiming, then eligible segments
with a row, then newly eligible ones. -/
def pop (bound : PopBound) (budget : ℕ) : SegmentLedger × List Popped × Bool :=
  if ledger.describesRoot then
    let (first, firstCapped) := drain ⟨bound, budget, .reclaiming⟩ ⟨ledger, [], bound.rows⟩
    let (second, secondCapped) := drain ⟨bound, budget, .rowed⟩ first
    let (third, thirdCapped) := drain ⟨bound, budget, .eligible⟩ second
    (third.ledger, third.out, firstCapped || secondCapped || thirdCapped)
  else (ledger, [], false)

/-! ## Figures -/

def bytes (ledger : SegmentLedger) : ℕ := total Segment.bytes ledger.segments

def horizonRemaining : ℕ :=
  if ledger.consumer then ledger.behindTotal else 0

def unlinkRemaining (current : Uuid) : ℕ :=
  ledger.unpinned.card - (if current ∈ ledger.unpinned then 1 else 0) + ledger.reclaiming.card

/-- What one segment contributes to the held figures. -/
def heldOf (id : Uuid) : ℕ × ℕ :=
  match ledger.segments.lookup id with
  | none => (0, 0)
  | some segment => if segment.pending = ∅ then (0, 0) else (segment.bytes, 1)

/-- The bytes and the segments at least one tenant holds back, the append target apart. -/
def lag (current : Uuid) : ℕ × ℕ :=
  match ledger.floor with
  | .unknown | .none => (0, 0)
  | .min _ | .pinned _ _ =>
    (ledger.heldBytes - (ledger.heldOf current).1, ledger.heldSegments - (ledger.heldOf current).2)

end SegmentLedger

end Ourios.Retain
