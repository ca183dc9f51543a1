/-
# The writer of the log

`Wal` of `ourios-wal`: opening a root, appending a frame, rotating to a fresh segment
and syncing, with the outcome of every file operation given as an input. A root is its
installed segment files in the order they were installed, each with the bytes a reader
sees, how many of them a data sync has covered and whether a directory fsync has
covered its entry. `<uuid>.wal.partial` files are not listed by `open` or by a replay,
so a rotation that fails before its rename leaves no segment here.
-/

import Ourios.Foundation.Sorting
import Ourios.Wal.Format

namespace Ourios

open Ourios.Foundation

/-! ### Root -/

/-- One `<uuid>.wal` file. -/
structure SegmentFile where
  uuid : Uuid
  bytes : List UInt8
  synced : Nat
  listed : Bool
  deriving DecidableEq, Repr

/-- A segment file as `create_segment_at` leaves it. -/
def SegmentFile.fresh (uuid : Uuid) : SegmentFile where
  uuid := uuid
  bytes := writeHeader (.new uuid)
  synced := 0
  listed := false

/-- A segment file as a rotation renames it into place, with its header synced. -/
def SegmentFile.installed (uuid : Uuid) : SegmentFile where
  uuid := uuid
  bytes := writeHeader (.new uuid)
  synced := segmentHeaderLen
  listed := false

def modifyFile (files : List SegmentFile) (uuid : Uuid) (change : SegmentFile → SegmentFile) :
    List SegmentFile :=
  files.map fun file => if file.uuid = uuid then change file else file

def fileAt (files : List SegmentFile) (uuid : Uuid) : Option SegmentFile :=
  files.find? fun file => file.uuid = uuid

/-- The name order of `list_segments`, which is the order of the uuids. -/
def listSegments (files : List SegmentFile) : List SegmentFile :=
  sortByKey SegmentFile.uuid files

/-! ### State -/

/-- The steps of a rotation that can fail. -/
inductive RotationSite
  | closeSync | create | headerSync | rename | parentFsync
  deriving DecidableEq, Repr

structure RotationFault where
  site : RotationSite
  attempts : Nat
  budget : Nat
  deriving DecidableEq, Repr

inductive RotationState
  | healthy
  | retrying (fault : RotationFault)
  | terminal (fault : RotationFault)
  deriving DecidableEq, Repr

namespace RotationState

/-- Charge one failed attempt. The first failure's site is the one kept. -/
def charge (state : RotationState) (site : RotationSite) (budget : Nat) :
    RotationFault × RotationState :=
  let fault : RotationFault := match state with
    | healthy => ⟨site, 0, budget⟩
    | retrying outstanding => outstanding
    | terminal outstanding => outstanding
  let fault := { fault with attempts := fault.attempts + 1 }
  (fault, if budget ≤ fault.attempts then terminal fault else retrying fault)

def terminal? : RotationState → Option RotationFault
  | terminal fault => some fault
  | _ => none

end RotationState

/-- Whether the directory still owes an fsync, and why. -/
inductive DirFsync
  | clean | pendingOpen | pendingRotation
  deriving DecidableEq, Repr

inductive RotationKind
  | discretionary | owed
  deriving DecidableEq, Repr

structure WalConfig where
  segmentSizeBytes : Nat
  segmentAgeSecs : Nat
  rotationRetryAttempts : Nat
  deriving DecidableEq, Repr

/-- One uuid minted by `Uuid::now_v7`, with the clock reading behind it. -/
structure Mint where
  reading : Nat
  uuid : Uuid
  deriving DecidableEq, Repr

/-- An open writer on its root. `minted` is the last uuid of the process, which is all
the state `Uuid::now_v7` keeps; `found` is what the root held when it was opened. -/
structure Wal where
  config : WalConfig
  files : List SegmentFile
  currentSegmentPath : Uuid
  currentSegmentUuid : Uuid
  dirFsync : DirFsync
  rotation : RotationState
  minted : Option Mint
  found : List Uuid
  deriving DecidableEq, Repr

inductive AppendError
  | rotationTerminal (fault : RotationFault)
  | rotationRetrying (fault : RotationFault)
  | tooLarge (len limit : Nat)
  | io (op : String)
  deriving DecidableEq, Repr

inductive SyncError
  | rotationTerminal (fault : RotationFault)
  | rotationRetrying (fault : RotationFault)
  | io (op : String)
  deriving DecidableEq, Repr

inductive OpenError
  | corrupt (header : HeaderError)
  | io (op : String)
  | refused
  deriving DecidableEq, Repr

/-! ### Opening -/

/-- Outcomes of the file operations of `open`. `prepared` is whether everything before
the choice of a segment succeeded; `header` is how many bytes a failing header write
left, which is never all of them. -/
structure OpenIo where
  prepared : Bool
  create : Bool
  header : Option Nat
  fresh : Mint
  deriving DecidableEq, Repr

variable (wal : Wal)

namespace Wal

/-- A writer on a segment of a root, as `open` returns it. -/
def opened (config : WalConfig) (files : List SegmentFile) (path uuid : Uuid)
    (minted : Option Mint) (found : List Uuid) : Wal where
  config := config
  files := files
  currentSegmentPath := path
  currentSegmentUuid := uuid
  dirFsync := .pendingOpen
  rotation := .healthy
  minted := minted
  found := found

/-- `open`: append to the newest segment, or create one on a root that holds none.
Also what the root holds afterwards. -/
def openRoot (config : WalConfig) (files : List SegmentFile) (io : OpenIo) :
    Except OpenError Wal × List SegmentFile :=
  let found := files.map SegmentFile.uuid
  if !io.prepared then (.error .refused, files)
  else match (listSegments files).getLast? with
    | some newest =>
      match readHeader newest.bytes with
      | .error error => (.error (.corrupt error), files)
      | .ok header =>
        (.ok (opened config files newest.uuid header.segmentUuid none found), files)
    | none =>
      if !io.create then (.error (.io "create(fresh segment)"), files)
      else match io.header with
        | some written =>
          let torn := { SegmentFile.fresh io.fresh.uuid with
            bytes := (writeHeader (.new io.fresh.uuid)).take
              (min written (segmentHeaderLen - 1)) }
          (.error (.io "write(segment header)"), files ++ [torn])
        | none =>
          let files := files ++ [.fresh io.fresh.uuid]
          (.ok (opened config files io.fresh.uuid io.fresh.uuid (some io.fresh) found),
            files)

/-! ### Rotation -/

/-- Outcomes of the file operations of a rotation: the fsync an earlier rotation still
owes, then the sites in order. `record` is whether the root has its record or could be
given one. -/
structure RotationIo where
  owedFsync : Bool
  closeSync : Bool
  record : Bool
  create : Bool
  headerSync : Bool
  rename : Bool
  parentFsync : Bool
  fresh : Mint
  deriving DecidableEq, Repr

def currentLen : Nat :=
  ((fileAt wal.files wal.currentSegmentPath).map fun file => file.bytes.length).getD 0

def syncSegmentData : Wal :=
  { wal with files := modifyFile wal.files wal.currentSegmentPath fun file =>
      { file with synced := file.bytes.length } }

/-- Fsync of the root directory: every entry is durable. -/
def syncParentDir : Wal :=
  { wal with files := wal.files.map fun file => { file with listed := true } }

/-- A rotation step failed: charge the budget and report it on the append surface. -/
def rotationFailed (site : RotationSite) : Except AppendError Unit × Wal :=
  let (fault, rotation) := wal.rotation.charge site wal.config.rotationRetryAttempts
  let error := match rotation.terminal? with
    | some _ => AppendError.rotationTerminal fault
    | none => AppendError.rotationRetrying fault
  (.error error, { wal with rotation })

/-- The directory fsync succeeded: no obligation is left. -/
def dischargedFsync : Wal :=
  { wal.syncParentDir with dirFsync := .clean, rotation := .healthy }

/-- An fsync an earlier rotation owes comes before a second rotation. -/
def dischargeOwedRotationFsync (owedFsync : Bool) : Except AppendError Unit × Wal :=
  if wal.dirFsync ≠ .pendingRotation then (.ok (), wal)
  else if !owedFsync then wal.rotationFailed .parentFsync
  else (.ok (), wal.dischargedFsync)

/-- The rename landed: the fresh segment, whose header is synced, replaces any file of
its name and becomes the current one. -/
def install (uuid : Uuid) : Wal :=
  { wal with
    files := wal.files.filter (fun file => file.uuid ≠ uuid) ++ [.installed uuid]
    currentSegmentPath := uuid
    currentSegmentUuid := uuid
    dirFsync := .pendingRotation }

def rotateClosed (io : RotationIo) : Except AppendError Unit × Wal :=
  if !io.record then (.error (.io "reclaim record"), wal)
  else
    let wal := { wal with minted := some io.fresh }
    if !io.create then wal.rotationFailed .create
    else if !io.headerSync then wal.rotationFailed .headerSync
    else if !io.rename then wal.rotationFailed .rename
    else if !io.parentFsync then (wal.install io.fresh.uuid).rotationFailed .parentFsync
    else (.ok (), (wal.install io.fresh.uuid).dischargedFsync)

def rotateNow (io : RotationIo) : Except AppendError Unit × Wal :=
  match wal.dischargeOwedRotationFsync io.owedFsync with
  | (.error error, wal) => (.error error, wal)
  | (.ok _, wal) =>
    if !io.closeSync then wal.rotationFailed .closeSync
    else wal.syncSegmentData.rotateClosed io

/-- The callable rotation. `stat` is the outcome of reading the current length. -/
def rotate (kind : RotationKind) (stat : Bool) (io : RotationIo) : Except AppendError Unit × Wal :=
  match wal.rotation.terminal? with
  | some fault => (.error (.rotationTerminal fault), wal)
  | none =>
    match wal.dischargeOwedRotationFsync io.owedFsync with
    | (.error error, wal) => (.error error, wal)
    | (.ok _, wal) =>
      if kind = .discretionary then
        if !stat then (.error (.io "stat(current_segment)"), wal)
        else if segmentHeaderLen < wal.currentLen then wal.rotateNow io
        else (.ok (), wal)
      else wal.rotateNow io

/-! ### Append and sync -/

/-- Outcomes of the file operations of `append`. `now` is the clock the age of the
segment is taken against; `write` is how many bytes a failing frame write left. -/
structure AppendIo where
  stat : Bool
  now : Nat
  rotation : RotationIo
  write : Option Nat
  rollback : Bool
  deriving DecidableEq, Repr

/-- A segment is older than the limit. -/
def segmentAgeExceeded (now : Nat) : Bool :=
  wal.currentSegmentUuid.millis ≤ now &&
    wal.config.segmentAgeSecs * 1000 < now - wal.currentSegmentUuid.millis

def rotationDue (now currentLen frameLen : Nat) : Bool :=
  if wal.config.segmentSizeBytes < currentLen + frameLen then true
  else if currentLen ≤ segmentHeaderLen then false
  else wal.segmentAgeExceeded now

/-- Write at the end of the current segment. -/
def write (bytes : List UInt8) : Wal :=
  { wal with files := modifyFile wal.files wal.currentSegmentPath fun file =>
      { file with bytes := file.bytes ++ bytes } }

def setLen (len : Nat) : Wal :=
  { wal with files := modifyFile wal.files wal.currentSegmentPath fun file =>
      { file with bytes := file.bytes.take len, synced := min file.synced len } }

/-- The write of a frame at a known length of the segment, with the truncation that
follows a failed one. A failing write leaves fewer bytes than the frame has. -/
def writeAt (crc : Crc) (wal : Wal) (preWriteByte : Nat) (kind : FrameKind)
    (payload : List UInt8) (io : AppendIo) : Except AppendError WalOffset × Wal :=
  match io.write with
  | none =>
    (.ok ⟨wal.currentSegmentUuid, preWriteByte + frameLen payload⟩,
      wal.write (writeFrame crc kind payload))
  | some written =>
    let torn := wal.write ((writeFrame crc kind payload).take
      (min written (frameLen payload - 1)))
    (.error (.io "write_frame(current_segment)"),
      if io.rollback then torn.setLen preWriteByte else torn)

def append (crc : Crc) (wal : Wal) (kind : FrameKind) (payload : List UInt8) (io : AppendIo) :
    Except AppendError WalOffset × Wal :=
  match wal.rotation.terminal? with
  | some fault => (.error (.rotationTerminal fault), wal)
  | none =>
    if maxFrameBytes < payload.length then
      (.error (.tooLarge payload.length maxFrameBytes), wal)
    else if !io.stat then (.error (.io "stat(current_segment)"), wal)
    else if wal.rotationDue io.now wal.currentLen (frameLen payload) then
      match wal.rotateNow io.rotation with
      | (.error error, wal) => (.error error, wal)
      | (.ok _, wal) => writeAt crc wal segmentHeaderLen kind payload io
    else writeAt crc wal wal.currentLen kind payload io

/-- Outcomes of the file operations of `sync`. -/
structure SyncIo where
  data : Bool
  dir : Bool
  stat : Bool
  deriving DecidableEq, Repr

def dischargeDirFsync (dir : Bool) : Except SyncError Unit × Wal :=
  match wal.dirFsync with
  | .clean => (.ok (), wal)
  | .pendingOpen =>
    if !dir then (.error (.io "fsync(wal_root)"), wal)
    else (.ok (), { wal.syncParentDir with dirFsync := .clean })
  | .pendingRotation =>
    if !dir then
      let (fault, rotation) := wal.rotation.charge .parentFsync wal.config.rotationRetryAttempts
      let error := match rotation.terminal? with
        | some _ => SyncError.rotationTerminal fault
        | none => SyncError.rotationRetrying fault
      (.error error, { wal with rotation })
    else (.ok (), wal.dischargedFsync)

def sync (wal : Wal) (io : SyncIo) : Except SyncError WalOffset × Wal :=
  match wal.rotation.terminal?, wal.dirFsync with
  | some fault, .pendingRotation => (.error (.rotationTerminal fault), wal)
  | _, _ =>
    if !io.data then (.error (.io "sync(current_segment)"), wal)
    else match wal.syncSegmentData.dischargeDirFsync io.dir with
      | (.error error, wal) => (.error error, wal)
      | (.ok _, wal) =>
        if !io.stat then (.error (.io "stat(current_segment)"), wal)
        else (.ok ⟨wal.currentSegmentUuid, wal.currentLen⟩, wal)

end Wal

end Ourios
