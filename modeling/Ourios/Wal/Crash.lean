/-
# Crashes and restarts

A machine crash keeps synced bytes and listed entries, and any front part of the rest. A
restart opens the root and replays it. A session is a root under calls to its writer,
process stops, crashes and restarts, with the frames its callers were told of: a frame is
acknowledged once a sync after its append succeeds.
-/

import Ourios.Foundation.Machine
import Ourios.Wal.Chronology
import Ourios.Wal.Replay

namespace Ourios

open Ourios.Foundation

/-! ### Crashes and restarts -/

/-- What a machine crash leaves where it may choose: which unlisted entries, and how
much of each file beyond what was synced. -/
structure Survival where
  keeps : SegmentFile → Bool
  length : SegmentFile → Nat

variable (survival : Survival)

namespace Survival

/-- How much of a file a crash leaves. -/
def bytesLeft (file : SegmentFile) : Nat :=
  max file.synced (min (survival.length file) file.bytes.length)

/-- A file after a crash: what is left of it is on disk. -/
def leave (file : SegmentFile) : SegmentFile where
  uuid := file.uuid
  bytes := file.bytes.take (survival.bytesLeft file)
  synced := (file.bytes.take (survival.bytesLeft file)).length
  listed := true

/-- Whether the entry of a file is still there after a crash. -/
def spares (file : SegmentFile) : Bool := file.listed || survival.keeps file

/-- A root after a crash. -/
def crash (files : List SegmentFile) : List SegmentFile :=
  (files.filter survival.spares).map survival.leave

/-- Every file left has its whole header. -/
def KeepsHeaders (files : List SegmentFile) : Prop :=
  ∀ file ∈ files, survival.spares file = true → segmentHeaderLen ≤ survival.bytesLeft file

end Survival

inductive RestartError
  | opening (error : OpenError)
  | replaying (error : RecoveryError)
  deriving DecidableEq, Repr

/-- Open a root and replay it, with no file operation failing. -/
def restart (crc : Crc) (config : WalConfig) (fresh : Mint) (files : List SegmentFile) :
    List Delivered × Except RestartError Wal :=
  match (Wal.openRoot config files ⟨true, true, none, fresh⟩).1 with
  | .error error => ([], .error (.opening error))
  | .ok wal =>
    match wal.replay crc with
    | (delivered, .error error) => (delivered, .error (.replaying error))
    | (delivered, .ok wal) => (delivered, .ok wal)

/-- A root with the frames its callers were told of: those a sync has acknowledged, and
those appended since. -/
structure Session where
  host : Host
  acked : List Delivered
  pending : List Delivered

inductive Incident
  | append (kind : FrameKind) (payload : List UInt8) (io : Wal.AppendIo)
  | rotate (kind : RotationKind) (stat : Bool) (io : Wal.RotationIo)
  | sync (io : Wal.SyncIo)
  | stop
  | crash (survival : Survival)
  | restart (config : WalConfig) (fresh : Mint)

/-- The frame an append tells its caller of. -/
def Delivered.ofAppend (kind : FrameKind) (payload : List UInt8) :
    Except AppendError WalOffset → List Delivered
  | .ok offset => [⟨offset, kind, payload⟩]
  | .error _ => []

namespace Session

/-- A root nothing has been written to. -/
def initial : Session := ⟨.down [], [], []⟩

/-- One incident. A restart emits what it delivers. -/
def step (crc : Crc) (session : Session) (incident : Incident) : Session × List (List Delivered) :=
  match session.host, incident with
  | .up wal, .append kind payload io =>
    ({ session with
        host := .up (wal.append crc kind payload io).2
        pending := session.pending ++
          Delivered.ofAppend kind payload (wal.append crc kind payload io).1 }, [])
  | .up wal, .rotate kind stat io =>
    ({ session with host := .up (wal.rotate kind stat io).2 }, [])
  | .up wal, .sync io =>
    match (wal.sync io).1 with
    | .ok _ => (⟨.up (wal.sync io).2, session.acked ++ session.pending, []⟩, [])
    | .error _ => ({ session with host := .up (wal.sync io).2 }, [])
  | .up wal, .stop => ({ session with host := .down wal.files }, [])
  | host, .crash survival => (⟨.down (survival.crash host.files), session.acked, []⟩, [])
  | .down files, .restart config fresh =>
    match Ourios.restart crc config fresh files with
    | (delivered, .ok wal) => ({ session with host := .up wal }, [delivered])
    | (delivered, .error _) => (session, [delivered])
  | _, _ => (session, [])

/-- A root over incidents. -/
def machine (crc : Crc) : Machine Session Incident (List Delivered) := ⟨step crc⟩

end Session

/-- The uuid an incident may mint is above every segment of the root. -/
def Incident.Ascending (session : Session) : Incident → Prop
  | append _ _ io => ∀ file ∈ session.host.files, file.uuid < io.rotation.fresh.uuid
  | rotate _ _ io => ∀ file ∈ session.host.files, file.uuid < io.fresh.uuid
  | _ => True

/-- A failed frame write is rolled back, and a crash leaves no part of a header. -/
def Incident.Benign (session : Session) : Incident → Prop
  | append _ _ io => io.write.isSome = true → io.rollback = true
  | crash survival => survival.KeepsHeaders session.host.files
  | _ => True

instance (survival : Survival) (files : List SegmentFile) :
    Decidable (survival.KeepsHeaders files) :=
  inferInstanceAs (Decidable (∀ file ∈ files, survival.spares file = true →
    segmentHeaderLen ≤ survival.bytesLeft file))

instance (session : Session) : (incident : Incident) → Decidable (incident.Ascending session)
  | .append _ _ io => inferInstanceAs
      (Decidable (∀ file ∈ session.host.files, file.uuid < io.rotation.fresh.uuid))
  | .rotate _ _ io => inferInstanceAs
      (Decidable (∀ file ∈ session.host.files, file.uuid < io.fresh.uuid))
  | .sync _ => isTrue trivial
  | .stop => isTrue trivial
  | .crash _ => isTrue trivial
  | .restart _ _ => isTrue trivial

instance (session : Session) : (incident : Incident) → Decidable (incident.Benign session)
  | .append _ _ io => inferInstanceAs
      (Decidable (io.write.isSome = true → io.rollback = true))
  | .crash survival => inferInstanceAs (Decidable (survival.KeepsHeaders session.host.files))
  | .rotate _ _ _ => isTrue trivial
  | .sync _ => isTrue trivial
  | .stop => isTrue trivial
  | .restart _ _ => isTrue trivial

end Ourios
