/-
# Offset order and append order

A root over any number of processes: each opens it, appends, rotates and syncs, and
stops. A segment is named by the uuid its process minted, and a process only knows that
its own mints ascend. As long as every mint is above the segments the process found on
the root, offsets are handed out in their order, and the newest segment by name is the
one installed last. A process whose clock is behind that of an earlier one breaks both.
-/

import Ourios.Foundation.Machine
import Ourios.Wal.WriterSpec

namespace Ourios

open Ourios.Foundation

/-! ### Processes on one root -/

/-- A root with no process on it, or with the one that holds it open. -/
inductive Host
  | down (files : List SegmentFile)
  | up (wal : Wal)
  deriving DecidableEq, Repr

/-- What the root holds. -/
def Host.files : Host → List SegmentFile
  | down files => files
  | up wal => wal.files

/-- What a process does next. -/
inductive Op
  | openRoot (config : WalConfig) (io : OpenIo)
  | append (kind : FrameKind) (payload : List UInt8) (io : Wal.AppendIo)
  | rotate (kind : RotationKind) (stat : Bool) (io : Wal.RotationIo)
  | sync (io : Wal.SyncIo)
  | stop
  deriving DecidableEq, Repr

/-- An offset the writer returned: of an appended frame, or of everything a sync made
durable. -/
inductive Event
  | appended (offset : WalOffset) (kind : FrameKind) (payload : List UInt8)
  | synced (offset : WalOffset)
  deriving DecidableEq, Repr

/-- What the result of an append tells the caller. -/
def Event.ofAppend (kind : FrameKind) (payload : List UInt8) :
    Except AppendError WalOffset → List Event
  | .ok offset => [.appended offset kind payload]
  | .error _ => []

/-- What the result of a sync tells the caller. -/
def Event.ofSync : Except SyncError WalOffset → List Event
  | .ok offset => [.synced offset]
  | .error _ => []

def Event.offset : Event → WalOffset
  | appended offset _ _ => offset
  | synced offset => offset

/-- Frames appended after an offset was returned lie above it. -/
def Event.Before (earlier later : Event) : Prop :=
  ∀ offset kind payload, later = .appended offset kind payload → earlier.offset < offset

namespace Host

/-- One operation on a root. A process that is not there does nothing. -/
def step (crc : Crc) : Host → Op → Host × List Event
  | down files, .openRoot config io =>
    match Wal.openRoot config files io with
    | (.ok wal, _) => (.up wal, [])
    | (.error _, files) => (.down files, [])
  | up wal, .append kind payload io =>
    (.up (wal.append crc kind payload io).2,
      Event.ofAppend kind payload (wal.append crc kind payload io).1)
  | up wal, .rotate kind stat io => (.up (wal.rotate kind stat io).2, [])
  | up wal, .sync io => (.up (wal.sync io).2, Event.ofSync (wal.sync io).1)
  | up wal, .stop => (.down wal.files, [])
  | host, _ => (host, [])

/-- A root over the operations of its processes. -/
def machine (crc : Crc) : Machine Host Op Event := ⟨step crc⟩

end Host

/-! ### Mints -/

/-- What `Uuid::now_v7` promises of the next uuid of a process: its clock did not go
back, the uuid is above the last one, and its stamp is not before the reading. -/
structure Mint.Follows (last : Option Mint) (mint : Mint) : Prop where
  reading : ∀ earlier ∈ last, earlier.reading ≤ mint.reading
  above : ∀ earlier ∈ last, earlier.uuid < mint.uuid
  stamped : mint.reading ≤ mint.uuid.millis

instance (last : Option Mint) (mint : Mint) : Decidable (mint.Follows last) :=
  decidable_of_iff
    ((∀ earlier ∈ last, earlier.reading ≤ mint.reading) ∧
      (∀ earlier ∈ last, earlier.uuid < mint.uuid) ∧ mint.reading ≤ mint.uuid.millis)
    ⟨fun h => ⟨h.1, h.2.1, h.2.2⟩, fun h => ⟨h.reading, h.above, h.stamped⟩⟩

/-- The uuid an operation may mint. -/
def Op.fresh : Op → Option Mint
  | .openRoot _ io => some io.fresh
  | .append _ _ io => some io.rotation.fresh
  | .rotate _ _ io => some io.fresh
  | _ => none

/-- The last uuid of the process on a root. -/
def Host.minted : Host → Option Mint
  | down _ => none
  | up wal => wal.minted

/-- The segments the process on a root found there. -/
def Host.found : Host → List Uuid
  | down _ => []
  | up wal => wal.found

/-- The mint of an operation is one `Uuid::now_v7` can return. -/
def Op.Mintable (host : Host) (op : Op) : Prop :=
  ∀ mint ∈ op.fresh, mint.Follows host.minted

/-- The mint of an operation is above every segment its process found on the root. -/
def Op.PastFound (host : Host) (op : Op) : Prop :=
  ∀ mint ∈ op.fresh, ∀ uuid ∈ host.found, uuid < mint.uuid

instance (host : Host) (op : Op) : Decidable (op.Mintable host) :=
  inferInstanceAs (Decidable (∀ mint ∈ op.fresh, mint.Follows host.minted))

-- Not by `∀ uuid ∈ found`, whose instance would run over all uuids.
instance (host : Host) (op : Op) : Decidable (op.PastFound host) :=
  decidable_of_iff (∀ mint ∈ op.fresh, host.found.all (fun uuid => uuid < mint.uuid) = true)
    (by simp [Op.PastFound])

instance (earlier later : Event) : Decidable (earlier.Before later) :=
  match later with
  | .appended offset kind payload =>
    decidable_of_iff (earlier.offset < offset)
      ⟨fun h _ _ _ heq => (Event.appended.inj heq).1 ▸ h, fun h => h offset kind payload rfl⟩
  | .synced _ => isTrue fun _ _ _ heq => nomatch heq

/-! ### Invariant -/

/-- The segments ascend, the last one is the current one with its header whole, and
every offset returned so far is at or below its end. -/
structure Chronological (wal : Wal) (events : List Event) : Prop where
  ascending : (wal.files.map SegmentFile.uuid).Pairwise (· < ·)
  current : ∃ closed file, wal.Current closed file ∧ writeHeader (.new file.uuid) <+: file.bytes ∧
    ∀ event ∈ events, event.offset ≤ ⟨file.uuid, file.bytes.length⟩
  covered : ∀ file ∈ wal.files, file.uuid ∈ wal.found ∨ ∃ mint ∈ wal.minted, file.uuid ≤ mint.uuid
  ordered : events.Pairwise Event.Before

namespace Chronological

variable {wal : Wal} {events : List Event}

section

variable (h : Chronological wal events)
include h

/-- A change that leaves the names and extends the current file. -/
theorem extend {next : Wal}
    (hnames : next.files.map SegmentFile.uuid = wal.files.map SegmentFile.uuid)
    (hfound : next.found = wal.found) (hminted : next.minted = wal.minted)
    (hcurrent : ∀ closed file, wal.Current closed file → ∃ others changed,
      next.Current others changed ∧ changed.uuid = file.uuid ∧ file.bytes <+: changed.bytes) :
    Chronological next events := by
  obtain ⟨closed, file, hfile, hheader, hevents⟩ := h.current
  obtain ⟨others, changed, hchanged, huuid, hbytes⟩ := hcurrent closed file hfile
  refine ⟨?_, ⟨others, changed, hchanged, ?_, ?_⟩, ?_, h.ordered⟩
  · rw [hnames]
    exact h.ascending
  · rw [huuid]
    exact hheader.trans hbytes
  · intro event hmem
    apply (hevents event hmem).trans
    rw [WalOffset.le_iff, huuid]
    exact .inr ⟨rfl, hbytes.length_le⟩
  · intro other hmem
    have hname : other.uuid ∈ wal.files.map SegmentFile.uuid := by
      rw [← hnames]
      exact List.mem_map_of_mem hmem
    obtain ⟨old, hold, huuid⟩ := List.mem_map.mp hname
    rw [hfound, hminted, ← huuid]
    exact h.covered old hold

/-- The state of the directory and of the rotation does not matter. -/
theorem flags (dirFsync : DirFsync) (rotation : RotationState) :
    Chronological { wal with dirFsync, rotation } events := by
  refine h.extend (by rfl) (by rfl) (by rfl) ?_
  intro closed file hfile
  exact ⟨closed, file, hfile.of_eq rfl rfl rfl, rfl, List.prefix_rfl⟩

theorem charged (site : RotationSite) : Chronological (wal.charged site) events :=
  h.flags wal.dirFsync _

theorem syncSegmentData : Chronological wal.syncSegmentData events := by
  apply h.extend wal.map_uuid_syncSegmentData rfl rfl
  intro closed file hfile
  exact ⟨closed, _, hfile.syncSegmentData, rfl, List.prefix_rfl⟩

theorem syncParentDir : Chronological wal.syncParentDir events := by
  apply h.extend wal.map_uuid_syncParentDir rfl rfl
  intro closed file hfile
  exact ⟨_, _, hfile.syncParentDir, rfl, List.prefix_rfl⟩

theorem dischargedFsync : Chronological wal.dischargedFsync events :=
  h.syncParentDir.flags .clean .healthy

/-- Renaming a fresh segment above all others into place makes it the last one. -/
theorem install {fresh : Mint}
    (hfresh : ∀ file ∈ wal.files, file.uuid < fresh.uuid) (hminted : wal.minted = some fresh) :
    Chronological (wal.install fresh.uuid) events := by
  have hinstalled := Wal.current_install hfresh
  obtain ⟨closed, file, hfile, _, hevents⟩ := h.current
  refine ⟨?_, ⟨wal.files, _, hinstalled, List.prefix_rfl, ?_⟩, ?_, h.ordered⟩
  · rw [hinstalled.files, List.map_append, List.pairwise_append]
    refine ⟨h.ascending, List.pairwise_singleton _ _, ?_⟩
    intro uuid hmem last hlast
    obtain ⟨other, hother, rfl⟩ := List.mem_map.mp hmem
    obtain rfl : last = fresh.uuid := by simpa [SegmentFile.installed] using hlast
    exact hfresh other hother
  · intro event hmem
    apply (hevents event hmem).trans
    rw [WalOffset.le_iff]
    exact .inl (hfresh file (by simp [hfile.files]))
  · intro other hmem
    rw [hinstalled.files, List.mem_append] at hmem
    rcases hmem with hold | hnew
    · exact h.covered other hold
    · obtain rfl : other = .installed fresh.uuid := by simpa using hnew
      exact .inr ⟨fresh, hminted, le_refl _⟩

/-- The offset a writer at the end of its segment returns is above all before it. -/
theorem emit {event : Event} (hevent : event.offset = ⟨wal.currentSegmentUuid, wal.currentLen⟩)
    (hbefore : ∀ earlier ∈ events, earlier.Before event) :
    Chronological wal (events ++ [event]) := by
  obtain ⟨closed, file, hfile, hheader, hevents⟩ := h.current
  refine ⟨h.ascending, ⟨closed, file, hfile, hheader, ?_⟩, h.covered, ?_⟩
  · intro earlier hmem
    rcases List.mem_append.mp hmem with hold | hnew
    · exact hevents earlier hold
    · obtain rfl : earlier = event := by simpa using hnew
      rw [hevent, hfile.currentLen_eq, hfile.uuid]
  · rw [List.pairwise_append]
    refine ⟨h.ordered, List.pairwise_singleton _ _, ?_⟩
    intro earlier hmem later hlater
    obtain rfl : later = event := by simpa using hlater
    exact hbefore earlier hmem

theorem write (bytes : List UInt8) : Chronological (wal.write bytes) events := by
  apply h.extend (wal.map_uuid_write bytes) rfl rfl
  intro closed file hfile
  exact ⟨closed, _, hfile.write bytes, rfl, List.prefix_append file.bytes bytes⟩

/-- A failed write that is rolled back leaves the current segment as long as it was. -/
theorem rollback (bytes : List UInt8) :
    Chronological ((wal.write bytes).setLen wal.currentLen) events := by
  refine h.extend (by simp) (by rfl) (by rfl) ?_
  intro closed file hfile
  exact ⟨closed, _, hfile.rollback bytes, rfl, List.prefix_rfl⟩

/-- A frame write at the end of the current segment. -/
theorem writeAt (crc : Crc) (kind : FrameKind) (payload : List UInt8) (io : Wal.AppendIo) :
    Chronological (Wal.writeAt crc wal wal.currentLen kind payload io).2
      (events ++ Event.ofAppend kind payload
        (Wal.writeAt crc wal wal.currentLen kind payload io).1) := by
  obtain ⟨closed, file, hfile, _, hevents⟩ := h.current
  unfold Wal.writeAt
  split
  · apply (h.write _).emit
    · rw [(hfile.write _).currentLen_eq, hfile.currentLen_eq, List.length_append,
        length_writeFrame]
      rfl
    · intro earlier hmem offset kind' payload' hevent
      obtain ⟨rfl, _, _⟩ := Event.appended.inj hevent
      apply (hevents earlier hmem).trans_lt
      rw [WalOffset.lt_iff, hfile.currentLen_eq]
      refine .inr ⟨hfile.uuid, ?_⟩
      simp [frameLen, frameHeaderLen]
  · simp only [Event.ofAppend, List.append_nil]
    split
    · exact h.rollback _
    · exact h.write _

end

/-- Before its rename a rotation keeps the order with every file below the mint; after
it the segment just installed is the last one and holds its header only. -/
theorem rotationRule (events : List Event) (io : Wal.RotationIo) :
    Wal.RotationRule io
      (fun wal => Chronological wal events ∧ ∀ file ∈ wal.files, file.uuid < io.fresh.uuid)
      (fun wal => Chronological wal events ∧ wal.currentLen = segmentHeaderLen) where
  charge_before := by
    intro wal site h
    exact ⟨h.1.charged site, h.2⟩
  charge_after := by
    intro wal site h
    exact ⟨h.1.charged site, h.2⟩
  discharge_before := by
    intro wal h
    refine ⟨h.1.dischargedFsync, ?_⟩
    intro file hmem
    obtain ⟨old, hold, rfl⟩ := List.mem_map.mp hmem
    exact h.2 old hold
  discharge_after := by
    intro wal h
    refine ⟨h.1.dischargedFsync, ?_⟩
    rw [Wal.currentLen_dischargedFsync]
    exact h.2
  close := by
    intro wal h
    refine ⟨h.1.syncSegmentData, ?_⟩
    intro file hmem
    obtain ⟨old, hold, rfl⟩ := mem_modifyFile hmem
    split
    · exact h.2 old hold
    · exact h.2 old hold
  mint := by
    intro wal h
    obtain ⟨closed, file, hfile, hheader, hevents⟩ := h.1.current
    refine ⟨⟨h.1.ascending, ⟨closed, file, hfile.of_eq rfl rfl rfl, hheader, hevents⟩, ?_,
      h.1.ordered⟩, h.2⟩
    intro file hmem
    exact .inr ⟨io.fresh, rfl, (h.2 file hmem).le⟩
  install := by
    intro wal h _ hminted
    refine ⟨h.1.install h.2 hminted, ?_⟩
    rw [(Wal.current_install h.2).currentLen_eq]
    exact length_writeHeader _

variable (h : Chronological wal events)
include h

/-- The mints of a process are above every segment on the root. -/
theorem lt_fresh {mint : Mint} (hfollows : mint.Follows wal.minted)
    (hfound : ∀ uuid ∈ wal.found, uuid < mint.uuid) :
    ∀ file ∈ wal.files, file.uuid < mint.uuid := by
  intro file hmem
  rcases h.covered file hmem with hold | ⟨earlier, hearlier, hle⟩
  · exact hfound _ hold
  · exact hle.trans_lt (hfollows.above earlier hearlier)

theorem rotate (kind : RotationKind) (stat : Bool)
    {io : Wal.RotationIo} (hfresh : ∀ file ∈ wal.files, file.uuid < io.fresh.uuid) :
    Chronological (wal.rotate kind stat io).2 events := by
  rcases Wal.rotate_rule (rotationRule events io) kind stat ⟨h, hfresh⟩ with hbefore | hafter
  · exact hbefore.1
  · exact hafter.1

theorem append (crc : Crc) (kind : FrameKind) (payload : List UInt8) {io : Wal.AppendIo}
    (hfresh : ∀ file ∈ wal.files, file.uuid < io.rotation.fresh.uuid) :
    Chronological (wal.append crc kind payload io).2
      (events ++ Event.ofAppend kind payload (wal.append crc kind payload io).1) := by
  have hrotated := Wal.rotateNow_rule (rotationRule events io.rotation) ⟨h, hfresh⟩
  rcases wal.append_cases crc kind payload io with
    ⟨error, heq⟩ | ⟨error, heq⟩ | ⟨_, heq | ⟨hok, heq⟩⟩
  · rw [heq]
    simpa [Event.ofAppend] using h
  · rw [heq]
    simp only [Event.ofAppend, List.append_nil]
    rcases hrotated.1 with hbefore | hafter
    · exact hbefore.1
    · exact hafter.1
  · rw [heq]
    exact h.writeAt crc kind payload io
  · rw [heq]
    obtain ⟨hnext, hlen⟩ := hrotated.2 hok
    have hwritten := hnext.writeAt crc kind payload io
    rw [hlen] at hwritten
    exact hwritten

theorem sync (io : Wal.SyncIo) :
    Chronological (wal.sync io).2 (events ++ Event.ofSync (wal.sync io).1) := by
  have hdata := h.syncSegmentData
  rcases wal.sync_cases io with ⟨error, heq⟩ | ⟨error, heq⟩ | ⟨error, heq⟩ | ⟨next, hnext, heq⟩
  · rw [heq]
    simpa [Event.ofSync] using h
  · rw [heq]
    simpa [Event.ofSync] using hdata
  · rw [heq]
    simpa [Event.ofSync] using hdata.charged _
  · have hdone : Chronological next events := by
      rcases hnext with ⟨_, rfl⟩ | rfl | rfl
      · exact hdata
      · exact hdata.syncParentDir.flags .clean _
      · exact hdata.dischargedFsync
    rcases heq with ⟨error, heq⟩ | heq
    · rw [heq]
      simpa [Event.ofSync] using hdone
    · rw [heq]
      apply hdone.emit rfl
      intro earlier _ offset kind payload hevent
      cases hevent

end Chronological

/-- A root no process holds: its last segment is whole and above every offset returned,
or it has none and nothing was returned, or no process can open it again. -/
structure Rested (files : List SegmentFile) (events : List Event) : Prop where
  ascending : (files.map SegmentFile.uuid).Pairwise (· < ·)
  last : files = [] ∧ events = [] ∨
    (∃ closed file, files = closed ++ [file] ∧ file.bytes.length < segmentHeaderLen) ∨
    ∃ closed file, files = closed ++ [file] ∧ writeHeader (.new file.uuid) <+: file.bytes ∧
      ∀ event ∈ events, event.offset ≤ ⟨file.uuid, file.bytes.length⟩
  ordered : events.Pairwise Event.Before

/-- The order of a root along the operations of its processes. -/
def Host.InOrder (events : List Event) : Host → Prop
  | down files => Rested files events
  | up wal => Chronological wal events

theorem Chronological.rested {wal : Wal} {events : List Event} (h : Chronological wal events) :
    Rested wal.files events := by
  obtain ⟨closed, file, hfile, hheader, hevents⟩ := h.current
  exact ⟨h.ascending, .inr (.inr ⟨closed, file, hfile.files, hheader, hevents⟩), h.ordered⟩

namespace Rested

variable {files : List SegmentFile} {events : List Event}

/-- Opening a root resumes on the segment installed last. -/
theorem openRoot (h : Rested files events) (config : WalConfig) (io : OpenIo) :
    (∀ wal, (Wal.openRoot config files io).1 = .ok wal → Chronological wal events) ∧
      (∀ error, (Wal.openRoot config files io).1 = .error error →
        Rested (Wal.openRoot config files io).2 events) := by
  unfold Wal.openRoot
  split
  · exact ⟨by simp, fun _ _ => h⟩
  rw [listSegments_of_pairwise h.ascending]
  rcases h.last with ⟨rfl, rfl⟩ | ⟨closed, file, rfl, hshort⟩ |
    ⟨closed, file, rfl, hheader, hevents⟩
  · simp only [List.getLast?_nil, List.nil_append]
    split
    · exact ⟨by simp, fun _ _ => h⟩
    split
    · refine ⟨by simp, fun _ _ => ⟨by simp, .inr (.inl ⟨[], _, rfl, ?_⟩), List.Pairwise.nil⟩⟩
      simp [segmentHeaderLen]
    · refine ⟨?_, by simp⟩
      intro wal hwal
      obtain rfl := Except.ok.inj hwal
      refine ⟨by simp [Wal.opened], ⟨[], .fresh io.fresh.uuid, ⟨rfl, rfl, rfl, by simp⟩,
        List.prefix_rfl, ?_⟩, ?_, List.Pairwise.nil⟩
      · simp
      · intro file hmem
        obtain rfl : file = .fresh io.fresh.uuid := by simpa [Wal.opened] using hmem
        exact .inr ⟨io.fresh, rfl, le_refl _⟩
  · simp only [List.getLast?_append, List.getLast?_singleton, Option.some_or,
      readHeader_of_short hshort]
    exact ⟨by simp, fun _ _ => h⟩
  · obtain ⟨rest, hrest⟩ := hheader
    simp only [List.getLast?_append, List.getLast?_singleton, Option.some_or, ← hrest,
      readHeader_new]
    refine ⟨?_, by simp⟩
    intro wal hwal
    obtain rfl := Except.ok.inj hwal
    have hbelow : ∀ other ∈ closed, other.uuid < file.uuid :=
      fun other hmem => lt_last_of_pairwise h.ascending hmem
    refine ⟨h.ascending, ⟨closed, file, ⟨rfl, rfl, rfl, hbelow⟩, ⟨rest, hrest⟩, hevents⟩, ?_,
      h.ordered⟩
    intro other hmem
    exact .inl (List.mem_map_of_mem hmem)

end Rested

namespace Host

/-- One operation keeps the order. -/
theorem InOrder.step {host : Host} {events : List Event} (h : host.InOrder events) (crc : Crc)
    {op : Op} (hmint : op.Mintable host) (hpast : op.PastFound host) :
    (host.step crc op).1.InOrder (events ++ (host.step crc op).2) := by
  cases host with
  | down files =>
    cases op with
    | openRoot config io =>
      have hopened := Rested.openRoot h config io
      simp only [Host.step]
      split
      case h_1 wal _ heq =>
        rw [heq] at hopened
        simpa [InOrder] using hopened.1 wal rfl
      case h_2 error _ heq =>
        rw [heq] at hopened
        simpa [InOrder] using hopened.2 error rfl
    | _ => simpa [Host.step] using h
  | up wal =>
    have horder : Chronological wal events := h
    cases op with
    | openRoot config io => simpa [Host.step] using h
    | append kind payload io =>
      exact horder.append crc kind payload
        (horder.lt_fresh (hmint io.rotation.fresh rfl) (hpast io.rotation.fresh rfl))
    | rotate kind stat io =>
      have hrotated := horder.rotate kind stat
        (horder.lt_fresh (hmint io.fresh rfl) (hpast io.fresh rfl))
      simpa [Host.step, InOrder] using hrotated
    | sync io => exact horder.sync io
    | stop =>
      have hrested := horder.rested
      simpa [Host.step, InOrder] using hrested

/-- The segment `open` would append to. -/
def appendTarget (host : Host) : Option SegmentFile := (listSegments host.files).getLast?

theorem InOrder.appendTarget_eq {host : Host} {events : List Event} (h : host.InOrder events) :
    host.appendTarget = host.files.getLast? := by
  have hascending : (host.files.map SegmentFile.uuid).Pairwise (· < ·) := by
    cases host with
    | down files => exact Rested.ascending h
    | up wal => exact Chronological.ascending h
  rw [appendTarget, listSegments_of_pairwise hascending]

end Host

/-- In every run whose mints are above the segments their process found on the root,
every frame is appended above every offset returned before, and the segment `open`
selects is the one installed last. -/
theorem Host.append_order_of_pastFound (crc : Crc) (ops : List Op)
    (hmints : (Host.machine crc).Meets (fun host op => op.Mintable host ∧ op.PastFound host)
      (.down []) ops) :
    ((Host.machine crc).run (.down []) ops).2.Pairwise Event.Before ∧
      ((Host.machine crc).run (.down []) ops).1.appendTarget =
        ((Host.machine crc).run (.down []) ops).1.files.getLast? := by
  have hstart : Host.InOrder [] (.down []) := ⟨by simp, .inl ⟨rfl, rfl⟩, List.Pairwise.nil⟩
  have hend := (Host.machine crc).run_invariant (fun host events => host.InOrder events)
    (fun host events op h hok => h.step crc hok.1 hok.2) hstart hmints
  refine ⟨?_, hend.appendTarget_eq⟩
  generalize (Host.machine crc).run (.down []) ops = outcome at hend
  obtain ⟨host, events⟩ := outcome
  cases host with
  | down files => exact Rested.ordered hend
  | up wal => exact Chronological.ordered hend

/-! ### Two processes -/

/-- A uuid minted at a clock reading. -/
def mintAt (reading : Nat) : Mint := ⟨reading, Fin.ofNat (2 ^ 128) (reading * 2 ^ 80)⟩

def defaultConfig : WalConfig where
  segmentSizeBytes := 128 * 1024 * 1024
  segmentAgeSecs := 600
  rotationRetryAttempts := 3

/-- An open in which every file operation succeeds. -/
def openAt (reading : Nat) : Op := .openRoot defaultConfig ⟨true, true, none, mintAt reading⟩

/-- A rotation in which every file operation succeeds. -/
def rotationAt (reading : Nat) : Wal.RotationIo :=
  ⟨true, true, true, true, true, true, true, mintAt reading⟩

/-- An append of a one-byte batch in which every file operation succeeds. -/
def appendAt (reading : Nat) : Op :=
  .append .otlpBatch [7] ⟨true, reading, rotationAt reading, none, true⟩

/-- A process appends at one clock reading; the next one rotates at another and
appends. -/
def restartAt (first second : Nat) : List Op :=
  [openAt first, appendAt (first + 1), .stop, openAt second,
    .rotate .owed true (rotationAt second), appendAt (second + 1)]

theorem append_order_restartAt :
    (Host.machine fun _ => 0).Meets (fun host op => op.Mintable host ∧ op.PastFound host)
        (.down []) (restartAt 10 11) ∧
      ((Host.machine fun _ => 0).run (.down []) (restartAt 10 11)).2.Pairwise Event.Before := by
  have hmeets : (Host.machine fun _ => 0).Meets
      (fun host op => op.Mintable host ∧ op.PastFound host) (.down []) (restartAt 10 11) := by
    decide +kernel
  exact ⟨hmeets, (Host.append_order_of_pastFound _ _ hmeets).1⟩

/-- A second process whose clock is behind the first one's appends below it, and the
segment it installed is not the one `open` selects. -/
theorem append_below_earlier_process :
    (Host.machine fun _ => 0).Meets (fun host op => op.Mintable host) (.down [])
        (restartAt 10 5) ∧
      ¬ ((Host.machine fun _ => 0).run (.down []) (restartAt 10 5)).2.Pairwise Event.Before ∧
      ((Host.machine fun _ => 0).run (.down []) (restartAt 10 5)).1.appendTarget ≠
        ((Host.machine fun _ => 0).run (.down []) (restartAt 10 5)).1.files.getLast? := by
  decide +kernel

end Ourios
