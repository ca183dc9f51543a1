/-
# Acknowledged frames survive

A process that has replayed its root writes on a log of whole segments. Every call
keeps that, whichever of its file operations fail, as long as a failed frame write is
rolled back; a successful sync makes everything its callers were told of durable. A
restart after a crash that left no part of a header succeeds and delivers every
acknowledged frame, in append order and under the offset its append returned.
-/

import Ourios.Wal.Log

namespace Ourios

open Ourios.Foundation

variable {crc : Crc}

/-! ### A writer on its log -/

/-- A process that has replayed its root: the files are whole segments, the callers were
told of frames that can be read, and what was acknowledged is durable. -/
structure Writing (log : Log crc) (wal : Wal) (acked pending : List Delivered) : Prop where
  files : wal.files = log.files
  whole : ∀ segment ∈ log.segments, segment.Whole
  current : ∃ closed file, wal.Current closed file
  listed : wal.dirFsync = .clean → ∀ segment ∈ log.segments, segment.file.listed = true
  told : (acked ++ pending).Sublist log.readable
  kept : acked.Sublist log.durable

namespace Writing

variable {log : Log crc} {wal : Wal} {acked pending : List Delivered}

/-- The segment of the current file. -/
theorem split (h : Writing log wal acked pending) :
    ∃ closed last, log.segments = closed ++ [last] ∧
      wal.Current (closed.map LogSegment.file) last.file := by
  obtain ⟨closed, file, hcurrent⟩ := h.current
  have hfiles := hcurrent.files
  rw [h.files, Log.files, List.map_eq_append_iff] at hfiles
  obtain ⟨first, second, hsegments, rfl, hsecond⟩ := hfiles
  obtain ⟨last, rfl, rfl⟩ := List.map_eq_singleton_iff.mp hsecond
  exact ⟨first, last, hsegments, hcurrent⟩

/-- The state of the rotation and the last mint do not matter. -/
theorem flags (h : Writing log wal acked pending) (rotation : RotationState)
    (minted : Option Mint) : Writing log { wal with rotation, minted } acked pending := by
  obtain ⟨closed, file, hcurrent⟩ := h.current
  exact ⟨h.files, h.whole, ⟨closed, file, hcurrent.of_eq rfl rfl rfl⟩, h.listed, h.told, h.kept⟩

/-- Marking every file. -/
theorem mark (h : Writing log wal acked pending) {change : SegmentFile → SegmentFile}
    (hmarks : LogSegment.Marks change) {next : Wal} (hfiles : next.files = wal.files.map change)
    (hcurrent : ∃ closed file, next.Current closed file)
    (hlisted : next.dirFsync = .clean → ∀ segment ∈ log.segments,
      (change segment.file).listed = true) :
    Writing (log.mark change hmarks) next acked pending := by
  refine ⟨?_, ?_, hcurrent, ?_, ?_, h.kept.trans (log.durable_sublist_mark hmarks)⟩
  · rw [hfiles, h.files, Log.mark_files]
  · intro segment hmem
    obtain ⟨old, hold, rfl⟩ := List.mem_map.mp hmem
    exact LogSegment.mark_whole hmarks (h.whole old hold)
  · intro hclean segment hmem
    obtain ⟨old, hold, rfl⟩ := List.mem_map.mp hmem
    exact hlisted hclean old hold
  · rw [Log.mark_readable]
    exact h.told

/-- What a data sync of one file does to every file. -/
def syncMark (uuid : Uuid) (file : SegmentFile) : SegmentFile :=
  if file.uuid = uuid then { file with synced := file.bytes.length } else file

theorem marks_syncMark (uuid : Uuid) : LogSegment.Marks (syncMark uuid) := by
  constructor
  · intro file
    simp only [syncMark]
    split <;> rfl
  · intro file
    simp only [syncMark]
    split <;> rfl
  · intro file
    simp only [syncMark]
    split
    · exact .inr rfl
    · exact .inl rfl
  · intro file hlisted
    simp only [syncMark]
    split <;> exact hlisted

theorem marks_listed :
    LogSegment.Marks fun file => { file with listed := true } :=
  ⟨fun _ => rfl, fun _ => rfl, fun _ => .inl rfl, fun _ _ => rfl⟩

section

variable (h : Writing log wal acked pending)
include h

theorem syncSegmentData :
    Writing (log.mark _ (marks_syncMark wal.currentSegmentPath)) wal.syncSegmentData acked
      pending := by
  obtain ⟨closed, file, hcurrent⟩ := h.current
  refine h.mark _ rfl ⟨closed, _, hcurrent.syncSegmentData⟩ ?_
  intro hclean segment hmem
  exact (marks_syncMark _).listed _ (h.listed hclean segment hmem)

/-- After an fsync of the directory every entry is listed. -/
theorem syncParentDir (dirFsync : DirFsync) (rotation : RotationState) :
    Writing (log.mark _ marks_listed) { wal.syncParentDir with dirFsync, rotation } acked
      pending := by
  obtain ⟨closed, file, hcurrent⟩ := h.current
  refine h.mark _ rfl ⟨_, _, hcurrent.syncParentDir.of_eq rfl rfl rfl⟩ ?_
  intro _ segment _
  rfl

/-- Every segment but that of the current file is closed. -/
theorem closed_of_ne {segment : LogSegment crc} (hmem : segment ∈ log.segments)
    (hne : segment.file.uuid ≠ wal.currentSegmentPath) : segment.Closed := by
  obtain ⟨closed, last, hsegments, hcurrent⟩ := h.split
  have hcases := hmem
  rw [hsegments] at hcases
  rcases List.mem_append.mp hcases with hold | hlast
  · exact log.sealed segment hmem last (by simp [hsegments])
      (hcurrent.below _ (List.mem_map_of_mem hold))
  · obtain rfl : segment = last := by simpa using hlast
    exact absurd hcurrent.path hne

/-- Renaming a fresh segment above all others into place, once they are all closed. -/
theorem install (hclosed : wal.Closed) {uuid : Uuid}
    (hfresh : ∀ file ∈ wal.files, file.uuid < uuid) :
    ∃ next : Log crc, Writing next (wal.install uuid) acked pending ∧
      next.readable = log.readable := by
  have hmem : ∀ segment ∈ log.segments, segment.file ∈ wal.files := by
    intro segment hmem
    rw [h.files]
    exact List.mem_map_of_mem hmem
  have hall : ∀ segment ∈ log.segments, segment.Closed := by
    intro segment hsegment
    by_cases hpath : segment.file.uuid = wal.currentSegmentPath
    · exact ⟨h.whole segment hsegment, hclosed _ (hmem segment hsegment) hpath⟩
    · exact h.closed_of_ne hsegment hpath
  let fresh : LogSegment crc := .empty (.installed uuid) rfl (le_refl _)
  have hinstalled := Wal.current_install hfresh
  have hreadable : (log.push fresh hall fun other hother =>
      hfresh _ (hmem other hother)).readable = log.readable := by
    simp [Log.readable, Log.push, fresh, LogSegment.empty, LogSegment.readable,
      LogSegment.records, recordsFrom]
  refine ⟨log.push fresh hall fun other hother => hfresh _ (hmem other hother),
    ⟨?_, ?_, ⟨_, _, hinstalled⟩, ?_, ?_, ?_⟩, hreadable⟩
  · rw [hinstalled.files, h.files]
    simp [Log.files, Log.push, fresh, LogSegment.empty]
  · refine List.forall_mem_append.mpr ⟨h.whole, List.forall_mem_singleton.mpr ?_⟩
    simp [LogSegment.Whole, fresh, LogSegment.empty, SegmentFile.installed, segmentBytes]
  · intro hclean
    cases hclean
  · rw [hreadable]
    exact h.told
  · apply h.kept.trans
    simp [Log.durable, Log.push]

/-- A frame written at the end of the current segment can be read. -/
theorem write {frame : Frame} (hfits : frame.2.length ≤ maxFrameBytes) :
    ∃ next : Log crc, Writing next (wal.write (writeFrame crc frame.1 frame.2)) acked
        (pending ++ [⟨⟨wal.currentSegmentUuid, wal.currentLen + frameLen frame.2⟩, frame.1,
          frame.2⟩]) ∧
      next.readable = log.readable ++ [⟨⟨wal.currentSegmentUuid, wal.currentLen + frameLen frame.2⟩,
        frame.1, frame.2⟩] := by
  obtain ⟨closed, last, hsegments, hcurrent⟩ := h.split
  have hall := h.whole
  rw [hsegments, List.forall_mem_append] at hall
  have hwhole : last.Whole := List.forall_mem_singleton.mp hall.2
  have hwritten := hcurrent.write (writeFrame crc frame.1 frame.2)
  have hreadable : (log.setLast hsegments (last.extend hwhole frame hfits)
      (LogSegment.extend_uuid hwhole hfits)).readable = log.readable ++
        [⟨⟨wal.currentSegmentUuid, wal.currentLen + frameLen frame.2⟩, frame.1, frame.2⟩] := by
    rw [Log.readable, Log.setLast_segments, Log.readable, hsegments, hcurrent.currentLen_eq,
      ← hcurrent.uuid]
    simp only [List.flatMap_append, List.flatMap_cons, List.flatMap_nil, List.append_nil,
      LogSegment.extend_readable, List.append_assoc]
  refine ⟨log.setLast hsegments (last.extend hwhole frame hfits)
    (LogSegment.extend_uuid hwhole hfits), ⟨?_, ?_, ⟨_, _, hwritten⟩, ?_, ?_, ?_⟩, hreadable⟩
  · rw [hwritten.files]
    simp [Log.files, Log.setLast, LogSegment.extend]
  · exact List.forall_mem_append.mpr
      ⟨hall.1, List.forall_mem_singleton.mpr (LogSegment.extend_whole hwhole hfits)⟩
  · intro hclean
    have hlisted := h.listed hclean
    rw [hsegments, List.forall_mem_append, List.forall_mem_singleton] at hlisted
    exact List.forall_mem_append.mpr ⟨hlisted.1, List.forall_mem_singleton.mpr hlisted.2⟩
  · rw [hreadable, ← List.append_assoc]
    exact h.told.append (List.Sublist.refl _)
  · have hkept := h.kept
    rw [Log.durable, hsegments] at hkept
    rw [Log.durable, Log.setLast_segments]
    simp only [List.flatMap_append, List.flatMap_cons, List.flatMap_nil, List.append_nil] at hkept ⊢
    exact hkept.trans ((List.Sublist.refl _).append (LogSegment.extend_durable hwhole hfits))

/-- A failed write that is rolled back leaves nothing behind. -/
theorem rollback (bytes : List UInt8) :
    Writing log ((wal.write bytes).setLen wal.currentLen) acked pending := by
  obtain ⟨closed, last, hsegments, hcurrent⟩ := h.split
  have hrolled := hcurrent.rollback bytes
  have hfile : ({ last.file with
      synced := min last.file.synced last.file.bytes.length } : SegmentFile) = last.file := by
    rw [min_eq_left last.synced_le]
  rw [hfile] at hrolled
  refine ⟨?_, h.whole, ⟨_, _, hrolled⟩, h.listed, h.told, h.kept⟩
  rw [hrolled.files, ← hcurrent.files, h.files]

theorem writeAt (kind : FrameKind) {payload : List UInt8}
    (hfits : payload.length ≤ maxFrameBytes) {io : Wal.AppendIo}
    (hrollback : io.write.isSome = true → io.rollback = true) :
    ∃ next : Log crc, Writing next (Wal.writeAt crc wal wal.currentLen kind payload io).2 acked
        (pending ++ Delivered.ofAppend kind payload
          (Wal.writeAt crc wal wal.currentLen kind payload io).1) ∧
      next.readable = log.readable ++ Delivered.ofAppend kind payload
        (Wal.writeAt crc wal wal.currentLen kind payload io).1 := by
  unfold Wal.writeAt
  split
  · have hframe : (kind, payload).2.length ≤ maxFrameBytes := hfits
    exact h.write hframe
  · rename_i written hwrite
    have hrolled : io.rollback = true := hrollback (by simp [hwrite])
    simp only [hrolled, if_true, Delivered.ofAppend, List.append_nil]
    exact ⟨log, h.rollback _, rfl⟩

end

/-- Before its rename a rotation has every file below the mint; after it the segment just
installed holds its header only. -/
theorem rotationRule (crc : Crc) (acked pending readable : List Delivered)
    (io : Wal.RotationIo) :
    Wal.RotationRule io
      (fun wal => (∃ log : Log crc, Writing log wal acked pending ∧ log.readable = readable) ∧
        ∀ file ∈ wal.files, file.uuid < io.fresh.uuid)
      (fun wal => (∃ log : Log crc, Writing log wal acked pending ∧ log.readable = readable) ∧
        wal.currentLen = segmentHeaderLen) where
  charge_before := by
    rintro wal site ⟨⟨log, h, hreadable⟩, hfresh⟩
    exact ⟨⟨log, h.flags _ wal.minted, hreadable⟩, hfresh⟩
  charge_after := by
    rintro wal site ⟨⟨log, h, hreadable⟩, hlen⟩
    exact ⟨⟨log, h.flags _ wal.minted, hreadable⟩, hlen⟩
  discharge_before := by
    rintro wal ⟨⟨log, h, hreadable⟩, hfresh⟩
    refine ⟨⟨_, h.syncParentDir .clean .healthy, ?_⟩, ?_⟩
    · rw [Log.mark_readable, hreadable]
    · intro file hmem
      obtain ⟨old, hold, rfl⟩ := List.mem_map.mp hmem
      exact hfresh old hold
  discharge_after := by
    rintro wal ⟨⟨log, h, hreadable⟩, hlen⟩
    refine ⟨⟨_, h.syncParentDir .clean .healthy, ?_⟩, ?_⟩
    · rw [Log.mark_readable, hreadable]
    · rw [Wal.currentLen_dischargedFsync]
      exact hlen
  close := by
    rintro wal ⟨⟨log, h, hreadable⟩, hfresh⟩
    refine ⟨⟨_, h.syncSegmentData, ?_⟩, ?_⟩
    · rw [Log.mark_readable, hreadable]
    · intro file hmem
      obtain ⟨old, hold, rfl⟩ := mem_modifyFile hmem
      split
      · exact hfresh old hold
      · exact hfresh old hold
  mint := by
    rintro wal ⟨⟨log, h, hreadable⟩, hfresh⟩
    exact ⟨⟨log, h.flags wal.rotation _, hreadable⟩, hfresh⟩
  install := by
    rintro wal ⟨⟨log, h, hreadable⟩, hfresh⟩ hclosed _
    obtain ⟨next, hnext, hsame⟩ := h.install hclosed hfresh
    refine ⟨⟨next, hnext, hsame.trans hreadable⟩, ?_⟩
    rw [(Wal.current_install hfresh).currentLen_eq]
    exact length_writeHeader _

section

variable (h : Writing log wal acked pending)
include h

/-- A rotation changes nothing of what can be read. -/
theorem rotate (kind : RotationKind) (stat : Bool)
    {io : Wal.RotationIo} (hfresh : ∀ file ∈ wal.files, file.uuid < io.fresh.uuid) :
    ∃ next : Log crc, Writing next (wal.rotate kind stat io).2 acked pending ∧
      next.readable = log.readable := by
  have hrule := rotationRule crc acked pending log.readable io
  rcases Wal.rotate_rule hrule kind stat ⟨⟨log, h, rfl⟩, hfresh⟩ with hbefore | hafter
  · exact hbefore.1
  · exact hafter.1

/-- An append adds to what can be read exactly the frame its caller is told of. -/
theorem append (kind : FrameKind) (payload : List UInt8)
    {io : Wal.AppendIo} (hfresh : ∀ file ∈ wal.files, file.uuid < io.rotation.fresh.uuid)
    (hrollback : io.write.isSome = true → io.rollback = true) :
    ∃ next : Log crc, Writing next (wal.append crc kind payload io).2 acked
        (pending ++ Delivered.ofAppend kind payload (wal.append crc kind payload io).1) ∧
      next.readable = log.readable ++
        Delivered.ofAppend kind payload (wal.append crc kind payload io).1 := by
  have hrule := rotationRule crc acked pending log.readable io.rotation
  have hrotated := Wal.rotateNow_rule hrule ⟨⟨log, h, rfl⟩, hfresh⟩
  rcases wal.append_cases crc kind payload io with
    ⟨error, heq⟩ | ⟨error, heq⟩ | ⟨hfits, heq | ⟨hok, heq⟩⟩
  · rw [heq]
    exact ⟨log, by simpa [Delivered.ofAppend] using h, by simp [Delivered.ofAppend]⟩
  · rw [heq]
    simp only [Delivered.ofAppend, List.append_nil]
    rcases hrotated.1 with hbefore | hafter
    · exact hbefore.1
    · exact hafter.1
  · rw [heq]
    exact h.writeAt kind hfits hrollback
  · rw [heq]
    obtain ⟨⟨next, hnext, hsame⟩, hlen⟩ := hrotated.2 hok
    have hwritten := hnext.writeAt kind hfits hrollback
    rw [hlen, hsame] at hwritten
    exact hwritten

/-- When every file is synced and listed, everything told is durable. -/
theorem acknowledge
    (hsynced : ∀ segment ∈ log.segments, segment.file.synced = segment.file.bytes.length)
    (hlisted : ∀ segment ∈ log.segments, segment.file.listed = true) :
    Writing log wal (acked ++ pending) [] := by
  have hdurable : log.durable = log.readable := by
    apply List.flatMap_congr
    intro segment hmem
    exact LogSegment.durable_of_settled (hsynced segment hmem) (hlisted segment hmem)
  refine ⟨h.files, h.whole, h.current, h.listed, ?_, ?_⟩
  · simpa using h.told
  · rw [hdurable]
    exact h.told

/-- After a data sync every segment is synced: the others were closed. -/
theorem synced_syncSegmentData :
    ∀ segment ∈ (log.mark _ (marks_syncMark wal.currentSegmentPath)).segments,
      segment.file.synced = segment.file.bytes.length := by
  intro segment hmem
  obtain ⟨old, hold, rfl⟩ := List.mem_map.mp hmem
  simp only [LogSegment.mark, syncMark]
  split
  · rfl
  · rename_i hother
    exact (h.closed_of_ne hold hother).2

end

/-- Marking entries as listed leaves what is synced. -/
theorem synced_mark_listed (hsynced : ∀ segment ∈ log.segments,
      segment.file.synced = segment.file.bytes.length) :
    ∀ segment ∈ (log.mark _ marks_listed).segments,
      segment.file.synced = segment.file.bytes.length := by
  intro segment hmem
  obtain ⟨old, hold, rfl⟩ := List.mem_map.mp hmem
  exact hsynced old hold

theorem listed_mark_listed :
    ∀ segment ∈ (log.mark _ marks_listed).segments, segment.file.listed = true := by
  intro segment hmem
  obtain ⟨old, _, rfl⟩ := List.mem_map.mp hmem
  rfl

/-- A sync keeps the log, and one that succeeds makes everything told durable. -/
theorem sync (h : Writing log wal acked pending) (io : Wal.SyncIo) :
    (∃ next : Log crc, Writing next (wal.sync io).2 acked pending) ∧
      ∀ offset, (wal.sync io).1 = .ok offset →
        ∃ next : Log crc, Writing next (wal.sync io).2 (acked ++ pending) [] := by
  have hdata := h.syncSegmentData
  have hsynced := h.synced_syncSegmentData
  rcases wal.sync_cases io with ⟨error, heq⟩ | ⟨error, heq⟩ | ⟨error, heq⟩ | ⟨next, hnext, heq⟩
  · rw [heq]
    exact ⟨⟨_, h⟩, by simp⟩
  · rw [heq]
    exact ⟨⟨_, hdata⟩, by simp⟩
  · rw [heq]
    exact ⟨⟨_, hdata.flags _ wal.minted⟩, by simp⟩
  · have hdone : ∃ settled : Log crc, Writing settled next acked pending ∧
        Writing settled next (acked ++ pending) [] := by
      rcases hnext with ⟨hclean, rfl⟩ | rfl | rfl
      · exact ⟨_, hdata, hdata.acknowledge hsynced (hdata.listed hclean)⟩
      · have hlisted := hdata.syncParentDir .clean wal.rotation
        exact ⟨_, hlisted, hlisted.acknowledge (synced_mark_listed hsynced) listed_mark_listed⟩
      · have hlisted := hdata.syncParentDir .clean .healthy
        exact ⟨_, hlisted, hlisted.acknowledge (synced_mark_listed hsynced) listed_mark_listed⟩
    obtain ⟨settled, hkept, hacked⟩ := hdone
    rcases heq with ⟨error, heq⟩ | heq
    · rw [heq]
      exact ⟨⟨settled, hkept⟩, by simp⟩
    · rw [heq]
      exact ⟨⟨settled, hkept⟩, fun _ _ => ⟨settled, hacked⟩⟩

end Writing

/-! ### Restart -/

/-- What a file is called and holds. -/
def SegmentFile.contents (file : SegmentFile) : Uuid × List UInt8 := (file.uuid, file.bytes)

/-- A root no process holds. -/
structure Resting (log : Log crc) (files : List SegmentFile) (acked pending : List Delivered) :
    Prop where
  files : files = log.files
  told : (acked ++ pending).Sublist log.readable
  kept : acked.Sublist log.durable

theorem Writing.resting {log : Log crc} {wal : Wal} {acked pending : List Delivered}
    (h : Writing log wal acked pending) : Resting log wal.files acked pending :=
  ⟨h.files, h.told, h.kept⟩

namespace LogSegment

theorem readHeader_file (segment : LogSegment crc) :
    readHeader segment.file.bytes = .ok (.new segment.file.uuid) := by
  rw [segment.bytes_eq, readHeader_new]

/-- What a scan of a segment comes down to. -/
theorem replaySegment_eq (segment : LogSegment crc) (isNewest : Bool) :
    replaySegment crc segment.file isNewest =
      scanFrames crc segment.file.uuid isNewest segment.file.bytes.length segmentHeaderLen
        ((encodeFrames crc segment.frames).take
          (segment.file.bytes.length - segmentHeaderLen)) := by
  have hdrop : segment.file.bytes.drop segmentHeaderLen =
      (encodeFrames crc segment.frames).take
        (segment.file.bytes.length - segmentHeaderLen) := by
    conv_lhs => rw [segment.bytes_eq]
    exact List.drop_left' (length_writeHeader _)
  rw [replaySegment, readHeader_file, hdrop]
  rfl

/-- A whole segment delivers all its frames, newest or not. -/
theorem replaySegment_whole {segment : LogSegment crc} (h : segment.Whole) (isNewest : Bool) :
    replaySegment crc segment.file isNewest = (segment.readable, .ok .cleanTail) := by
  have hlen := length_of_whole h
  have hfuel : segment.frames.length ≤ segment.file.bytes.length := by
    have := length_le_length_encodeFrames crc segment.frames
    omega
  rw [replaySegment_eq, List.take_of_length_le (by omega),
    scanFrames_encodeFrames _ _ segment.fits hfuel, readable_of_whole h]
  rfl

/-- The newest segment delivers its whole frames and may have a torn tail. -/
theorem replaySegment_newest (segment : LogSegment crc) :
    ∃ scan, replaySegment crc segment.file true = (segment.readable, .ok scan) ∧
      (scan = .cleanTail ∧ segment.cut.file = segment.file ∨
        scan = .tornTail segment.validTo) := by
  have hheader := segment.header
  have hfuel : segment.file.bytes.length - segmentHeaderLen < segment.file.bytes.length := by
    simp only [segmentHeaderLen] at hheader ⊢
    omega
  obtain ⟨scan, hscan, hend⟩ := scanFrames_take crc segment.file.uuid segment.fits hfuel
    segmentHeaderLen
  refine ⟨scan, ?_, ?_⟩
  · rw [replaySegment_eq, hscan, ← cut_records]
    rfl
  · rcases hend with ⟨hclean, hbytes⟩ | htorn
    · refine .inl ⟨hclean, ?_⟩
      have hall : segment.file.bytes.take segment.validTo = segment.file.bytes := by
        rw [take_validTo]
        conv_rhs => rw [segment.bytes_eq, hbytes]
        rfl
      have hlen : segment.file.bytes.length ≤ segment.validTo := by
        have htaken := congrArg List.length hall
        rw [List.length_take] at htaken
        omega
      simp only [cut, hall, min_eq_left (segment.synced_le.trans hlen)]
    · exact .inr htorn

end LogSegment

/-- Replaying closed segments and a last one delivers what can be read and heals the
last one when it is torn. -/
theorem Wal.replaySegments_eq (wal : Wal) {closed : List (LogSegment crc)}
    (hclosed : ∀ segment ∈ closed, segment.Whole) (last : LogSegment crc) :
    ∃ next, wal.replaySegments crc ((closed ++ [last]).map LogSegment.file) =
        ((closed ++ [last]).flatMap LogSegment.readable, .ok next) ∧
      (next = wal ∧ last.cut.file = last.file ∨ next = wal.healNewestSegment last.validTo) := by
  induction closed with
  | nil =>
    obtain ⟨scan, hscan, ⟨rfl, hfile⟩ | rfl⟩ := last.replaySegment_newest
    · exact ⟨wal, by simp [Wal.replaySegments, hscan], .inl ⟨rfl, hfile⟩⟩
    · exact ⟨_, by simp [Wal.replaySegments, hscan], .inr rfl⟩
  | cons segment closed ih =>
    obtain ⟨next, hnext, hend⟩ := ih fun other hmem => hclosed other (by simp [hmem])
    refine ⟨next, ?_, hend⟩
    have hlater : ((closed ++ [last]).map LogSegment.file).isEmpty = false := by simp
    rw [List.cons_append, List.map_cons, Wal.replaySegments, hlater,
      LogSegment.replaySegment_whole (hclosed segment (by simp))]
    simp only [hnext, List.flatMap_cons]

/-- Replaying whole segments delivers what can be read and cuts nothing. -/
theorem Wal.replaySegments_whole (wal : Wal) {segments : List (LogSegment crc)}
    (hwhole : ∀ segment ∈ segments, segment.Whole) :
    wal.replaySegments crc (segments.map LogSegment.file) =
      (segments.flatMap LogSegment.readable, .ok wal) := by
  induction segments with
  | nil => rfl
  | cons segment segments ih =>
    have hlater := ih fun other hmem => hwhole other (by simp [hmem])
    rw [List.map_cons, Wal.replaySegments,
      LogSegment.replaySegment_whole (hwhole segment (by simp))]
    simp only [hlater, List.flatMap_cons]

theorem Log.ascending_files (log : Log crc) :
    (log.files.map SegmentFile.uuid).Pairwise (· < ·) := by
  rw [Log.files, List.map_map]
  exact log.ascending

/-- A process that writes on its log would replay all of it and cut nothing. -/
theorem Writing.replay {log : Log crc} {wal : Wal} {acked pending : List Delivered}
    (h : Writing log wal acked pending) : wal.replay crc = (log.readable, .ok wal) := by
  rw [Wal.replay, h.files, listSegments_of_pairwise log.ascending_files]
  exact wal.replaySegments_whole h.whole

namespace Resting

variable {log : Log crc} {files : List SegmentFile} {acked pending : List Delivered}

variable {closed : List (LogSegment crc)} {last : LogSegment crc}

/-- A root with segments opens on the last one. -/
theorem openRoot_eq (hsegments : log.segments = closed ++ [last]) (config : WalConfig)
    (fresh : Mint) :
    (Wal.openRoot config log.files ⟨true, true, none, fresh⟩).1 =
      .ok (Wal.opened config log.files last.file.uuid last.file.uuid none
        (log.files.map SegmentFile.uuid)) := by
  have hlast : (listSegments log.files).getLast? = some last.file := by
    rw [listSegments_of_pairwise log.ascending_files, Log.files, hsegments]
    simp
  simp only [Wal.openRoot, Bool.not_true, Bool.false_eq_true, if_false, hlast,
    LogSegment.readHeader_file]
  rfl

variable (h : Resting log files acked pending)
include h

/-- Cutting the last segment back to its last whole frame. -/
theorem setLast_cut (hsegments : log.segments = closed ++ [last]) {wal : Wal}
    (hcurrent : wal.Current (closed.map LogSegment.file) last.cut.file)
    (hdir : wal.dirFsync = .pendingOpen) :
    Writing (log.setLast hsegments last.cut last.cut_uuid) wal acked pending := by
  have hbelow : ∀ segment ∈ closed, segment.Closed := by
    intro segment hmem
    apply log.sealed segment (by simp [hsegments, hmem]) last (by simp [hsegments])
    exact hcurrent.below _ (List.mem_map_of_mem hmem)
  refine ⟨?_, ?_, ⟨_, _, hcurrent⟩, ?_, ?_, ?_⟩
  · rw [hcurrent.files, Log.files, Log.setLast_segments]
    simp
  · exact List.forall_mem_append.mpr ⟨fun segment hmem => (hbelow segment hmem).1,
      List.forall_mem_singleton.mpr last.cut_whole⟩
  · intro hclean
    rw [hdir] at hclean
    cases hclean
  · have htold := h.told
    rw [Log.readable, hsegments] at htold
    rw [Log.readable, Log.setLast_segments]
    simpa [last.cut_readable] using htold
  · have hkept := h.kept
    rw [Log.durable, hsegments] at hkept
    rw [Log.durable, Log.setLast_segments]
    simp only [List.flatMap_append, List.flatMap_cons, List.flatMap_nil, List.append_nil] at hkept ⊢
    exact hkept.trans ((List.Sublist.refl _).append last.durable_sublist_cut)

/-- A root with segments opens, and its replay delivers what can be read and cuts the
last segment back to its last whole frame. -/
theorem reopen (hsegments : log.segments = closed ++ [last]) (config : WalConfig) (fresh : Mint) :
    ∃ opened healed,
      (Wal.openRoot config files ⟨true, true, none, fresh⟩).1 = .ok opened ∧
      opened.replay crc = (log.readable, .ok healed) ∧
      healed.files.map SegmentFile.contents =
        (closed ++ [last.cut]).map (fun segment => segment.file.contents) ∧
      ∃ next : Log crc, Writing next healed acked pending ∧ next.readable = log.readable := by
  let wal := Wal.opened config log.files last.file.uuid last.file.uuid none
    (log.files.map SegmentFile.uuid)
  have hfiles : log.files = closed.map LogSegment.file ++ [last.file] := by
    simp [Log.files, hsegments]
  have hbelow : ∀ other ∈ closed.map LogSegment.file, other.uuid < last.file.uuid := by
    have hascending := log.ascending_files
    rw [hfiles] at hascending
    exact fun other hmem => lt_last_of_pairwise hascending hmem
  have hcurrent : wal.Current (closed.map LogSegment.file) last.file :=
    ⟨hfiles, rfl, rfl, hbelow⟩
  have hclosed : ∀ segment ∈ closed, segment.Whole := by
    intro segment hmem
    exact (log.sealed segment (by simp [hsegments, hmem]) last (by simp [hsegments])
      (hbelow _ (List.mem_map_of_mem hmem))).1
  obtain ⟨next, hreplay, hend⟩ := wal.replaySegments_eq hclosed last
  have hlisted : listSegments wal.files = (closed ++ [last]).map LogSegment.file := by
    rw [show wal.files = log.files from rfl, listSegments_of_pairwise log.ascending_files, hfiles]
    simp
  have hreadable : (log.setLast hsegments last.cut last.cut_uuid).readable = log.readable := by
    rw [Log.readable, Log.setLast_segments, Log.readable, hsegments]
    simp [last.cut_readable]
  refine ⟨wal, next, ?_, ?_, ?_⟩
  · rw [h.files, openRoot_eq hsegments]
  · rw [Wal.replay, hlisted, hreplay, Log.readable, hsegments]
  · rcases hend with ⟨rfl, hfile⟩ | rfl
    · rw [← hfile] at hcurrent
      refine ⟨?_, _, h.setLast_cut hsegments hcurrent rfl, hreadable⟩
      rw [hcurrent.files]
      simp
    · have hcut := h.setLast_cut hsegments (hcurrent.setLen last.validTo) rfl
      refine ⟨?_, _, hcut.syncSegmentData.syncParentDir .clean .healthy, ?_⟩
      · have hhealed := ((hcurrent.setLen last.validTo).syncSegmentData).syncParentDir
        rw [show (wal.healNewestSegment last.validTo).files =
          (wal.setLen last.validTo).syncSegmentData.syncParentDir.files from rfl, hhealed.files]
        simp [SegmentFile.contents, LogSegment.cut, Function.comp_def]
      · rw [Log.mark_readable, Log.mark_readable, hreadable]

/-- A restart delivers what can be read, and leaves a process on the same log. -/
theorem restart (config : WalConfig) (fresh : Mint) :
    ∃ wal, Ourios.restart crc config fresh files = (log.readable, .ok wal) ∧
      ∃ next : Log crc, Writing next wal acked pending := by
  rcases List.eq_nil_or_concat log.segments with hnil | ⟨closed, last, hsegments⟩
  · -- nothing was left of the root: a fresh segment, which nothing is read from
    rw [h.files]
    let first : LogSegment crc := .empty (.fresh fresh.uuid) rfl (Nat.zero_le _)
    have hfiles : log.files = [] := by simp [Log.files, hnil]
    have hreadable : log.readable = [] := by simp [Log.readable, hnil]
    have hwhole : first.Whole := by
      simp [LogSegment.Whole, first, LogSegment.empty, SegmentFile.fresh, segmentBytes]
    have hscan : replaySegment crc (.fresh fresh.uuid) true = ([], .ok .cleanTail) :=
      LogSegment.replaySegment_whole hwhole true
    let wal := Wal.opened config [.fresh fresh.uuid] fresh.uuid fresh.uuid (some fresh) []
    refine ⟨wal, ?_, log.push first (by simp [hnil]) (by simp [hnil]), ?_, ?_,
      ⟨[], .fresh fresh.uuid, rfl, rfl, rfl, by simp⟩, ?_, ?_, ?_⟩
    · have hreplay : wal.replay crc = ([], .ok wal) := by
        simp [Wal.replay, wal, Wal.opened, listSegments, sortByKey, Wal.replaySegments, hscan]
      have hopen : (Wal.openRoot config log.files ⟨true, true, none, fresh⟩).1 = .ok wal := by
        rw [hfiles]
        rfl
      rw [Ourios.restart, hopen, hreadable]
      simp [hreplay]
    · simp [wal, Wal.opened, Log.files, Log.push, hnil, first, LogSegment.empty]
    · intro segment hmem
      obtain rfl : segment = first := by simpa [Log.push, hnil] using hmem
      exact hwhole
    · intro hclean
      cases hclean
    · apply h.told.trans
      simp [Log.readable, Log.push]
    · apply h.kept.trans
      simp [Log.durable, Log.push]
  · rw [List.concat_eq_append] at hsegments
    obtain ⟨opened, healed, hopen, hreplay, _, next, hnext, _⟩ := h.reopen hsegments config fresh
    refine ⟨healed, ?_, next, hnext⟩
    simp only [Ourios.restart, hopen, hreplay]

end Resting

/-! ### Runs -/

namespace Session

/-- What holds along the incidents of a root. -/
def Sound (crc : Crc) (session : Session) : Prop :=
  ∃ log : Log crc, match session.host with
    | .down files => Resting log files session.acked session.pending
    | .up wal => Writing log wal session.acked session.pending

variable {session : Session}

theorem Sound.resting (h : session.Sound crc) :
    ∃ log : Log crc, Resting log session.host.files session.acked session.pending := by
  obtain ⟨log, hlog⟩ := h
  refine ⟨log, ?_⟩
  cases hhost : session.host with
  | down files =>
    rw [hhost] at hlog
    exact hlog
  | up wal =>
    rw [hhost] at hlog
    exact Writing.resting hlog

/-- A crash keeps what was acknowledged. -/
theorem Sound.crash (h : session.Sound crc) {survival : Survival}
    (hkeeps : survival.KeepsHeaders session.host.files) :
    ∃ log : Log crc, Resting log (survival.crash session.host.files) session.acked [] := by
  obtain ⟨log, hlog⟩ := h.resting
  rw [hlog.files] at hkeeps ⊢
  have hacked : session.acked.Sublist (log.crash survival).readable :=
    hlog.kept.trans log.durable_sublist_crash
  refine ⟨log.crash survival, (log.crash_files hkeeps).symm, ?_, ?_⟩
  · simpa using hacked
  · rw [Log.crash_durable]
    exact hacked

/-- One incident keeps the log sound. -/
theorem Sound.step (h : session.Sound crc) {incident : Incident}
    (hmint : incident.Ascending session) (hbenign : incident.Benign session) :
    (session.step crc incident).1.Sound crc := by
  obtain ⟨host, acked, pending⟩ := session
  have hsound := h
  obtain ⟨log, hlog⟩ := h
  cases host with
  | down files =>
    cases incident with
    | crash survival => exact hsound.crash hbenign
    | restart config fresh =>
      have hresting : Resting log files acked pending := hlog
      obtain ⟨wal, hrestart, next, hnext⟩ := hresting.restart config fresh
      simp only [Session.step, hrestart]
      exact ⟨next, hnext⟩
    | _ => exact ⟨log, hlog⟩
  | up wal =>
    have hwriting : Writing log wal acked pending := hlog
    cases incident with
    | append kind payload io =>
      obtain ⟨next, hnext, _⟩ := hwriting.append kind payload hmint hbenign
      exact ⟨next, hnext⟩
    | rotate kind stat io =>
      obtain ⟨next, hnext, _⟩ := hwriting.rotate kind stat hmint
      exact ⟨next, hnext⟩
    | sync io =>
      obtain ⟨hkept, hacked⟩ := hwriting.sync io
      simp only [Session.step]
      split
      · rename_i offset heq
        exact hacked offset heq
      · exact hkept
    | stop => exact ⟨log, hwriting.resting⟩
    | crash survival => exact hsound.crash hbenign
    | restart config fresh => exact ⟨log, hlog⟩

theorem sound_initial : initial.Sound crc :=
  ⟨⟨[], List.Pairwise.nil, by simp⟩, rfl, by simp [initial], by simp [initial]⟩

end Session

/-- In every run that rolls failed frame writes back and whose crashes leave no part of
a header, a crash of the same kind and a restart succeed and deliver every acknowledged
frame, in append order and under its offset. -/
theorem Session.acked_survive (crc : Crc) (incidents : List Incident)
    (hrun : (Session.machine crc).Meets
      (fun session incident => incident.Ascending session ∧ incident.Benign session)
      Session.initial incidents)
    (survival : Survival)
    (hkeeps : survival.KeepsHeaders
      ((Session.machine crc).run Session.initial incidents).1.host.files)
    (config : WalConfig) (fresh : Mint) :
    ∃ delivered wal,
      restart crc config fresh (survival.crash
        ((Session.machine crc).run Session.initial incidents).1.host.files) =
          (delivered, .ok wal) ∧
      ((Session.machine crc).run Session.initial incidents).1.acked.Sublist delivered := by
  have hsound := (Session.machine crc).run_preserves_of_meets (Session.Sound crc)
    (fun session incident h hok => h.step hok.1 hok.2) Session.sound_initial hrun
  obtain ⟨log, hlog⟩ := hsound.crash hkeeps
  obtain ⟨wal, hrestart, _⟩ := hlog.restart config fresh
  exact ⟨log.readable, wal, hrestart, by simpa using hlog.told⟩

/-! ### One failed write -/

/-- A crash that leaves every entry, and of each file a number of bytes beyond what was
synced. -/
def Survival.upTo (len : Nat) : Survival := ⟨fun _ => true, fun _ => len⟩

/-- An append that fails after some bytes, with the outcome of its rollback. -/
def tornAppend (written : Nat) (rollback : Bool) : Incident :=
  .append .auditEvent (List.replicate 40 0)
    ⟨true, 0, rotationAt 11, some written, rollback⟩

/-- A fresh root, an append that fails after its frame header, and an append that is
acknowledged. -/
def acknowledgedAfter (rollback : Bool) : List Incident :=
  [.restart defaultConfig (mintAt 10), tornAppend 12 rollback,
    .append .otlpBatch [7] ⟨true, 0, rotationAt 11, none, true⟩, .sync ⟨true, true, true⟩]

theorem acked_survive_rollback :
    ∃ delivered wal,
      restart (fun _ => 0) defaultConfig (mintAt 12) ((Survival.upTo 0).crash
        ((Session.machine fun _ => 0).run Session.initial (acknowledgedAfter true)).1.host.files) =
          (delivered, .ok wal) ∧
      ((Session.machine fun _ => 0).run Session.initial (acknowledgedAfter true)).1.acked.Sublist
        delivered := by
  apply Session.acked_survive
  · decide +kernel
  · decide +kernel

/-- When the rollback fails, the next frame is taken for the rest of the torn one: a
replay cuts it off although it was acknowledged. And a crash that leaves part of the
first header makes every later open fail. -/
theorem acked_lost_without_rollback :
    (Session.machine fun _ => 0).Meets (fun session incident => incident.Ascending session)
        Session.initial (acknowledgedAfter false) ∧
      ¬ ((Session.machine fun _ => 0).run Session.initial
          (acknowledgedAfter false)).1.acked.Sublist
        (restart (fun _ => 0) defaultConfig (mintAt 12) ((Survival.upTo 0).crash
          ((Session.machine fun _ => 0).run Session.initial
            (acknowledgedAfter false)).1.host.files)).1 ∧
      (restart (fun _ => 0) defaultConfig (mintAt 12) ((Survival.upTo 10).crash
        ((Session.machine fun _ => 0).run Session.initial
          [.restart defaultConfig (mintAt 10)]).1.host.files)).2.isOk = false := by
  decide +kernel

end Ourios
