/-
# What the operations of the writer can do

The files of a root under a change to one of them, a rule for rotations and the cases
of an append and of a sync. A property of the writer is carried through the
operations by these and not by unfolding them again.
-/

import Ourios.Wal.Writer

namespace Ourios

open Ourios.Foundation

/-! ### Files of a root -/

section Files

variable {files : List SegmentFile} {uuid : Uuid} {change : SegmentFile → SegmentFile}

variable {file : SegmentFile}

theorem mem_modifyFile (h : file ∈ modifyFile files uuid change) :
    ∃ old ∈ files, file = if old.uuid = uuid then change old else old := by
  obtain ⟨old, hold, rfl⟩ := List.mem_map.mp h
  exact ⟨old, hold, rfl⟩

theorem map_uuid_modifyFile (hchange : ∀ file, (change file).uuid = file.uuid) :
    (modifyFile files uuid change).map SegmentFile.uuid = files.map SegmentFile.uuid := by
  rw [modifyFile, List.map_map]
  apply List.map_congr_left
  intro file _
  by_cases h : file.uuid = uuid
  · simp [h, hchange]
  · simp [h]

/-- A file name that no other file has is where its change lands. -/
theorem modifyFile_append_singleton (hother : ∀ other ∈ files, other.uuid ≠ file.uuid) :
    modifyFile (files ++ [file]) file.uuid change = files ++ [change file] := by
  have hsame : ∀ other ∈ files,
      (if other.uuid = file.uuid then change other else other) = other := by
    intro other hmem
    rw [if_neg (hother other hmem)]
  rw [modifyFile, List.map_append, List.map_congr_left hsame]
  simp

theorem fileAt_append_singleton (hother : ∀ other ∈ files, other.uuid ≠ file.uuid) :
    fileAt (files ++ [file]) file.uuid = some file := by
  have hnone : files.find? (fun other => other.uuid = file.uuid) = none := by
    rw [List.find?_eq_none]
    intro other hmem
    simpa using hother other hmem
  rw [fileAt, List.find?_append, hnone]
  simp

/-- Names in ascending order are already listed. -/
theorem listSegments_of_pairwise (h : (files.map SegmentFile.uuid).Pairwise (· < ·)) :
    listSegments files = files := by
  apply List.Pairwise.insertionSort_eq
  rw [List.pairwise_map] at h
  exact h.imp le_of_lt

end Files

theorem lt_last_of_pairwise {closed : List SegmentFile} {file other : SegmentFile}
    (h : ((closed ++ [file]).map SegmentFile.uuid).Pairwise (· < ·)) (hmem : other ∈ closed) :
    other.uuid < file.uuid := by
  rw [List.map_append, List.pairwise_append] at h
  exact h.2.2 _ (List.mem_map_of_mem hmem) _ (by simp)

/-! ### The current segment -/

variable (wal : Wal)

namespace Wal

@[simp] theorem map_uuid_write (bytes : List UInt8) :
    (wal.write bytes).files.map SegmentFile.uuid = wal.files.map SegmentFile.uuid :=
  map_uuid_modifyFile fun file => by rfl

@[simp] theorem map_uuid_setLen (len : Nat) :
    (wal.setLen len).files.map SegmentFile.uuid = wal.files.map SegmentFile.uuid :=
  map_uuid_modifyFile fun file => by rfl

@[simp] theorem map_uuid_syncSegmentData :
    wal.syncSegmentData.files.map SegmentFile.uuid = wal.files.map SegmentFile.uuid :=
  map_uuid_modifyFile fun file => by rfl

@[simp] theorem map_uuid_syncParentDir :
    wal.syncParentDir.files.map SegmentFile.uuid = wal.files.map SegmentFile.uuid := by
  rw [syncParentDir, List.map_map]
  rfl

/-- The segment a writer appends to: the last file of its root, above all others. -/
structure Current (wal : Wal) (closed : List SegmentFile) (file : SegmentFile) : Prop where
  files : wal.files = closed ++ [file]
  path : file.uuid = wal.currentSegmentPath
  uuid : file.uuid = wal.currentSegmentUuid
  below : ∀ other ∈ closed, other.uuid < file.uuid

namespace Current

variable {wal : Wal} {closed : List SegmentFile} {file : SegmentFile}

variable (h : wal.Current closed file)
include h

theorem currentLen_eq : wal.currentLen = file.bytes.length := by
  rw [Wal.currentLen, h.files, ← h.path,
    fileAt_append_singleton fun other hmem => (h.below other hmem).ne]
  rfl

/-- A change of the current file lands on it alone. -/
theorem modifyFile_eq (change : SegmentFile → SegmentFile) :
    modifyFile wal.files wal.currentSegmentPath change = closed ++ [change file] := by
  rw [h.files, ← h.path, modifyFile_append_singleton fun other hmem => (h.below other hmem).ne]

/-- Only the files and the choice of the current one matter. -/
theorem of_eq {next : Wal} (hfiles : next.files = wal.files)
    (hpath : next.currentSegmentPath = wal.currentSegmentPath)
    (huuid : next.currentSegmentUuid = wal.currentSegmentUuid) : next.Current closed file :=
  ⟨hfiles.trans h.files, h.path.trans hpath.symm, h.uuid.trans huuid.symm, h.below⟩

theorem write (bytes : List UInt8) :
    (wal.write bytes).Current closed { file with bytes := file.bytes ++ bytes } :=
  ⟨h.modifyFile_eq _, h.path, h.uuid, h.below⟩

theorem syncSegmentData :
    wal.syncSegmentData.Current closed { file with synced := file.bytes.length } :=
  ⟨h.modifyFile_eq _, h.path, h.uuid, h.below⟩

theorem setLen (len : Nat) : (wal.setLen len).Current closed
      { file with bytes := file.bytes.take len, synced := min file.synced len } :=
  ⟨h.modifyFile_eq _, h.path, h.uuid, h.below⟩

theorem syncParentDir :
    wal.syncParentDir.Current (closed.map fun other => { other with listed := true })
      { file with listed := true } := by
  refine ⟨?_, h.path, h.uuid, ?_⟩
  · rw [Wal.syncParentDir, h.files, List.map_append]
    rfl
  · intro other hmem
    obtain ⟨old, hold, rfl⟩ := List.mem_map.mp hmem
    exact h.below old hold

/-- A failed write that is rolled back leaves the bytes as they were. -/
theorem rollback (bytes : List UInt8) : ((wal.write bytes).setLen wal.currentLen).Current closed
      { file with synced := min file.synced file.bytes.length } := by
  have htorn := (h.write bytes).setLen wal.currentLen
  rw [h.currentLen_eq] at htorn ⊢
  rw [List.take_append_of_le_length (le_refl _), List.take_length] at htorn
  exact htorn

end Current

/-- Renaming a fresh segment above all others into place makes it the current one. -/
theorem current_install {wal : Wal} {uuid : Uuid} (h : ∀ file ∈ wal.files, file.uuid < uuid) :
    (wal.install uuid).Current wal.files (.installed uuid) := by
  have hkeep : wal.files.filter (fun file => file.uuid ≠ uuid) = wal.files := by
    rw [List.filter_eq_self]
    intro file hmem
    simpa using (h file hmem).ne
  exact ⟨by rw [install, hkeep], rfl, rfl, h⟩

/-! ### Rotation as a rule -/

/-- The current segment holds nothing a data sync has not covered. -/
def Closed : Prop :=
  ∀ file ∈ wal.files, file.uuid = wal.currentSegmentPath → file.synced = file.bytes.length

/-- A writer with one more failed rotation attempt charged. -/
def charged (site : RotationSite) : Wal :=
  { wal with rotation := (wal.rotation.charge site wal.config.rotationRetryAttempts).2 }

theorem rotationFailed_fst (site : RotationSite) (value : Unit) :
    (wal.rotationFailed site).1 ≠ .ok value := by
  simp [rotationFailed]

theorem closed_syncSegmentData : wal.syncSegmentData.Closed := by
  intro file hmem hpath
  obtain ⟨old, _, rfl⟩ := mem_modifyFile hmem
  by_cases h : old.uuid = wal.currentSegmentPath
  · simp [h]
  · rw [if_neg h] at hpath
    exact absurd hpath h

theorem currentLen_dischargedFsync : wal.dischargedFsync.currentLen = wal.currentLen := by
  rw [currentLen, currentLen, dischargedFsync, syncParentDir, fileAt, fileAt,
    List.find?_map, Option.map_map]
  rfl

/-- What a rotation can do: up to the rename it keeps what charging, syncing and
minting keep, the rename takes a closed segment with the mint made to the state
after, and that state only sees the directory fsync. -/
structure RotationRule (io : RotationIo) (before after : Wal → Prop) : Prop where
  charge_before : ∀ wal site, before wal → before (wal.charged site)
  charge_after : ∀ wal site, after wal → after (wal.charged site)
  discharge_before : ∀ wal, before wal → before wal.dischargedFsync
  discharge_after : ∀ wal, after wal → after wal.dischargedFsync
  close : ∀ wal, before wal → before wal.syncSegmentData
  mint : ∀ wal, before wal → before { wal with minted := some io.fresh }
  install : ∀ wal, before wal → wal.Closed → wal.minted = some io.fresh →
    after (wal.install io.fresh.uuid)

section Rule

variable {io : RotationIo} {before after : Wal → Prop} {wal : Wal}

theorem dischargeOwedRotationFsync_rule (rule : RotationRule io before after) (owedFsync : Bool)
    (h : before wal) : before (wal.dischargeOwedRotationFsync owedFsync).2 := by
  unfold dischargeOwedRotationFsync
  split
  · exact h
  split
  · exact rule.charge_before _ _ h
  · exact rule.discharge_before _ h

theorem rotateClosed_rule (rule : RotationRule io before after) (h : before wal)
    (hclosed : wal.Closed) :
    (before (wal.rotateClosed io).2 ∨ after (wal.rotateClosed io).2) ∧
      ((wal.rotateClosed io).1 = .ok () → after (wal.rotateClosed io).2) := by
  have hminted := rule.mint _ h
  have hinstalled := rule.install _ hminted hclosed rfl
  unfold rotateClosed
  split
  · exact ⟨.inl h, by simp⟩
  split
  · exact ⟨.inl (rule.charge_before _ _ hminted), fun hok => absurd hok (rotationFailed_fst _ _ _)⟩
  split
  · exact ⟨.inl (rule.charge_before _ _ hminted), fun hok => absurd hok (rotationFailed_fst _ _ _)⟩
  split
  · exact ⟨.inl (rule.charge_before _ _ hminted), fun hok => absurd hok (rotationFailed_fst _ _ _)⟩
  split
  · exact ⟨.inr (rule.charge_after _ _ hinstalled),
      fun hok => absurd hok (rotationFailed_fst _ _ _)⟩
  · exact ⟨.inr (rule.discharge_after _ hinstalled), fun _ => rule.discharge_after _ hinstalled⟩

/-- A rotation ends before or after its rename, and after it when it succeeds. -/
theorem rotateNow_rule (rule : RotationRule io before after) (h : before wal) :
    (before (wal.rotateNow io).2 ∨ after (wal.rotateNow io).2) ∧
      ((wal.rotateNow io).1 = .ok () → after (wal.rotateNow io).2) := by
  have hdischarged := dischargeOwedRotationFsync_rule rule io.owedFsync h
  unfold rotateNow
  split
  case h_1 error next heq =>
    rw [heq] at hdischarged
    exact ⟨.inl hdischarged, by simp⟩
  case h_2 next heq =>
    rw [heq] at hdischarged
    split
    · exact ⟨.inl (rule.charge_before _ _ hdischarged),
        fun hok => absurd hok (rotationFailed_fst _ _ _)⟩
    · exact rotateClosed_rule rule (rule.close _ hdischarged) (closed_syncSegmentData _)

/-- The callable rotation ends before or after its rename. -/
theorem rotate_rule (rule : RotationRule io before after) (kind : RotationKind) (stat : Bool)
    (h : before wal) :
    before (wal.rotate kind stat io).2 ∨ after (wal.rotate kind stat io).2 := by
  have hdischarged := dischargeOwedRotationFsync_rule rule io.owedFsync h
  unfold rotate
  split
  · exact .inl h
  split
  case h_1 error next heq =>
    rw [heq] at hdischarged
    exact .inl hdischarged
  case h_2 next heq =>
    rw [heq] at hdischarged
    split
    · split
      · exact .inl hdischarged
      split
      · exact (rotateNow_rule rule hdischarged).1
      · exact .inl hdischarged
    · exact (rotateNow_rule rule hdischarged).1

end Rule

/-- What an append can do: nothing, a failed rotation, or a write on the writer as it
is or as a successful rotation left it. -/
theorem append_cases (crc : Crc) (wal : Wal) (kind : FrameKind) (payload : List UInt8)
    (io : AppendIo) :
    (∃ error, wal.append crc kind payload io = (.error error, wal)) ∨
      (∃ error, wal.append crc kind payload io = (.error error, (wal.rotateNow io.rotation).2)) ∨
      payload.length ≤ maxFrameBytes ∧
        (wal.append crc kind payload io = writeAt crc wal wal.currentLen kind payload io ∨
          (wal.rotateNow io.rotation).1 = .ok () ∧
            wal.append crc kind payload io =
              writeAt crc (wal.rotateNow io.rotation).2 segmentHeaderLen kind payload io) := by
  unfold append
  split
  · exact .inl ⟨_, rfl⟩
  split
  · exact .inl ⟨_, rfl⟩
  rename_i hfits
  split
  · exact .inl ⟨_, rfl⟩
  split
  · split
    case h_1 error next heq =>
      exact .inr (.inl ⟨error, by rw [heq]⟩)
    case h_2 next heq =>
      exact .inr (.inr ⟨Nat.not_lt.mp hfits, .inr (by rw [heq]; exact ⟨rfl, rfl⟩)⟩)
  · exact .inr (.inr ⟨Nat.not_lt.mp hfits, .inl rfl⟩)

/-- A write that lands returns its end in the segment it landed in. -/
theorem append_eq_ok {crc : Crc} {wal next : Wal} {kind : FrameKind} {payload : List UInt8}
    {io : AppendIo} {offset : WalOffset}
    (h : wal.append crc kind payload io = (.ok offset, next)) :
    io.write = none ∧ offset.segment = next.currentSegmentUuid := by
  have hwrite : ∀ (target : Wal) (len : Nat),
      writeAt crc target len kind payload io = (.ok offset, next) →
        io.write = none ∧ offset.segment = next.currentSegmentUuid := by
    intro target len heq
    unfold writeAt at heq
    split at heq
    · rename_i hnone
      cases heq
      exact ⟨hnone, rfl⟩
    · cases heq
  rcases wal.append_cases crc kind payload io with
    ⟨error, heq⟩ | ⟨error, heq⟩ | ⟨_, heq | ⟨_, heq⟩⟩
  · rw [heq] at h
    cases h
  · rw [heq] at h
    cases h
  · rw [heq] at h
    exact hwrite _ _ h
  · rw [heq] at h
    exact hwrite _ _ h

section Found

/-- What the process found on the root is never changed. -/
theorem foundRule (found : List Uuid) (io : RotationIo) :
    RotationRule io (fun wal => wal.found = found) (fun wal => wal.found = found) where
  charge_before _ _ h := h
  charge_after _ _ h := h
  discharge_before _ h := h
  discharge_after _ h := h
  close _ h := h
  mint _ h := h
  install _ h _ _ := h

theorem found_rotate (kind : RotationKind) (stat : Bool) (io : RotationIo) :
    (wal.rotate kind stat io).2.found = wal.found :=
  (rotate_rule (foundRule wal.found io) kind stat rfl).elim id id

theorem found_writeAt (crc : Crc) (wal : Wal) (len : Nat) (kind : FrameKind)
    (payload : List UInt8) (io : AppendIo) :
    (writeAt crc wal len kind payload io).2.found = wal.found := by
  unfold writeAt
  split
  · rfl
  · split <;> rfl

theorem found_append (crc : Crc) (wal : Wal) (kind : FrameKind) (payload : List UInt8)
    (io : AppendIo) : (wal.append crc kind payload io).2.found = wal.found := by
  have hrotated : (wal.rotateNow io.rotation).2.found = wal.found :=
    (rotateNow_rule (foundRule wal.found io.rotation) rfl).1.elim id id
  rcases wal.append_cases crc kind payload io with
    ⟨error, heq⟩ | ⟨error, heq⟩ | ⟨_, heq | ⟨_, heq⟩⟩
  · rw [heq]
  · rw [heq]
    exact hrotated
  · rw [heq, found_writeAt]
  · rw [heq, found_writeAt, hrotated]

end Found

theorem dischargeDirFsync_cases (dir : Bool) :
    (∃ error, wal.dischargeDirFsync dir = (.error error, wal)) ∨
      (∃ error, wal.dischargeDirFsync dir = (.error error, wal.charged .parentFsync)) ∨
      (wal.dirFsync = .clean ∧ wal.dischargeDirFsync dir = (.ok (), wal)) ∨
      wal.dischargeDirFsync dir = (.ok (), { wal.syncParentDir with dirFsync := .clean }) ∨
      wal.dischargeDirFsync dir = (.ok (), wal.dischargedFsync) := by
  unfold dischargeDirFsync
  split
  case h_1 hclean => exact .inr (.inr (.inl ⟨hclean, rfl⟩))
  case h_2 =>
    split
    · exact .inl ⟨_, rfl⟩
    · exact .inr (.inr (.inr (.inl rfl)))
  case h_3 =>
    split
    · exact .inr (.inl ⟨_, rfl⟩)
    · exact .inr (.inr (.inr (.inr rfl)))

/-- What a sync can do: nothing, a data sync with the directory fsync refused or
charged, or a data sync with every obligation met. -/
theorem sync_cases (io : SyncIo) : (∃ error, wal.sync io = (.error error, wal)) ∨
      (∃ error, wal.sync io = (.error error, wal.syncSegmentData)) ∨
      (∃ error, wal.sync io = (.error error, wal.syncSegmentData.charged .parentFsync)) ∨
      ∃ next : Wal,
        (wal.syncSegmentData.dirFsync = .clean ∧ next = wal.syncSegmentData ∨
          next = { wal.syncSegmentData.syncParentDir with dirFsync := .clean } ∨
          next = wal.syncSegmentData.dischargedFsync) ∧
        ((∃ error, wal.sync io = (.error error, next)) ∨
          wal.sync io = (.ok ⟨next.currentSegmentUuid, next.currentLen⟩, next)) := by
  have hstat : ∀ next : Wal, wal.syncSegmentData.dischargeDirFsync io.dir = (.ok (), next) →
      io.data = true → (∀ fault, wal.rotation.terminal? = some fault →
        wal.dirFsync ≠ .pendingRotation) →
      (∃ error, wal.sync io = (.error error, next)) ∨
        wal.sync io = (.ok ⟨next.currentSegmentUuid, next.currentLen⟩, next) := by
    intro next hnext hdata hterminal
    unfold sync
    split
    case h_1 fault hfault hpending => exact absurd hpending (hterminal fault hfault)
    case h_2 =>
      rw [hdata, hnext]
      by_cases hstat : io.stat = true
      · exact .inr (by simp [hstat])
      · exact .inl ⟨.io "stat(current_segment)", by simp [hstat]⟩
  by_cases hterminal : ∀ fault, wal.rotation.terminal? = some fault →
      wal.dirFsync ≠ .pendingRotation
  · by_cases hdata : io.data = true
    · have herror : ∀ error next,
          wal.syncSegmentData.dischargeDirFsync io.dir = (.error error, next) →
            wal.sync io = (.error error, next) := by
        intro error next hnext
        unfold sync
        split
        case h_1 fault hfault hpending => exact absurd hpending (hterminal fault hfault)
        case h_2 => simp [hdata, hnext]
      rcases dischargeDirFsync_cases wal.syncSegmentData io.dir with
        ⟨error, h⟩ | ⟨error, h⟩ | ⟨hclean, h⟩ | h | h
      · exact .inr (.inl ⟨error, herror error _ h⟩)
      · exact .inr (.inr (.inl ⟨error, herror error _ h⟩))
      · exact .inr (.inr (.inr ⟨_, .inl ⟨hclean, rfl⟩, hstat _ h hdata hterminal⟩))
      · exact .inr (.inr (.inr ⟨_, .inr (.inl rfl), hstat _ h hdata hterminal⟩))
      · exact .inr (.inr (.inr ⟨_, .inr (.inr rfl), hstat _ h hdata hterminal⟩))
    · refine .inl ⟨.io "sync(current_segment)", ?_⟩
      unfold sync
      split
      case h_1 fault hfault hpending => exact absurd hpending (hterminal fault hfault)
      case h_2 => simp [hdata]
  · push Not at hterminal
    obtain ⟨fault, hfault, hpending⟩ := hterminal
    refine .inl ⟨.rotationTerminal fault, ?_⟩
    unfold sync
    rw [hfault, hpending]

end Wal

end Ourios
