/-
# Reconciling a root at open

What the checkpoint sidecar, the reclamation record and the segment headers together say
about a root, and what open writes before it goes on. A missing file means that nothing
was reclaimed and a damaged one that the extent is unknown, so every row of the matrix
that cannot be told from a loss is refused.

The writes of open succeed here: where one fails there is no open log. Whatever the files
hold, a record that open goes on with can be written again, is wide enough for the
configured capacities and has no planned row.
-/

import Ourios.Wal.ReclaimAccepts

namespace Ourios.Housekeeping

open Ourios.Foundation Ourios.Reclaim

/-! ## The matrix -/

def defaultMaxTenants : ℕ := 1024

/-- The geometry of every record file created for a cap on unlinks. -/
def geometry (maxUnlinksPerPass : ℕ) : Except GeometryError Geometry :=
  Geometry.new defaultMaxTenants maxUnlinksPerPass

inductive SidecarVersion
  | legacy
  | current
  deriving DecidableEq

structure Sidecar where
  offset : WalOffset
  version : SidecarVersion
  deriving DecidableEq

/-- Whether a pass may plan segments: no witness yet, a checkpoint whose directory entry
is not durable yet, or all of it on disk. -/
inductive ReclaimGate
  | unwitnessed
  | fsyncPending
  | opened
  deriving DecidableEq

/-- A segment file of the root, with its header where it can be read. -/
structure SegmentFound where
  path : Text
  header : Option SegmentHeader

/-- Why a root is not opened. -/
inductive OpenError
  | invalidConfig (error : GeometryError)
  | store (error : StoreError)
  | segmentHeader (path : Text)
  | plannedNames (segment : Uuid) (error : NotLive)
  | lostRecord
  | lostCheckpoint
  | lostSidecars (segment : Text)
  deriving DecidableEq

/-- What the matrix decided about a root. -/
structure RootWitness where
  store : Option ReclaimStore
  gate : ReclaimGate
  legacy : Bool

variable (crc : Crc) (store : ReclaimStore)

namespace RootWitness

/-- A root older than the record, which its first checkpoint will create. -/
def ofLegacy : RootWitness := ⟨none, .unwitnessed, true⟩

/-- A root whose record is there and whose checkpoint is not. -/
def withRecord (legacy : Bool) : RootWitness :=
  ⟨some store, .unwitnessed, legacy⟩

def witnessed : RootWitness := ⟨some store, .opened, false⟩

end RootWitness

/-- A record with its checkpoint witness moved and nothing else. -/
def withCheckpoint (record : ReclaimRecord) (checkpoint : Witness) : ReclaimRecord :=
  { record with witness := { record.witness with checkpoint } }

/-- The record proves that a checkpoint of the current version existed. -/
def provesACheckpoint (record : ReclaimRecord) : Bool :=
  record.witness.checkpoint = .terminal || record.planned ≠ [] ||
    record.dictionary.iter.any fun (_, held) => held.isOccupied

def promoteCheckpointWitness : Except StoreError ReclaimStore :=
  if store.record.witness.checkpoint = .terminal then .ok store
  else store.commit crc (withCheckpoint store.record .terminal)

/-- The empty record of a root without segments. What the record says of seeding stays. -/
def resetRecord : Except StoreError ReclaimStore :=
  let empty : ReclaimRecord :=
    { witness := { store.record.witness with checkpoint := .unarmed } }
  if store.record = empty then .ok store else store.commit crc empty

/-- The mode entries are written under beside a recorded mode. -/
def entryMode? : RecordedMode → Option EntryMode
  | .known => some .known
  | .noConsumer => some .noConsumer
  | .unrecorded => none

/-- Raise the proof of loss of every tenant a planned segment names. -/
def raiseReclaimed (mode : EntryMode) (record : ReclaimRecord) (planned : PlannedUnlink) :
    Except NotLive ReclaimRecord :=
  planned.lastOffsets.entries.foldlM
    (fun record (id, offset) =>
      (record.dictionary.raiseReclaimed id ⟨mode, offset⟩).map fun dictionary =>
        { record with dictionary })
    record

/-- The identities of the surviving segments, from their headers. One that cannot be read
fails the whole reconciliation. -/
def survivingSegments (segments : List SegmentFound) : Except OpenError (List Uuid) :=
  segments.mapM fun segment =>
    match segment.header with
    | none => .error (.segmentHeader segment.path)
    | some header => .ok header.segmentUuid

/-- Resolve the planned rows: a segment that is gone was reclaimed, one that is there is
planned again by a later pass, and neither keeps its row. -/
def planned (crc : Crc) (store : ReclaimStore) (segments : List SegmentFound) :
    Except OpenError ReclaimStore :=
  if store.record.planned = [] then .ok store
  else
    match entryMode? store.record.consumerMode with
    | none => .ok store
    | some mode => do
      let surviving ← survivingSegments segments
      let gone := store.record.planned.filter fun row => row.segment ∉ surviving
      let record ← gone.foldlM
        (fun record row =>
          (raiseReclaimed mode record row).mapError (.plannedNames row.segment))
        { store.record with planned := [] }
      (store.commit crc record).mapError .store

def segmentWithVersion (segments : List SegmentFound) (wanted : ℕ → Bool) :
    Option SegmentFound :=
  segments.find? fun segment =>
    match segment.header with
    | none => false
    | some header => wanted header.version

def postRfcSegment (segments : List SegmentFound) : Option SegmentFound :=
  segmentWithVersion segments fun version => version = segmentVersion

def preRfcSegment (segments : List SegmentFound) : Option SegmentFound :=
  segmentWithVersion segments fun version => version < segmentVersion

/-- The rows of the matrix where the record is there. -/
def recordedRoot (maxUnlinksPerPass : ℕ) (version : Option SidecarVersion)
    (file : List UInt8) (segments : List SegmentFound) : Except OpenError RootWitness := do
  let needed ← (geometry maxUnlinksPerPass).mapError .invalidConfig
  let store ← (ReclaimStore.openStore crc file needed).mapError .store
  match version, provesACheckpoint store.record with
  | some .current, _ =>
    let promoted ← (promoteCheckpointWitness crc store).mapError .store
    let reconciled ← planned crc promoted segments
    return .witnessed reconciled
  | some .legacy, _ =>
    let reconciled ← planned crc store segments
    return .withRecord reconciled true
  | none, true => .error .lostCheckpoint
  | none, false =>
    if segments = [] then do
      let reset ← (resetRecord crc store).mapError .store
      return .withRecord reset false
    else do
      let reconciled ← planned crc store segments
      return .withRecord reconciled (preRfcSegment segments).isSome

/-- The rows of the matrix where neither sidecar is there. -/
def openWithoutSidecars (maxUnlinksPerPass : ℕ) (segments : List SegmentFound) :
    Except OpenError RootWitness :=
  match postRfcSegment segments with
  | some segment => .error (.lostSidecars segment.path)
  | none =>
    if segments = [] then do
      let geometry ← (geometry maxUnlinksPerPass).mapError .invalidConfig
      let store ← (ReclaimStore.create crc geometry {}).mapError .store
      return .withRecord store false
    else .ok .ofLegacy

/-- The matrix over the version of the checkpoint, the record and the segment headers. -/
def root (maxUnlinksPerPass : ℕ) (sidecar : Option Sidecar)
    (record : Option (List UInt8)) (segments : List SegmentFound) :
    Except OpenError RootWitness :=
  let version := sidecar.map Sidecar.version
  match record with
  | some file => recordedRoot crc maxUnlinksPerPass version file segments
  | none =>
    match version with
    | some .current => .error .lostRecord
    | some .legacy => .ok .ofLegacy
    | none => openWithoutSidecars crc maxUnlinksPerPass segments

/-! ## The record of a running process -/

/-- The record a root has none of yet, as rotation and the first checkpoint create it. -/
def armedRecord : ReclaimRecord := withCheckpoint {} .armed

def ensureRecord (maxUnlinksPerPass : ℕ) : Option ReclaimStore → Except StoreError ReclaimStore
  | some store => .ok store
  | none =>
    match geometry maxUnlinksPerPass with
    | .error error => .error (.sizing error)
    | .ok geometry => ReclaimStore.create crc geometry armedRecord

/-- Before the first checkpoint of the current version is attempted. -/
def arm (maxUnlinksPerPass : ℕ) : Option ReclaimStore → Except StoreError ReclaimStore
  | some store =>
    if store.record.witness.checkpoint = .unarmed then
      store.commit crc (withCheckpoint store.record .armed)
    else .ok store
  | none => ensureRecord crc maxUnlinksPerPass none

/-- After a checkpoint of the current version succeeded, as open promotes a record. -/
def witness : Except StoreError ReclaimStore :=
  promoteCheckpointWitness crc store

/-! ## Records that can be written again -/

/-- A record its file can hold, in a file wide enough for the configured capacities. -/
structure Writable (maxUnlinksPerPass : ℕ) (store : ReclaimStore) : Prop where
  fits : store.record.Fits store.geometry
  tenants : defaultMaxTenants ≤ store.geometry.maxTenants
  unlinks : maxUnlinksPerPass ≤ store.geometry.maxUnlinksPerPass

section Writable

variable {crc : Crc} {maxUnlinksPerPass : ℕ} {store next : ReclaimStore} {record : ReclaimRecord}

theorem commit_ok (h : store.commit crc record = .ok next) :
    next.geometry = store.geometry ∧ next.record = record := by
  unfold ReclaimStore.commit at h
  split at h
  · cases h
  · cases h
    exact ⟨rfl, rfl⟩

theorem Writable.commit (h : Writable maxUnlinksPerPass store)
    (hfits : record.Fits store.geometry) (hcommit : store.commit crc record = .ok next) :
    Writable maxUnlinksPerPass next ∧ next.record = record := by
  obtain ⟨hgeometry, hrecord⟩ := commit_ok hcommit
  refine ⟨⟨?_, ?_, ?_⟩, hrecord⟩
  · rw [hgeometry, hrecord]
    exact hfits
  · rw [hgeometry]
    exact h.tenants
  · rw [hgeometry]
    exact h.unlinks

variable {g : Geometry} {mode : EntryMode} {segments : List SegmentFound}

theorem fits_withCheckpoint (h : record.Fits g) (checkpoint : Witness) :
    (withCheckpoint record checkpoint).Fits g := by
  let edit : Edit := .setWitness { record.witness with checkpoint }
  have hedited : (edit.apply g record).Fits g := h.apply trivial
  exact hedited

theorem Writable.promote (h : Writable maxUnlinksPerPass store)
    (hpromote : promoteCheckpointWitness crc store = .ok next) :
    Writable maxUnlinksPerPass next ∧ next.record.planned = store.record.planned := by
  unfold promoteCheckpointWitness at hpromote
  split at hpromote
  · cases hpromote
    exact ⟨h, rfl⟩
  · obtain ⟨hnext, hrecord⟩ := h.commit (fits_withCheckpoint h.fits .terminal) hpromote
    rw [hrecord]
    exact ⟨hnext, rfl⟩

theorem fits_reset (g : Geometry) (witness : WitnessFlags) :
    ReclaimRecord.Fits g { witness } := by
  have hedited : ((Edit.setWitness witness).apply g {}).Fits g := (fits_empty g).apply trivial
  exact hedited

theorem Writable.reset (h : Writable maxUnlinksPerPass store)
    (hreset : resetRecord crc store = .ok next) :
    Writable maxUnlinksPerPass next ∧ next.record.planned = [] := by
  unfold resetRecord at hreset
  dsimp only at hreset
  split at hreset
  · rename_i hempty
    cases hreset
    refine ⟨h, ?_⟩
    rw [hempty]
  · obtain ⟨hnext, hrecord⟩ := h.commit (fits_reset _ _) hreset
    rw [hrecord]
    exact ⟨hnext, rfl⟩

theorem admits_of_entryMode {recorded : RecordedMode} (h : entryMode? recorded = some mode) :
    recorded.admits mode = true := by
  cases recorded with
  | unrecorded => cases h
  | known | noConsumer =>
    cases h
    rfl

/-- Raising the tenants of a row keeps a record writable and leaves its rows alone. -/
theorem raiseReclaimed_ok {row : PlannedUnlink} {raised : ReclaimRecord} (hfits : record.Fits g)
    (hmode : entryMode? record.consumerMode = some mode)
    (hoffsets : ∀ pair ∈ row.lastOffsets.entries, pair.2.byte < 2 ^ 64)
    (h : raiseReclaimed mode record row = .ok raised) :
    raised.Fits g ∧ raised.consumerMode = record.consumerMode ∧
      raised.planned = record.planned ∧ raised.witness = record.witness := by
  unfold raiseReclaimed at h
  generalize row.lastOffsets.entries = entries at h hoffsets
  induction entries generalizing record with
  | nil =>
    cases h
    exact ⟨hfits, rfl, rfl, rfl⟩
  | cons pair entries ih =>
    obtain ⟨id, offset⟩ := pair
    obtain ⟨first, hfirst, hrest⟩ := bind_eq_ok_iff.mp h
    have hraise : ((Edit.raise id ⟨mode, offset⟩).apply g record).Fits g :=
      hfits.raise ⟨admits_of_entryMode hmode, hoffsets (id, offset) List.mem_cons_self⟩
    dsimp only at hfirst
    cases hdictionary : record.dictionary.raiseReclaimed id ⟨mode, offset⟩ with
    | error error =>
      rw [hdictionary] at hfirst
      cases hfirst
    | ok dictionary =>
      rw [hdictionary] at hfirst
      cases hfirst
      unfold Edit.apply at hraise
      dsimp only at hraise
      rw [hdictionary] at hraise
      have hnext := ih hraise hmode hrest fun other hother =>
        hoffsets other (List.mem_cons_of_mem _ hother)
      exact hnext

/-- Raising the tenants of rows one after another. -/
theorem foldlM_raiseReclaimed_ok {rows : List PlannedUnlink} {raised : ReclaimRecord}
    (hfits : record.Fits g) (hmode : entryMode? record.consumerMode = some mode)
    (hoffsets : ∀ row ∈ rows, ∀ pair ∈ row.lastOffsets.entries, pair.2.byte < 2 ^ 64)
    (h : rows.foldlM (fun record row => (raiseReclaimed mode record row).mapError
      (OpenError.plannedNames row.segment)) record = .ok raised) :
    raised.Fits g ∧ raised.planned = record.planned := by
  induction rows generalizing record with
  | nil =>
    cases h
    exact ⟨hfits, rfl⟩
  | cons row rows ih =>
    obtain ⟨first, hfirst, hrest⟩ := bind_eq_ok_iff.mp h
    obtain ⟨hfirstFits, hfirstMode, hfirstPlanned, -⟩ := raiseReclaimed_ok hfits hmode
      (hoffsets row List.mem_cons_self) (mapError_eq_ok_iff.mp hfirst)
    rw [← hfirstPlanned]
    apply ih hfirstFits
    · rw [hfirstMode]
      exact hmode
    · exact fun other hother => hoffsets other (List.mem_cons_of_mem _ hother)
    · exact hrest

/-- Once the planned rows are resolved there are none. -/
theorem Writable.planned (h : Writable maxUnlinksPerPass store)
    (hplanned : Housekeeping.planned crc store segments = .ok next) :
    Writable maxUnlinksPerPass next ∧ next.record.planned = [] := by
  unfold Housekeeping.planned at hplanned
  split at hplanned
  · rename_i hempty
    cases hplanned
    exact ⟨h, hempty⟩
  rename_i hrows
  split at hplanned
  · -- a record that was decoded has a mode beside its rows
    rename_i hnone
    have hunrecorded : store.record.consumerMode = .unrecorded := by
      cases hmode : store.record.consumerMode with
      | unrecorded => rfl
      | known | noConsumer =>
        rw [hmode] at hnone
        cases hnone
    exact absurd hunrecorded (h.fits.mode hrows)
  · rename_i mode hmode
    obtain ⟨surviving, -, hrest⟩ := bind_eq_ok_iff.mp hplanned
    obtain ⟨record, hrecord, hcommit⟩ := bind_eq_ok_iff.mp hrest
    have hcleared : ReclaimRecord.Fits store.geometry { store.record with planned := [] } :=
      ⟨h.fits.tenants, h.fits.keys, h.fits.entries, h.fits.distinct, Nat.zero_le _,
        fun hne => absurd rfl hne, fun _ hmem => absurd hmem List.not_mem_nil,
        fun _ hmem => absurd hmem List.not_mem_nil⟩
    have hoffsets : ∀ row ∈ store.record.planned.filter (fun row => row.segment ∉ surviving),
        ∀ pair ∈ row.lastOffsets.entries, pair.2.byte < 2 ^ 64 := by
      intro row hrow pair hpair
      exact (h.fits.pairs row (List.mem_of_mem_filter hrow) pair hpair).2.2
    obtain ⟨hfits, hnil⟩ := foldlM_raiseReclaimed_ok hcleared hmode hoffsets hrecord
    obtain ⟨hnext, hsame⟩ := h.commit hfits (mapError_eq_ok_iff.mp hcommit)
    rw [hsame]
    exact ⟨hnext, hnil⟩

theorem Writable.openStore {needed : Geometry} {file : List UInt8}
    (hneeded : geometry maxUnlinksPerPass = .ok needed)
    (h : ReclaimStore.openStore crc file needed = .ok store) :
    Writable maxUnlinksPerPass store := by
  obtain ⟨hfits, -, hcovers⟩ := ReclaimStore.openStore_fits h
  obtain ⟨htenants, hunlinks⟩ := Geometry.of_new hneeded
  obtain ⟨hwide, hlong⟩ := Bool.and_eq_true_iff.mp hcovers
  refine ⟨hfits, ?_, ?_⟩
  · rw [← htenants]
    exact of_decide_eq_true hwide
  · rw [← hunlinks]
    exact of_decide_eq_true hlong

theorem Writable.create (hg : geometry maxUnlinksPerPass = .ok g) (hfits : record.Fits g)
    (h : ReclaimStore.create crc g record = .ok store) :
    Writable maxUnlinksPerPass store ∧ store.record = record := by
  obtain ⟨htenants, hunlinks⟩ := Geometry.of_new hg
  unfold ReclaimStore.create at h
  split at h
  · cases h
  · cases h
    exact ⟨⟨hfits, Nat.le_of_eq htenants.symm, Nat.le_of_eq hunlinks.symm⟩, rfl⟩

theorem Writable.recordedRoot {version : Option SidecarVersion} {file : List UInt8}
    {found : RootWitness}
    (h : Housekeeping.recordedRoot crc maxUnlinksPerPass version file segments = .ok found)
    (hstore : found.store = some store) :
    Writable maxUnlinksPerPass store ∧ store.record.planned = [] := by
  obtain ⟨needed, hneeded, hopen⟩ := bind_eq_ok_iff.mp h
  obtain ⟨opened, hopened, hmatrix⟩ := bind_eq_ok_iff.mp hopen
  have hwritable : Writable maxUnlinksPerPass opened :=
    .openStore (mapError_eq_ok_iff.mp hneeded) (mapError_eq_ok_iff.mp hopened)
  split at hmatrix
  · obtain ⟨promoted, hpromoted, hplan⟩ := bind_eq_ok_iff.mp hmatrix
    obtain ⟨reconciled, hreconciled, hfound⟩ := bind_eq_ok_iff.mp hplan
    cases hfound
    cases hstore
    exact (hwritable.promote (mapError_eq_ok_iff.mp hpromoted)).1.planned hreconciled
  · obtain ⟨reconciled, hreconciled, hfound⟩ := bind_eq_ok_iff.mp hmatrix
    cases hfound
    cases hstore
    exact hwritable.planned hreconciled
  · cases hmatrix
  · split at hmatrix
    · obtain ⟨reset, hreset, hfound⟩ := bind_eq_ok_iff.mp hmatrix
      cases hfound
      cases hstore
      exact hwritable.reset (mapError_eq_ok_iff.mp hreset)
    · obtain ⟨reconciled, hreconciled, hfound⟩ := bind_eq_ok_iff.mp hmatrix
      cases hfound
      cases hstore
      exact hwritable.planned hreconciled

/-- A root is opened with a record that can be written again and has no planned row. -/
theorem Writable.root {sidecar : Option Sidecar} {file : Option (List UInt8)} {found : RootWitness}
    (h : Housekeeping.root crc maxUnlinksPerPass sidecar file segments = .ok found)
    (hstore : found.store = some store) :
    Writable maxUnlinksPerPass store ∧ store.record.planned = [] := by
  unfold Housekeeping.root at h
  dsimp only at h
  split at h
  · exact Writable.recordedRoot h hstore
  · split at h
    · cases h
    · cases h
      cases hstore
    · unfold openWithoutSidecars at h
      split at h
      · cases h
      · split at h
        · obtain ⟨needed, hneeded, hcreate⟩ := bind_eq_ok_iff.mp h
          obtain ⟨created, hcreated, hfound⟩ := bind_eq_ok_iff.mp hcreate
          cases hfound
          cases hstore
          obtain ⟨hwritable, hrecord⟩ := Writable.create (mapError_eq_ok_iff.mp hneeded)
            (fits_empty needed) (mapError_eq_ok_iff.mp hcreated)
          rw [hrecord]
          exact ⟨hwritable, rfl⟩
        · cases h
          cases hstore

theorem Writable.ensure {held : Option ReclaimStore}
    (hheld : ∀ store, held = some store → Writable maxUnlinksPerPass store)
    (h : ensureRecord crc maxUnlinksPerPass held = .ok next) :
    Writable maxUnlinksPerPass next ∧
      next.record.planned = (held.map fun store => store.record.planned).getD [] := by
  cases held with
  | some store =>
    cases h
    exact ⟨hheld _ rfl, rfl⟩
  | none =>
    unfold ensureRecord at h
    dsimp only at h
    split at h
    · cases h
    · rename_i needed hneeded
      obtain ⟨hwritable, hrecord⟩ :=
        Writable.create hneeded (fits_withCheckpoint (fits_empty needed) .armed) h
      rw [hrecord]
      exact ⟨hwritable, rfl⟩

theorem Writable.arm {held : Option ReclaimStore}
    (hheld : ∀ store, held = some store → Writable maxUnlinksPerPass store)
    (h : Housekeeping.arm crc maxUnlinksPerPass held = .ok next) :
    Writable maxUnlinksPerPass next ∧
      next.record.planned = (held.map fun store => store.record.planned).getD [] := by
  cases held with
  | some store =>
    unfold Housekeeping.arm at h
    dsimp only at h
    split at h
    · obtain ⟨hwritable, hrecord⟩ :=
        (hheld store rfl).commit (fits_withCheckpoint (hheld store rfl).fits .armed) h
      rw [hrecord]
      exact ⟨hwritable, rfl⟩
    · cases h
      exact ⟨hheld _ rfl, rfl⟩
  | none => exact Writable.ensure hheld h

end Writable

end Ourios.Housekeeping
