/-
# The reclamation record

What a root has reclaimed: a dictionary that gives every tenant a slot id for the life of
the root, each tenant's proof of loss, and the unlinks a pass has promised. A file that
holds the record is laid out for two capacities, and every offset in it follows from
them. Widths are those of the source: ids are 16 bits wide, capacities 32, offsets 64.
-/

import Ourios.Core.Audit
import Ourios.Foundation.OrderedMap
import Ourios.Wal.Format

namespace Ourios.Reclaim

open Ourios.Foundation

/-! ## Geometry -/

def fileHeaderLen : ℕ := 32
def slotHeaderLen : ℕ := 24
def slotTrailerLen : ℕ := 8
def keyLen : ℕ := 128
def dictRecordLen : ℕ := 132
def entryLen : ℕ := 32
def plannedHeaderLen : ℕ := 24
def pairLen : ℕ := 32
def slotCount : ℕ := 2

/-- How many slot ids there are. -/
def maxTenantsCeiling : ℕ := 65536

def maxUnlinksPerPassCeiling : ℕ := 65536

/-- The two capacities a file is built for, inside the ceilings of the format. -/
structure Geometry where
  maxTenants : ℕ
  maxUnlinksPerPass : ℕ
  tenants_pos : 1 ≤ maxTenants
  tenants_le : maxTenants ≤ maxTenantsCeiling
  unlinks_pos : 1 ≤ maxUnlinksPerPass
  unlinks_le : maxUnlinksPerPass ≤ maxUnlinksPerPassCeiling
  deriving DecidableEq

inductive GeometryError
  | maxTenants (found : ℕ)
  | maxUnlinksPerPass (found : ℕ)
  | unrepresentable (fileLen : ℕ)
  deriving DecidableEq

variable (dictionary : Dictionary) (g : Geometry)

namespace Geometry

def plannedStride : ℕ := plannedHeaderLen + pairLen * g.maxTenants

def slotLen : ℕ :=
  slotHeaderLen + slotTrailerLen + (dictRecordLen + entryLen) * g.maxTenants +
    g.plannedStride * g.maxUnlinksPerPass

def fileLen : ℕ := fileHeaderLen + slotCount * g.slotLen

/-- The geometry of two capacities, where the file is addressable. -/
def new (maxTenants maxUnlinksPerPass : ℕ) : Except GeometryError Geometry :=
  if htenants : 1 ≤ maxTenants ∧ maxTenants ≤ maxTenantsCeiling then
    if hunlinks : 1 ≤ maxUnlinksPerPass ∧ maxUnlinksPerPass ≤ maxUnlinksPerPassCeiling then
      let geometry : Geometry :=
        ⟨maxTenants, maxUnlinksPerPass, htenants.1, htenants.2, hunlinks.1, hunlinks.2⟩
      if geometry.fileLen < 2 ^ 64 then .ok geometry
      else .error (.unrepresentable geometry.fileLen)
    else .error (.maxUnlinksPerPass maxUnlinksPerPass)
  else .error (.maxTenants maxTenants)

/-- A file built at one geometry holds all that a file built at another can. -/
def covers (g needed : Geometry) : Bool :=
  needed.maxTenants ≤ g.maxTenants && needed.maxUnlinksPerPass ≤ g.maxUnlinksPerPass

def dictionaryAt (id : ℕ) : ℕ := slotHeaderLen + dictRecordLen * id

def entryAt (id : ℕ) : ℕ :=
  slotHeaderLen + dictRecordLen * g.maxTenants + entryLen * id

def plannedAt (position : ℕ) : ℕ :=
  slotHeaderLen + (dictRecordLen + entryLen) * g.maxTenants + position * g.plannedStride

def pairAt (position id : ℕ) : ℕ :=
  g.plannedAt position + (plannedHeaderLen + pairLen * id)

def trailerOffset : ℕ := g.slotLen - slotTrailerLen

/-- Every slot id the geometry addresses, in order. -/
def ids : List ℕ := List.range g.maxTenants

/-- At the ceilings a file is shorter than 2^39 bytes, so no sum or product of the layout
overflows and every file is addressable. -/
theorem fileLen_lt : g.fileLen < 2 ^ 39 := by
  have htenants := g.tenants_le
  have hunlinks := g.unlinks_le
  have hstride : g.plannedStride ≤ 24 + 32 * 65536 := by
    unfold plannedStride plannedHeaderLen pairLen
    unfold maxTenantsCeiling at htenants
    omega
  have hplanned : g.plannedStride * g.maxUnlinksPerPass ≤ (24 + 32 * 65536) * 65536 :=
    Nat.mul_le_mul hstride hunlinks
  unfold fileLen slotLen fileHeaderLen slotCount slotHeaderLen slotTrailerLen dictRecordLen entryLen
  unfold maxTenantsCeiling at htenants
  omega

theorem new_eq_ok : new g.maxTenants g.maxUnlinksPerPass = .ok g := by
  unfold new
  rw [dif_pos ⟨g.tenants_pos, g.tenants_le⟩, dif_pos ⟨g.unlinks_pos, g.unlinks_le⟩]
  exact if_pos (lt_trans g.fileLen_lt (by decide))

end Geometry

inductive SlotIndex
  | first
  | second
  deriving DecidableEq

def SlotIndex.other : SlotIndex → SlotIndex
  | .first => .second
  | .second => .first

def SlotIndex.ordinal : SlotIndex → ℕ
  | .first => 0
  | .second => 1

def Geometry.slotOffset (slot : SlotIndex) : ℕ :=
  fileHeaderLen + slot.ordinal * g.slotLen

/-! ## Flags and modes -/

/-- A two-state witness: armed before the first attempt, terminal after it succeeded. -/
inductive Witness
  | unarmed
  | armed
  | terminal
  deriving DecidableEq

structure WitnessFlags where
  checkpoint : Witness := .unarmed
  publishedSeeding : Witness := .unarmed
  deriving DecidableEq

/-- The consumer mode every pass on a root ran under. -/
inductive RecordedMode
  | unrecorded
  | known
  | noConsumer
  deriving DecidableEq

inductive EntryMode
  | known
  | noConsumer
  deriving DecidableEq

/-- An entry of a mode can stand in a record whose root recorded a mode. -/
def RecordedMode.admits : RecordedMode → EntryMode → Bool
  | .known, .known | .noConsumer, .noConsumer => true
  | _, _ => false

/-! ## The dictionary -/

/-- A tenant's proof of loss: frames at or below the offset are gone. -/
structure Entry where
  mode : EntryMode
  offset : WalOffset
  deriving DecidableEq

inductive SlotState
  | live (reclaimedThrough : Option Entry)
  | tombstoned
  deriving DecidableEq

structure DictRecord where
  key : TenantId
  state : SlotState
  deriving DecidableEq

def DictRecord.isLive (record : DictRecord) : Bool :=
  match record.state with
  | .live _ => true
  | .tombstoned => false

/-- The tenants of a root. A record's position is its slot id. -/
structure Dictionary where
  records : List DictRecord := []
  deriving DecidableEq

/-- Every id the geometry allows is taken. -/
structure DictionaryFull where
  maxTenants : ℕ
  deriving DecidableEq

inductive NotLive
  | unknown (id : ℕ)
  | tombstoned (id : ℕ)
  deriving DecidableEq

structure UnknownSlotId where
  id : ℕ
  deriving DecidableEq

namespace Dictionary

def nextSlotId : ℕ := dictionary.records.length

def get (id : ℕ) : Option DictRecord := dictionary.records[id]?

/-- Every record with its id. A position that is no slot id is passed over. -/
def iter : List (ℕ × DictRecord) :=
  dictionary.records.zipIdx.filterMap fun (record, index) =>
    if index < maxTenantsCeiling then some (index, record) else none

def isLive (dictionary : Dictionary) (id : ℕ) : Bool :=
  match dictionary.get id with
  | none => false
  | some record => record.isLive

/-- Every live record with its id. -/
def live : List (ℕ × DictRecord) :=
  dictionary.iter.filter fun (_, record) => record.isLive

/-- The live id of a key. -/
def idOf (key : TenantId) : Option ℕ :=
  match dictionary.records.findIdx? fun record => record.key = key && record.isLive with
  | none => none
  | some index => if index < maxTenantsCeiling then some index else none

/-- Raise the proof of loss of an id, which keeps the greater offset. -/
def raiseReclaimed (id : ℕ) (entry : Entry) : Except NotLive Dictionary :=
  match dictionary.records[id]? with
  | none => .error (.unknown id)
  | some record =>
    match record.state with
    | .tombstoned => .error (.tombstoned id)
    | .live reclaimedThrough =>
      let raised :=
        match reclaimedThrough with
        | some held => if entry.offset ≤ held.offset then held else entry
        | none => entry
      .ok ⟨dictionary.records.set id { record with state := .live (some raised) }⟩

/-- The id a key holds, the next one where it holds none. -/
def assign (key : TenantId) (geometry : Geometry) : Except DictionaryFull (Dictionary × ℕ) :=
  match dictionary.idOf key with
  | some id => .ok (dictionary, id)
  | none =>
    let next := dictionary.records.length
    if geometry.maxTenants ≤ next ∨ maxTenantsCeiling ≤ next then
      .error ⟨geometry.maxTenants⟩
    else .ok (⟨dictionary.records ++ [⟨key, .live none⟩]⟩, next)

/-- Retire an id. -/
def tombstone (id : ℕ) : Except UnknownSlotId Dictionary :=
  match dictionary.records[id]? with
  | none => .error ⟨id⟩
  | some record => .ok ⟨dictionary.records.set id { record with state := .tombstoned }⟩

end Dictionary

/-- One popped segment the record promises to unlink, with each tenant's last offset. -/
structure PlannedUnlink where
  segment : Uuid
  uncertain : Bool
  lastOffsets : OrderedMap ℕ WalOffset
  deriving DecidableEq

/-- What a pass writes and open reads back. -/
structure ReclaimRecord where
  witness : WitnessFlags := {}
  consumerMode : RecordedMode := .unrecorded
  dictionary : Dictionary := {}
  planned : List PlannedUnlink := []
  deriving DecidableEq

end Ourios.Reclaim
