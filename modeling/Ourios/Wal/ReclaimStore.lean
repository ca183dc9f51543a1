/-
# The file of the reclamation record

One file with two slots. A commit rewrites the inactive slot at the next generation and
then believes it; a reader believes the valid slot of the greater generation. A commit
that stops on the way leaves some bytes of the inactive slot written and the others as
they were. A file built for too small a geometry is rebuilt whole under another name and
renamed into place, so no reader sees it half written.
-/

import Ourios.Wal.ReclaimDecode

namespace Ourios.Reclaim

open Ourios.Foundation

/-- Why a file cannot be written or read. -/
inductive StoreError
  | io
  | format (error : FormatError)
  | size (found expected : ℕ)
  | encoding (error : EncodeError)
  | sizing (error : GeometryError)
  deriving DecidableEq

/-- The open file: its bytes, and what the process remembers of it. -/
structure ReclaimStore where
  file : List UInt8
  geometry : Geometry
  live : SlotIndex
  generation : ℕ
  record : ReclaimRecord
  deriving DecidableEq

def firstGeneration : ℕ := 1

/-- The greatest generation a slot can carry. -/
def lastGeneration : ℕ := 2 ^ 64 - 1

def slotOf (file : List UInt8) (g : Geometry) (slot : SlotIndex) : List UInt8 :=
  slice file (g.slotOffset slot) g.slotLen

variable (crc : Crc) (store : ReclaimStore) (g : Geometry)

/-- The complete file: the header, the record in the first slot and zeros in the second. -/
def wholeFile (record : ReclaimRecord) (generation : ℕ) : Except StoreError (List UInt8) :=
  let zeroed := List.replicate g.fileLen 0
  let headed := overwrite zeroed 0 (encodeFileHeader crc g)
  match encodeSlotInto crc record generation g (slotOf headed g .first) with
  | .error error => .error (.encoding error)
  | .ok slot => .ok (overwrite headed (g.slotOffset .first) slot)

namespace ReclaimStore

def create (record : ReclaimRecord) : Except StoreError ReclaimStore :=
  match wholeFile crc g record firstGeneration with
  | .error error => .error error
  | .ok file => .ok ⟨file, g, .first, firstGeneration, record⟩

/-- The header and both slots of a file. -/
def decodeFile (file : List UInt8) : Except StoreError ReclaimStore :=
  if file.length < fileHeaderLen then .error .io
  else
    match decodeFileHeader crc (slice file 0 fileHeaderLen) with
    | .error error => .error (.format error)
    | .ok geometry =>
      if file.length ≠ geometry.fileLen then .error (.size file.length geometry.fileLen)
      else
        let first := decodeSlot crc (slotOf file geometry .first) geometry
        let second := decodeSlot crc (slotOf file geometry .second) geometry
        match chooseLive first second with
        | .error error => .error (.format error)
        | .ok (live, decoded) =>
          .ok ⟨file, geometry, live, decoded.generation, decoded.record⟩

/-- Rewrite the whole file at a geometry that covers the stored one and the needed one. -/
def rebuild (needed : Geometry) : Except StoreError ReclaimStore :=
  match Geometry.new (max store.geometry.maxTenants needed.maxTenants)
      (max store.geometry.maxUnlinksPerPass needed.maxUnlinksPerPass) with
  | .error error => .error (.sizing error)
  | .ok wider =>
    match wholeFile crc wider store.record store.generation with
    | .error error => .error error
    | .ok file => .ok { store with file, geometry := wider, live := .first }

/-- Open a file, rebuilding it where it does not cover what is needed. -/
def openStore (file : List UInt8) (needed : Geometry) : Except StoreError ReclaimStore :=
  match decodeFile crc file with
  | .error error => .error error
  | .ok store => if store.geometry.covers needed then .ok store else store.rebuild crc needed

def nextGeneration : ℕ := min (store.generation + 1) lastGeneration

/-- The slot the next commit lays a record out into. The buffer a store keeps is one slot
long and zeroed before it is used, so which bytes it held does not matter. -/
def encodeNext (record : ReclaimRecord) : Except EncodeError (List UInt8) :=
  encodeSlotInto crc record store.nextGeneration store.geometry
    (List.replicate store.geometry.slotLen 0)

/-- Make a record the live one: rewrite the inactive slot and believe it. -/
def commit (record : ReclaimRecord) : Except StoreError ReclaimStore :=
  match store.encodeNext crc record with
  | .error error => .error (.encoding error)
  | .ok slot =>
    .ok { store with
      file := overwrite store.file (store.geometry.slotOffset store.live.other) slot
      live := store.live.other
      generation := store.nextGeneration
      record }

end ReclaimStore

/-- A slot of which some bytes are already those of another. -/
def torn (written : ℕ → Bool) (old new : List UInt8) : List UInt8 :=
  (old.zip new).mapIdx fun position bytes => if written position then bytes.2 else bytes.1

/-- The inactive slot once a commit stopped after some of its bytes were written. -/
def ReclaimStore.tornSlot (written : ℕ → Bool) (slot : List UInt8) : List UInt8 :=
  torn written (slotOf store.file store.geometry store.live.other) slot

/-- The file once a commit stopped after some bytes of the inactive slot were written. -/
def ReclaimStore.tornFile (written : ℕ → Bool) (slot : List UInt8) : List UInt8 :=
  overwrite store.file (store.geometry.slotOffset store.live.other) (store.tornSlot written slot)

/-- The checksum of a slot is not that of the bytes before it. -/
def ChecksumFails (slot : List UInt8) : Prop :=
  readU32 slot g.trailerOffset ≠ (crc (slot.take g.trailerOffset)).toNat

/-! ## Editing a record -/

/-- What a record is changed by. -/
inductive Edit
  | assign (key : TenantId)
  | raise (id : ℕ) (entry : Entry)
  | tombstone (id : ℕ)
  | plan (planned : PlannedUnlink)
  | release (segment : Uuid)
  | setWitness (witness : WitnessFlags)
  | setMode (mode : RecordedMode)
  deriving DecidableEq

/-- A record after an edit. An edit the dictionary refuses leaves the record as it is. -/
def Edit.apply (record : ReclaimRecord) : Edit → ReclaimRecord
  | .assign key =>
    match record.dictionary.assign key g with
    | .error _ => record
    | .ok (dictionary, _) => { record with dictionary }
  | .raise id entry =>
    match record.dictionary.raiseReclaimed id entry with
    | .error _ => record
    | .ok dictionary => { record with dictionary }
  | .tombstone id =>
    match record.dictionary.tombstone id with
    | .error _ => record
    | .ok dictionary => { record with dictionary }
  | .plan planned => { record with planned := record.planned ++ [planned] }
  | .release segment =>
    { record with planned := record.planned.filter fun planned => planned.segment ≠ segment }
  | .setWitness witness => { record with witness }
  | .setMode mode => { record with consumerMode := mode }

/-- What an edit has to respect for the record to stay one that can be written: keys of the
length of a tenant, entries and rows under the recorded mode, rows within the capacity that
name live ids and offsets of their own segment, no tombstone for an id a row names, and one
mode for the life of the root. -/
def Edit.Allowed (record : ReclaimRecord) : Edit → Prop
  | .assign key => 1 ≤ key.toUtf8.length ∧ key.toUtf8.length ≤ keyLen
  | .raise _ entry =>
    record.consumerMode.admits entry.mode = true ∧ entry.offset.byte < 2 ^ 64
  | .tombstone id =>
    ∀ planned ∈ record.planned, ∀ pair ∈ planned.lastOffsets.entries, pair.1 ≠ id
  | .plan planned =>
    record.planned.length < g.maxUnlinksPerPass ∧ record.consumerMode ≠ .unrecorded ∧
      (∀ pair ∈ planned.lastOffsets.entries, record.dictionary.isLive pair.1 = true ∧
        pair.2.segment = planned.segment ∧ pair.2.byte < 2 ^ 64) ∧
      planned.lastOffsets.entries.length < 2 ^ 16
  | .release _ => True
  | .setWitness _ => True
  | .setMode mode => record.consumerMode = .unrecorded ∨ mode = record.consumerMode

instance (g : Geometry) (record : ReclaimRecord) (edit : Edit) :
    Decidable (edit.Allowed g record) := by
  cases edit <;> unfold Edit.Allowed <;> infer_instance

/-! ## Allowed edits keep a record writable -/

/-- A relation that holds along a list holds after one item is replaced by one that the
relation does not tell from it, or asks less of. -/
theorem pairwise_set {α : Type*} {r : α → α → Prop} {items : List α} (h : items.Pairwise r)
    {index : ℕ} {old new : α} (hget : items[index]? = some old)
    (hbefore : ∀ other, r other old → r other new) (hafter : ∀ other, r old other → r new other) :
    (items.set index new).Pairwise r := by
  induction items generalizing index with
  | nil => exact List.Pairwise.nil
  | cons first rest ih =>
    obtain ⟨hfirst, hrest⟩ := List.pairwise_cons.mp h
    cases index with
    | zero =>
      cases hget
      exact List.pairwise_cons.mpr ⟨fun other hother => hafter other (hfirst other hother), hrest⟩
    | succ index =>
      have hold : rest[index]? = some old := hget
      refine List.pairwise_cons.mpr ⟨?_, ih hrest hold⟩
      intro other hother
      rcases List.mem_or_eq_of_mem_set hother with hmem | rfl
      · exact hfirst other hmem
      · exact hbefore first (hfirst old (List.mem_of_getElem? hold))

namespace Dictionary

variable {dictionary : Dictionary} {id : ℕ}

theorem isLive_iff :
    dictionary.isLive id = true ↔ ∃ dict, dictionary.get id = some dict ∧ dict.isLive = true := by
  unfold isLive
  cases dictionary.get id with
  | none => simp
  | some dict => simp

/-- Replacing the record of an id leaves the others live or not as they were. -/
theorem isLive_set_ne {other : ℕ} {dict : DictRecord} (h : other ≠ id) :
    (Dictionary.mk (dictionary.records.set id dict)).isLive other = dictionary.isLive other := by
  unfold isLive get
  rw [List.getElem?_set_ne (Ne.symm h)]

/-- Replacing a live record by a live one leaves every id live that was. -/
theorem isLive_set {other : ℕ} {dict : DictRecord} (hlive : dict.isLive = true)
    (h : dictionary.isLive other = true) :
    (Dictionary.mk (dictionary.records.set id dict)).isLive other = true := by
  by_cases heq : other = id
  · subst heq
    refine isLive_iff.mpr ⟨dict, ?_, hlive⟩
    exact List.getElem?_set_self (lt_of_isLive h)
  · rw [isLive_set_ne heq]
    exact h

theorem isLive_append {dicts : List DictRecord} (h : dictionary.isLive id = true) :
    (Dictionary.mk (dictionary.records ++ dicts)).isLive id = true := by
  obtain ⟨dict, hget, hlive⟩ := isLive_iff.mp h
  refine isLive_iff.mpr ⟨dict, ?_, hlive⟩
  change (dictionary.records ++ dicts)[id]? = some dict
  rw [List.getElem?_append_left (lt_of_get hget)]
  exact hget

end Dictionary

theorem fits_empty : ReclaimRecord.Fits g {} :=
  ⟨Nat.zero_le _, nofun, nofun, .nil, Nat.zero_le _, fun h => absurd rfl h, nofun, nofun⟩

namespace ReclaimRecord.Fits

variable {g : Geometry} {record : ReclaimRecord} {key : TenantId} {id : ℕ}

variable (h : record.Fits g)
include h

/-- A record that fits a geometry fits every geometry that covers it. -/
theorem of_le {wider : Geometry} (htenants : g.maxTenants ≤ wider.maxTenants)
    (hunlinks : g.maxUnlinksPerPass ≤ wider.maxUnlinksPerPass) : record.Fits wider :=
  ⟨le_trans h.tenants htenants, h.keys, h.entries, h.distinct, le_trans h.rows hunlinks, h.mode,
    h.pairs, h.counts⟩

/-- A dictionary of one more live record, of a key no live record has. -/
theorem append (hroom : record.dictionary.records.length < g.maxTenants)
    (hlength : 1 ≤ key.toUtf8.length ∧ key.toUtf8.length ≤ keyLen)
    (hfresh : ∀ dict ∈ record.dictionary.records, dict.isLive = true → dict.key ≠ key) :
    ReclaimRecord.Fits g
      { record with dictionary := ⟨record.dictionary.records ++ [⟨key, .live none⟩]⟩ } := by
  refine ⟨?_, ?_, ?_, ?_, h.rows, h.mode, ?_, h.counts⟩
  · rw [List.length_append]
    exact hroom
  · exact List.forall_mem_append.mpr ⟨h.keys, List.forall_mem_singleton.mpr hlength⟩
  · exact List.forall_mem_append.mpr ⟨h.entries, List.forall_mem_singleton.mpr nofun⟩
  · refine List.pairwise_append.mpr ⟨h.distinct, List.pairwise_singleton _ _, ?_⟩
    intro dict hdict new hnew hlive _
    cases List.mem_singleton.mp hnew
    exact hfresh dict hdict hlive
  · intro planned hplanned pair hpair
    obtain ⟨hlive, hrest⟩ := h.pairs planned hplanned pair hpair
    exact ⟨Dictionary.isLive_append hlive, hrest⟩

/-- One record of the dictionary replaced by one of the same key. -/
theorem set {old new : DictRecord} (hget : record.dictionary.get id = some old)
    (hkey : new.key = old.key) (hentry : ∀ entry, new.reclaimed? = some entry →
      record.consumerMode.admits entry.mode = true ∧ entry.offset.byte < 2 ^ 64)
    (hlive : new.isLive = true → old.isLive = true)
    (hpairs : ∀ planned ∈ record.planned, ∀ pair ∈ planned.lastOffsets.entries,
      (Dictionary.mk (record.dictionary.records.set id new)).isLive pair.1 = true) :
    ReclaimRecord.Fits g
      { record with dictionary := ⟨record.dictionary.records.set id new⟩ } := by
  refine ⟨?_, ?_, ?_, ?_, h.rows, h.mode, ?_, h.counts⟩
  · rw [List.length_set]
    exact h.tenants
  · intro dict hdict
    rcases List.mem_or_eq_of_mem_set hdict with hmem | rfl
    · exact h.keys dict hmem
    · rw [hkey]
      exact h.keys old (Dictionary.mem_of_get hget)
  · intro dict hdict entry hsome
    rcases List.mem_or_eq_of_mem_set hdict with hmem | rfl
    · exact h.entries dict hmem entry hsome
    · exact hentry entry hsome
  · refine pairwise_set h.distinct hget ?_ ?_
    · intro other hne hother hnew
      rw [hkey]
      exact hne hother (hlive hnew)
    · intro other hne hnew hother
      rw [hkey]
      exact hne (hlive hnew) hother
  · intro planned hplanned pair hpair
    exact ⟨hpairs planned hplanned pair hpair, (h.pairs planned hplanned pair hpair).2⟩

/-- No live record has a key that has no live id. -/
theorem fresh (hid : record.dictionary.idOf key = none) :
    ∀ dict ∈ record.dictionary.records, dict.isLive = true → dict.key ≠ key := by
  unfold Dictionary.idOf at hid
  split at hid
  · rename_i hfind
    intro dict hdict hlive heq
    have hfalse := List.findIdx?_eq_none_iff.mp hfind dict hdict
    rw [decide_eq_true heq, hlive] at hfalse
    cases hfalse
  · rename_i index hfind
    split at hid
    · cases hid
    · rename_i hbeyond
      obtain ⟨hlt, -⟩ := List.findIdx?_eq_some_iff_getElem.mp hfind
      exact absurd (h.lt_ceiling hlt) hbeyond

theorem assign (hlength : 1 ≤ key.toUtf8.length ∧ key.toUtf8.length ≤ keyLen) :
    ((Edit.assign key).apply g record).Fits g := by
  unfold Edit.apply Dictionary.assign
  dsimp only
  cases hid : record.dictionary.idOf key with
  | some id => exact h
  | none =>
    by_cases hfull : g.maxTenants ≤ record.dictionary.records.length ∨
        maxTenantsCeiling ≤ record.dictionary.records.length
    · rw [if_pos hfull]
      exact h
    · rw [if_neg hfull]
      exact h.append (Nat.lt_of_not_le fun hle => hfull (.inl hle)) hlength (h.fresh hid)

theorem raise {entry : Entry}
    (hentry : record.consumerMode.admits entry.mode = true ∧ entry.offset.byte < 2 ^ 64) :
    ((Edit.raise id entry).apply g record).Fits g := by
  unfold Edit.apply Dictionary.raiseReclaimed
  dsimp only
  cases hget : record.dictionary.records[id]? with
  | none => exact h
  | some dict =>
    obtain ⟨key, state⟩ := dict
    have hmem : (⟨key, state⟩ : DictRecord) ∈ record.dictionary.records :=
      List.mem_of_getElem? hget
    cases state with
    | tombstoned => exact h
    | live reclaimedThrough =>
      refine h.set hget rfl ?_ (fun _ => rfl) ?_
      · -- what is kept was admitted when it was raised, what is new is admitted now
        intro raised hraised
        cases reclaimedThrough with
        | none =>
          cases hraised
          exact hentry
        | some held =>
          have hcases : raised = if entry.offset ≤ held.offset then held else entry :=
            (Option.some.inj hraised).symm
          split at hcases
          · subst hcases
            exact h.entries _ hmem _ rfl
          · subst hcases
            exact hentry
      · intro planned hplanned pair hpair
        exact Dictionary.isLive_set rfl (h.pairs planned hplanned pair hpair).1

theorem tombstone (hunplanned : (Edit.tombstone id).Allowed g record) :
    ((Edit.tombstone id).apply g record).Fits g := by
  unfold Edit.apply Dictionary.tombstone
  dsimp only
  cases hget : record.dictionary.records[id]? with
  | none => exact h
  | some dict =>
    refine h.set hget rfl (fun entry hentry => nomatch hentry) (fun hlive => nomatch hlive) ?_
    intro planned hplanned pair hpair
    rw [Dictionary.isLive_set_ne (hunplanned planned hplanned pair hpair)]
    exact (h.pairs planned hplanned pair hpair).1

theorem plan {planned : PlannedUnlink} (hallowed : (Edit.plan planned).Allowed g record) :
    ((Edit.plan planned).apply g record).Fits g := by
  obtain ⟨hroom, hmode, hpairs, hcount⟩ := hallowed
  refine ⟨h.tenants, h.keys, h.entries, h.distinct, ?_, fun _ => hmode, ?_, ?_⟩
  · change (record.planned ++ [planned]).length ≤ _
    rw [List.length_append]
    exact hroom
  · exact List.forall_mem_append.mpr ⟨h.pairs, List.forall_mem_singleton.mpr hpairs⟩
  · exact List.forall_mem_append.mpr ⟨h.counts, List.forall_mem_singleton.mpr hcount⟩

theorem release (segment : Uuid) : ((Edit.release segment).apply g record).Fits g := by
  have hsubset : ∀ row ∈ record.planned.filter (fun planned => planned.segment ≠ segment),
      row ∈ record.planned := fun row hrow => List.mem_of_mem_filter hrow
  refine ⟨h.tenants, h.keys, h.entries, h.distinct, ?_, ?_, ?_, ?_⟩
  · exact le_trans (List.length_filter_le _ _) h.rows
  · intro hne
    apply h.mode
    intro hnil
    apply hne
    change record.planned.filter _ = []
    rw [hnil]
    rfl
  · exact fun row hrow => h.pairs row (hsubset row hrow)
  · exact fun row hrow => h.counts row (hsubset row hrow)

theorem setMode {mode : RecordedMode}
    (hallowed : record.consumerMode = .unrecorded ∨ mode = record.consumerMode) :
    ((Edit.setMode mode).apply g record).Fits g := by
  rcases hallowed with hunrecorded | rfl
  · -- under no mode there is neither an entry nor a row
    refine ⟨h.tenants, h.keys, ?_, h.distinct, h.rows, ?_, h.pairs, h.counts⟩
    · intro dict hdict entry hentry
      have hadmits := (h.entries dict hdict entry hentry).1
      rw [hunrecorded] at hadmits
      cases hadmits
    · intro hne
      exact absurd hunrecorded (h.mode hne)
  · exact h

/-- An allowed edit keeps a record writable. -/
theorem apply {edit : Edit} (hallowed : edit.Allowed g record) : (edit.apply g record).Fits g := by
  cases edit with
  | assign key => exact h.assign hallowed
  | raise id entry => exact h.raise hallowed
  | tombstone id => exact h.tombstone hallowed
  | plan planned => exact h.plan hallowed
  | release segment => exact h.release segment
  | setWitness witness =>
    exact ⟨h.tenants, h.keys, h.entries, h.distinct, h.rows, h.mode, h.pairs, h.counts⟩
  | setMode mode => exact h.setMode hallowed

end ReclaimRecord.Fits

end Ourios.Reclaim
