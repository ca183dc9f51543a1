/-
# The record survives its commits

A session edits a draft, commits it, and opens the file again, after a clean stop or after
a commit that stopped on the way. In every run of allowed steps the live slot holds the
last completed record and the other slot holds nothing a reader would believe over it, so
an open gives back that record, or the one in flight where its slot was written whole.

Assumed of the checksum is only that it fails on the slots that were torn in the run.
-/

import Ourios.Foundation.Machine
import Ourios.Wal.ReclaimStore

namespace Ourios.Reclaim

open Ourios.Foundation

/-! ## Slots of a file -/

namespace Geometry

variable (g : Geometry)

/-- The smallest geometry that covers two. -/
def join (other : Geometry) : Geometry where
  maxTenants := max g.maxTenants other.maxTenants
  maxUnlinksPerPass := max g.maxUnlinksPerPass other.maxUnlinksPerPass
  tenants_pos := le_trans g.tenants_pos (le_max_left _ _)
  tenants_le := max_le g.tenants_le other.tenants_le
  unlinks_pos := le_trans g.unlinks_pos (le_max_left _ _)
  unlinks_le := max_le g.unlinks_le other.unlinks_le

theorem slotOffset_first : g.slotOffset .first = fileHeaderLen := by
  unfold slotOffset SlotIndex.ordinal
  rw [Nat.zero_mul, Nat.add_zero]

theorem slotOffset_second : g.slotOffset .second = fileHeaderLen + g.slotLen := by
  unfold slotOffset SlotIndex.ordinal
  rw [Nat.one_mul]

theorem fileLen_eq : g.fileLen = fileHeaderLen + 2 * g.slotLen := rfl

/-- A slot lies in the file, after the header. -/
theorem slotOffset_bounds (slot : SlotIndex) :
    fileHeaderLen ≤ g.slotOffset slot ∧ g.slotOffset slot + g.slotLen ≤ g.fileLen := by
  rw [g.fileLen_eq]
  cases slot with
  | first =>
    rw [g.slotOffset_first]
    omega
  | second =>
    rw [g.slotOffset_second]
    omega

/-- The two slots lie apart. -/
theorem slotOffset_apart (slot : SlotIndex) :
    g.slotOffset slot + g.slotLen ≤ g.slotOffset slot.other ∨
      g.slotOffset slot.other + g.slotLen ≤ g.slotOffset slot := by
  cases slot with
  | first =>
    refine .inl ?_
    rw [SlotIndex.other, g.slotOffset_first, g.slotOffset_second]
  | second =>
    refine .inr ?_
    rw [SlotIndex.other, g.slotOffset_first, g.slotOffset_second]

end Geometry

theorem length_sealSlot (crc : Crc) {g : Geometry} {record : ReclaimRecord}
    (h : record.Fits g) (generation : ℕ) :
    (sealSlot crc g (record.writes generation)).length = g.slotLen :=
  (h.holds crc generation).length

/-- A slot of zeros is refused, by its checksum or by its generation. -/
theorem decodeSlot_zeros (crc : Crc) (g : Geometry) :
    ∃ error, decodeSlot crc (List.replicate g.slotLen 0) g = .error error := by
  have hslot := g.slotLen_eq_add
  have hreserved : reservedZero (List.replicate g.slotLen 0) (g.trailerOffset + 4)
      (g.trailerOffset + 8) "slot trailer" = .ok () :=
    reservedZero_add_of_slice (slice_replicate (by omega))
  have hgeneration : readU64 (List.replicate g.slotLen (0 : UInt8)) 0 = 0 := by
    refine readU64_of_slice ?_ (by decide)
    exact slice_replicate (by omega)
  unfold decodeSlot
  dsimp only
  rw [if_neg (not_not.mpr List.length_replicate)]
  split
  · exact ⟨_, rfl⟩
  · rw [hreserved, hgeneration]
    exact ⟨_, rfl⟩

/-- A slot whose checksum fails is refused. -/
theorem decodeSlot_checksumFails {crc : Crc} {g : Geometry} {slot : List UInt8}
    (h : ChecksumFails crc g slot) : ∃ error, decodeSlot crc slot g = .error error := by
  have hmismatch : readU32 slot g.trailerOffset ≠ (crc (slot.take g.trailerOffset)).toNat := h
  unfold decodeSlot
  split
  · exact ⟨_, rfl⟩
  · rw [if_pos hmismatch]
    exact ⟨_, rfl⟩

theorem length_torn {written : ℕ → Bool} {old new : List UInt8} (h : old.length = new.length) :
    (torn written old new).length = new.length := by
  unfold torn
  rw [List.length_mapIdx, List.length_zip, h, Nat.min_self]

/-! ## A file that can be opened -/

namespace ReclaimStore

/-- The live slot holds the record at its generation, and the other slot holds nothing of
that generation or a later one. -/
structure Sound (crc : Crc) (store : ReclaimStore) : Prop where
  length : store.file.length = store.geometry.fileLen
  header : slice store.file 0 fileHeaderLen = encodeFileHeader crc store.geometry
  live : slotOf store.file store.geometry store.live =
    sealSlot crc store.geometry (store.record.writes store.generation)
  other : ∀ decoded, decodeSlot crc (slotOf store.file store.geometry store.live.other)
    store.geometry = .ok decoded → decoded.generation < store.generation
  fits : store.record.Fits store.geometry
  pos : store.generation ≠ 0
  le : store.generation ≤ lastGeneration

variable {crc : Crc} {store : ReclaimStore}

theorem lt_of_le_lastGeneration {generation : ℕ} (h : generation ≤ lastGeneration) :
    generation < 2 ^ 64 := by
  unfold lastGeneration at h
  omega

/-- The live slot of a sound store decodes to its record. -/
theorem Sound.decode_live (h : store.Sound crc) :
    decodeSlot crc (slotOf store.file store.geometry store.live) store.geometry =
      .ok ⟨store.generation, store.record⟩ := by
  rw [h.live]
  exact (h.fits.holds crc store.generation).decodeSlot h.fits h.pos
    (lt_of_le_lastGeneration h.le)

/-- A sound store is what its file reads back as. -/
theorem Sound.decodeFile (h : store.Sound crc) :
    ReclaimStore.decodeFile crc store.file = .ok store := by
  have hbounds := store.geometry.slotOffset_bounds .first
  have hlength : ¬ store.file.length < fileHeaderLen := by
    rw [h.length]
    omega
  have hlive := h.decode_live
  have hother := h.other
  have hchosen : chooseLive
      (decodeSlot crc (slotOf store.file store.geometry .first) store.geometry)
      (decodeSlot crc (slotOf store.file store.geometry .second) store.geometry) =
        .ok (store.live, ⟨store.generation, store.record⟩) := by
    cases hslot : store.live with
    | first =>
      rw [hslot] at hlive hother
      rw [hlive]
      cases hsecond : decodeSlot crc (slotOf store.file store.geometry .second)
          store.geometry with
      | error error => rfl
      | ok decoded => exact if_pos (hother decoded hsecond)
    | second =>
      rw [hslot] at hlive hother
      rw [hlive]
      cases hfirst : decodeSlot crc (slotOf store.file store.geometry .first)
          store.geometry with
      | error error => rfl
      | ok decoded =>
        have hlt := hother decoded hfirst
        unfold chooseLive
        dsimp only
        rw [if_neg (Nat.lt_asymm hlt), if_pos hlt]
  unfold ReclaimStore.decodeFile
  rw [if_neg hlength, h.header, decodeFileHeader_encodeFileHeader]
  dsimp only
  rw [if_neg (not_not.mpr h.length), hchosen]

variable {record : ReclaimRecord}

/-- A whole file written for a record that fits is sound. -/
theorem wholeFile_sound (crc : Crc) {g : Geometry} {generation : ℕ} (hfits : record.Fits g)
    (hpos : generation ≠ 0) (hle : generation ≤ lastGeneration) :
    ∃ file, wholeFile crc g record generation = .ok file ∧
      Sound crc ⟨file, g, .first, generation, record⟩ := by
  have hfile := g.fileLen_eq
  let headed := overwrite (List.replicate g.fileLen 0) 0 (encodeFileHeader crc g)
  have hzeros : (List.replicate g.fileLen (0 : UInt8)).length = g.fileLen := List.length_replicate
  have hheaderLen := length_encodeFileHeader crc g
  have hroom : 0 + (encodeFileHeader crc g).length ≤
      (List.replicate g.fileLen (0 : UInt8)).length := by
    omega
  have hheaded : headed.length = g.fileLen := (length_overwrite hroom).trans hzeros
  obtain ⟨hafter, hwithin⟩ := g.slotOffset_bounds .first
  have hbuffer : (slotOf headed g .first).length = g.slotLen :=
    length_slice (by rw [hheaded]; exact hwithin)
  have hsealed := length_sealSlot crc hfits generation
  have hslotRoom : g.slotOffset .first + (sealSlot crc g (record.writes generation)).length ≤
      headed.length := by
    rw [hsealed, hheaded]
    exact hwithin
  refine ⟨overwrite headed (g.slotOffset .first) (sealSlot crc g (record.writes generation)),
    ?_, ?_⟩
  · unfold wholeFile
    dsimp only
    rw [hfits.encodeSlotInto crc hbuffer hpos]
  refine ⟨(length_overwrite hslotRoom).trans hheaded, ?_, ?_, ?_, hfits, hpos, hle⟩
  · have hread := slice_overwrite_apart hslotRoom
      (.inl (by rw [Nat.zero_add]; exact hafter) : 0 + fileHeaderLen ≤ g.slotOffset .first ∨ _)
    exact hread.trans (slice_overwrite_self hroom)
  · have hself := slice_overwrite_self hslotRoom
    rw [hsealed] at hself
    exact hself
  · -- nothing was ever written to the second slot
    intro decoded hdecoded
    have hsecond : slotOf (overwrite headed (g.slotOffset .first)
        (sealSlot crc g (record.writes generation))) g .second = List.replicate g.slotLen 0 := by
      have hread : slotOf (overwrite headed (g.slotOffset .first)
          (sealSlot crc g (record.writes generation))) g .second = slotOf headed g .second := by
        refine slice_overwrite_apart hslotRoom (.inr ?_)
        rw [hsealed, g.slotOffset_first, g.slotOffset_second]
      rw [hread]
      have hzero : slotOf headed g .second = slotOf (List.replicate g.fileLen 0) g .second := by
        refine slice_overwrite_apart hroom (.inr ?_)
        exact (g.slotOffset_bounds .second).1
      rw [hzero]
      exact slice_replicate (g.slotOffset_bounds .second).2
    obtain ⟨error, herror⟩ := decodeSlot_zeros crc g
    change decodeSlot crc (slotOf _ g .second) g = _ at hdecoded
    rw [hsecond, herror] at hdecoded
    cases hdecoded

/-- Opening a sound file gives its record back, at a geometry that may be wider. -/
theorem Sound.openStore (h : store.Sound crc) (needed : Geometry) :
    ∃ reopened, ReclaimStore.openStore crc store.file needed = .ok reopened ∧
      reopened.Sound crc ∧ reopened.record = store.record := by
  unfold ReclaimStore.openStore
  rw [h.decodeFile]
  dsimp only
  split
  · exact ⟨store, rfl, h, rfl⟩
  · have hfits : store.record.Fits (store.geometry.join needed) :=
      h.fits.of_le (le_max_left _ _) (le_max_left _ _)
    obtain ⟨file, hfile, hsound⟩ := wholeFile_sound crc hfits h.pos h.le
    have hnew : Geometry.new (max store.geometry.maxTenants needed.maxTenants)
        (max store.geometry.maxUnlinksPerPass needed.maxUnlinksPerPass) =
          .ok (store.geometry.join needed) := (store.geometry.join needed).new_eq_ok
    refine ⟨⟨file, store.geometry.join needed, .first, store.generation, store.record⟩, ?_,
      hsound, rfl⟩
    unfold rebuild
    rw [hnew]
    dsimp only
    rw [hfile]

/-- What writing a slot's worth of bytes over the inactive slot leaves as it was. -/
structure Overwritten (crc : Crc) (store : ReclaimStore) (slot file : List UInt8) : Prop where
  length : file.length = store.geometry.fileLen
  header : slice file 0 fileHeaderLen = encodeFileHeader crc store.geometry
  live : slotOf file store.geometry store.live =
    sealSlot crc store.geometry (store.record.writes store.generation)
  other : slotOf file store.geometry store.live.other = slot

theorem Sound.overwritten (h : store.Sound crc) {slot : List UInt8}
    (hslot : slot.length = store.geometry.slotLen) :
    Overwritten crc store slot
      (overwrite store.file (store.geometry.slotOffset store.live.other) slot) := by
  obtain ⟨hafter, hwithin⟩ := store.geometry.slotOffset_bounds store.live.other
  have hroom : store.geometry.slotOffset store.live.other + slot.length ≤ store.file.length := by
    rw [hslot, h.length]
    exact hwithin
  constructor
  · exact (length_overwrite hroom).trans h.length
  · have hread := slice_overwrite_apart hroom
      (.inl (by rw [Nat.zero_add]; exact hafter) :
        0 + fileHeaderLen ≤ store.geometry.slotOffset store.live.other ∨ _)
    exact hread.trans h.header
  · refine Eq.trans (slice_overwrite_apart hroom ?_) h.live
    rw [hslot]
    exact store.geometry.slotOffset_apart store.live
  · have hself := slice_overwrite_self hroom
    rw [hslot] at hself
    exact hself

theorem nextGeneration_eq (h : store.generation < lastGeneration) :
    store.nextGeneration = store.generation + 1 :=
  Nat.min_eq_left h

/-- The next slot of a record that fits is laid out. -/
theorem encodeNext_eq_ok (crc : Crc) (hfits : record.Fits store.geometry)
    (hgeneration : store.generation < lastGeneration) :
    store.encodeNext crc record =
      .ok (sealSlot crc store.geometry (record.writes (store.generation + 1))) := by
  unfold encodeNext
  rw [nextGeneration_eq hgeneration]
  exact hfits.encodeSlotInto crc List.length_replicate (Nat.succ_ne_zero _)

/-- A commit of a record that fits completes. -/
theorem Sound.commit (h : store.Sound crc) (hfits : record.Fits store.geometry)
    (hgeneration : store.generation < lastGeneration) :
    ∃ committed, ReclaimStore.commit crc store record = .ok committed ∧
      committed.Sound crc ∧ committed.record = record ∧ committed.geometry = store.geometry ∧
        committed.file = overwrite store.file (store.geometry.slotOffset store.live.other)
          (sealSlot crc store.geometry (record.writes (store.generation + 1))) := by
  have hover := h.overwritten (length_sealSlot crc hfits (store.generation + 1))
  let file := overwrite store.file (store.geometry.slotOffset store.live.other)
    (sealSlot crc store.geometry (record.writes (store.generation + 1)))
  refine ⟨⟨file, store.geometry, store.live.other, store.generation + 1, record⟩, ?_, ?_, rfl, rfl,
    rfl⟩
  · unfold ReclaimStore.commit
    rw [encodeNext_eq_ok crc hfits hgeneration, nextGeneration_eq hgeneration]
  refine ⟨hover.length, hover.header, hover.other, ?_, hfits, Nat.succ_ne_zero _, hgeneration⟩
  -- the slot that was live stays as it was, one generation behind
  intro decoded hdecoded
  have hback : store.live.other.other = store.live := by cases store.live <;> rfl
  rw [hback, hover.live, ← h.live, h.decode_live] at hdecoded
  cases hdecoded
  exact Nat.lt_succ_self _

/-- A commit that stopped leaves the old record or the new one, whichever bytes of the
inactive slot it had written. -/
theorem Sound.tornFile (h : store.Sound crc) (hfits : record.Fits store.geometry)
    (hgeneration : store.generation < lastGeneration) (written : ℕ → Bool) {slot : List UInt8}
    (hslot : slot = sealSlot crc store.geometry (record.writes (store.generation + 1)))
    (htorn : store.tornSlot written slot =
        slotOf store.file store.geometry store.live.other ∨
      store.tornSlot written slot = slot ∨
      ChecksumFails crc store.geometry (store.tornSlot written slot)) :
    ∃ left : ReclaimStore, left.file = store.tornFile written slot ∧ left.Sound crc ∧
      (left.record = store.record ∨ left.record = record) := by
  have hwithin := (store.geometry.slotOffset_bounds store.live.other).2
  rw [← h.length] at hwithin
  have hold : (slotOf store.file store.geometry store.live.other).length =
      store.geometry.slotLen := length_slice hwithin
  have hnew : slot.length = store.geometry.slotLen := by
    rw [hslot]
    exact length_sealSlot crc hfits _
  rcases htorn with hunwritten | hwhole | hfails
  · refine ⟨store, ?_, h, .inl rfl⟩
    unfold ReclaimStore.tornFile
    rw [hunwritten]
    exact (overwrite_slice _ hwithin).symm
  · obtain ⟨committed, -, hsound, hrecord, -, hfile⟩ := h.commit hfits hgeneration
    refine ⟨committed, ?_, hsound, .inr hrecord⟩
    unfold ReclaimStore.tornFile
    rw [hfile, hwhole, hslot]
  · have hlength : (store.tornSlot written slot).length = store.geometry.slotLen :=
      (length_torn (hold.trans hnew.symm)).trans hnew
    have hover := h.overwritten hlength
    refine ⟨{ store with file := store.tornFile written slot }, rfl, ?_, .inl rfl⟩
    refine ⟨hover.length, hover.header, hover.live, ?_, h.fits, h.pos, h.le⟩
    intro decoded hdecoded
    obtain ⟨error, herror⟩ := decodeSlot_checksumFails hfails
    unfold ReclaimStore.tornFile at hdecoded
    rw [hover.other, herror] at hdecoded
    cases hdecoded

end ReclaimStore

/-! ## Sessions -/

def Dictionary.keys (dictionary : Dictionary) : List TenantId :=
  dictionary.records.map DictRecord.key

/-- An edit keeps every slot id with its key. -/
theorem Edit.keys_isPrefix (g : Geometry) (record : ReclaimRecord) (edit : Edit) :
    record.dictionary.keys <+: (edit.apply g record).dictionary.keys := by
  have hset : ∀ (id : ℕ) (old new : DictRecord), record.dictionary.records[id]? = some old →
      new.key = old.key →
      record.dictionary.keys <+: (Dictionary.mk (record.dictionary.records.set id new)).keys := by
    intro id old new hget hkey
    suffices hsame : record.dictionary.keys =
        (Dictionary.mk (record.dictionary.records.set id new)).keys from hsame ▸ List.prefix_rfl
    apply List.ext_getElem?
    intro other
    unfold Dictionary.keys
    rw [List.getElem?_map, List.getElem?_map]
    by_cases heq : other = id
    · subst heq
      obtain ⟨hlt, -⟩ := List.getElem?_eq_some_iff.mp hget
      rw [List.getElem?_set_self hlt, hget, Option.map_some, Option.map_some, hkey]
    · rw [List.getElem?_set_ne (Ne.symm heq)]
  cases edit with
  | assign key =>
    unfold Edit.apply Dictionary.assign
    dsimp only
    cases record.dictionary.idOf key with
    | some id => exact List.prefix_rfl
    | none =>
      by_cases hfull : g.maxTenants ≤ record.dictionary.records.length ∨
          maxTenantsCeiling ≤ record.dictionary.records.length
      · rw [if_pos hfull]
      · rw [if_neg hfull]
        have happend : (record.dictionary.records ++
            ([⟨key, .live none⟩] : List DictRecord)).map DictRecord.key =
              record.dictionary.keys ++ [key] := List.map_append
        exact ⟨[key], happend.symm⟩
  | raise id entry =>
    unfold Edit.apply Dictionary.raiseReclaimed
    dsimp only
    cases hget : record.dictionary.records[id]? with
    | none => exact List.prefix_rfl
    | some dict =>
      obtain ⟨key, state⟩ := dict
      cases state with
      | tombstoned => exact List.prefix_rfl
      | live reclaimedThrough => exact hset id _ _ hget rfl
  | tombstone id =>
    unfold Edit.apply Dictionary.tombstone
    dsimp only
    cases hget : record.dictionary.records[id]? with
    | none => exact List.prefix_rfl
    | some dict => exact hset id dict _ hget rfl
  | _ => exact List.prefix_rfl

/-- The open store and the record a process is building. -/
structure Session where
  store : ReclaimStore
  draft : ReclaimRecord

/-- What a process does with the record: change the draft, commit it, open the file again,
or stop during a commit after some bytes of the slot were written and open the file. -/
inductive Step
  | edit (edit : Edit)
  | commit
  | reopen (needed : Geometry)
  | crash (written : ℕ → Bool) (needed : Geometry)

namespace Session

/-- The session that opens a file, or the one before where it cannot be opened. -/
def reopen (crc : Crc) (session : Session) (file : List UInt8) (needed : Geometry) : Session :=
  match ReclaimStore.openStore crc file needed with
  | .error _ => session
  | .ok store => ⟨store, store.record⟩

def step (crc : Crc) (session : Session) : Step → Session
  | .edit edit => { session with draft := edit.apply session.store.geometry session.draft }
  | .commit =>
    match session.store.commit crc session.draft with
    | .error _ => session
    | .ok store => { session with store }
  | .reopen needed => session.reopen crc session.store.file needed
  | .crash written needed =>
    match session.store.encodeNext crc session.draft with
    | .error _ => session
    | .ok slot => session.reopen crc (session.store.tornFile written slot) needed

/-- The checksum of a torn slot fails where the slot is neither as it was nor written whole. -/
def Torn (crc : Crc) (session : Session) (written : ℕ → Bool) : Prop :=
  ∀ slot, session.store.encodeNext crc session.draft = .ok slot →
    session.store.tornSlot written slot =
        slotOf session.store.file session.store.geometry session.store.live.other ∨
      session.store.tornSlot written slot = slot ∨
      ChecksumFails crc session.store.geometry (session.store.tornSlot written slot)

/-- A step of a process that respects the edits and has generations left. -/
def Allowed (crc : Crc) (session : Session) : Step → Prop
  | .edit edit => edit.Allowed session.store.geometry session.draft
  | .commit => session.store.generation < lastGeneration
  | .reopen _ => True
  | .crash written _ => session.store.generation < lastGeneration ∧ session.Torn crc written

section Decidable

variable (crc : Crc) (session : Session)

instance decidableChecksumFails (g : Geometry) (slot : List UInt8) :
    Decidable (ChecksumFails crc g slot) := inferInstanceAs (Decidable (_ ≠ _))

instance decidableTorn (written : ℕ → Bool) : Decidable (session.Torn crc written) :=
  match hslot : session.store.encodeNext crc session.draft with
  | .error _ => isTrue fun _ h => nomatch hslot.symm.trans h
  | .ok slot => decidable_of_iff' _ ⟨fun h => h slot hslot,
      fun h _ hother => Except.ok.inj (hslot.symm.trans hother) ▸ h⟩

instance decidableAllowed : ∀ step, Decidable (Allowed crc session step)
  | .edit edit => inferInstanceAs (Decidable (edit.Allowed _ _))
  | .commit => inferInstanceAs (Decidable (_ < _))
  | .reopen _ => isTrue trivial
  | .crash written _ => inferInstanceAs (Decidable (_ < _ ∧ session.Torn crc written))

end Decidable

/-- Sessions over an arbitrary checksum. -/
def machine (crc : Crc) : Machine Session Step Unit where
  step session step := (session.step crc step, [])

/-- A process that has just created the file, with an empty record. -/
def create (crc : Crc) (g : Geometry) : Except StoreError Session :=
  match ReclaimStore.create crc g {} with
  | .error error => .error error
  | .ok store => .ok ⟨store, {}⟩

/-- The store is sound, and the draft can be committed and keeps every key of the record. -/
structure Sound (crc : Crc) (session : Session) : Prop where
  store : session.store.Sound crc
  draft : session.draft.Fits session.store.geometry
  keys : session.store.record.dictionary.keys <+: session.draft.dictionary.keys

variable {crc : Crc} {session : Session}

/-- Opening a file that is sound for a record continues with that record. -/
theorem reopen_eq (session : Session) {store : ReclaimStore} (h : store.Sound crc)
    (needed : Geometry) :
    ∃ reopened, ReclaimStore.openStore crc store.file needed = .ok reopened ∧
      session.reopen crc store.file needed = ⟨reopened, store.record⟩ ∧
      reopened.record = store.record ∧ (session.reopen crc store.file needed).Sound crc := by
  obtain ⟨reopened, hopen, hsound, hrecord⟩ := h.openStore needed
  have hsession : session.reopen crc store.file needed = ⟨reopened, store.record⟩ := by
    unfold reopen
    rw [hopen, ← hrecord]
  refine ⟨reopened, hopen, hsession, hrecord, ?_⟩
  rw [hsession]
  refine ⟨hsound, ?_, ?_⟩
  · rw [← hrecord]
    exact hsound.fits
  · rw [hrecord]

/-- The commit of a sound session that stopped: the file is sound for the old record or
for the draft. -/
theorem Sound.tornFile (h : session.Sound crc)
    (hgeneration : session.store.generation < lastGeneration) {written : ℕ → Bool}
    (htorn : session.Torn crc written) {slot : List UInt8}
    (hslot : session.store.encodeNext crc session.draft = .ok slot) :
    ∃ left : ReclaimStore, left.file = session.store.tornFile written slot ∧ left.Sound crc ∧
      (left.record = session.store.record ∨ left.record = session.draft) := by
  have hencoded := ReclaimStore.encodeNext_eq_ok crc h.draft hgeneration
  rw [hslot] at hencoded
  exact h.store.tornFile h.draft hgeneration written (Except.ok.inj hencoded) (htorn slot hslot)

/-- An allowed step keeps a session sound, and the completed record keeps its keys. -/
theorem Sound.step (h : session.Sound crc) {step : Step} (hallowed : session.Allowed crc step) :
    (session.step crc step).Sound crc ∧
      session.store.record.dictionary.keys <+:
        (session.step crc step).store.record.dictionary.keys := by
  cases step with
  | edit edit =>
    refine ⟨⟨h.store, h.draft.apply hallowed, ?_⟩, List.prefix_rfl⟩
    exact h.keys.trans (edit.keys_isPrefix _ _)
  | commit =>
    obtain ⟨committed, hcommit, hsound, hrecord, hgeometry, -⟩ :=
      h.store.commit h.draft hallowed
    have hstep : session.step crc .commit = { session with store := committed } := by
      unfold Session.step
      rw [hcommit]
    rw [hstep]
    refine ⟨⟨hsound, ?_, ?_⟩, ?_⟩
    · rw [hgeometry]
      exact h.draft
    · rw [hrecord]
    · rw [hrecord]
      exact h.keys
  | reopen needed =>
    obtain ⟨reopened, -, hsession, hrecord, hsound⟩ := reopen_eq session h.store needed
    refine ⟨hsound, ?_⟩
    change _ <+: (session.reopen crc session.store.file needed).store.record.dictionary.keys
    rw [hsession, hrecord]
  | crash written needed =>
    obtain ⟨hgeneration, htorn⟩ := hallowed
    have hencoded := ReclaimStore.encodeNext_eq_ok crc h.draft hgeneration
    obtain ⟨left, hfile, hleft, hrecord⟩ := h.tornFile hgeneration htorn hencoded
    obtain ⟨reopened, -, hsession, hreopened, hsound⟩ := reopen_eq session hleft needed
    have hstep : session.step crc (.crash written needed) =
        session.reopen crc left.file needed := by
      unfold Session.step
      rw [hencoded, hfile]
    rw [hstep]
    refine ⟨hsound, ?_⟩
    rw [hsession, hreopened]
    rcases hrecord with hold | hnew
    · rw [hold]
    · rw [hnew]
      exact h.keys

/-- A file can be created at every geometry. -/
theorem create_sound (crc : Crc) (g : Geometry) :
    ∃ session, create crc g = .ok session ∧ session.Sound crc := by
  have hpos : firstGeneration ≠ 0 := by decide
  have hle : firstGeneration ≤ lastGeneration := by decide
  obtain ⟨file, hfile, hsound⟩ := ReclaimStore.wholeFile_sound crc (fits_empty g) hpos hle
  refine ⟨⟨⟨file, g, .first, firstGeneration, {}⟩, {}⟩, ?_, hsound, fits_empty g, List.prefix_rfl⟩
  unfold create ReclaimStore.create
  rw [hfile]

/-- A run of allowed steps keeps a session sound, and the completed record keeps its keys. -/
theorem Sound.run (h : session.Sound crc) {steps : List Step}
    (hsteps : (machine crc).Meets (Allowed crc) session steps) :
    ((machine crc).run session steps).1.Sound crc ∧
      session.store.record.dictionary.keys <+:
        ((machine crc).run session steps).1.store.record.dictionary.keys := by
  refine (machine crc).run_preserves_of_meets
    (fun reached => reached.Sound crc ∧
      session.store.record.dictionary.keys <+: reached.store.record.dictionary.keys)
    ?_ ⟨h, List.prefix_rfl⟩ hsteps
  rintro reached step ⟨hreached, hkeys⟩ hallowed
  obtain ⟨hsound, hnext⟩ := hreached.step hallowed
  exact ⟨hsound, hkeys.trans hnext⟩

/-- After every run of allowed steps from a fresh file of any geometry: opening the file
gives back the last completed record; the draft is laid out without an error, in one slot
and with every write inside it; a commit of it that stops after any subset of the bytes
of the inactive slot were written leaves a file that opens to the last completed record or
to the draft; and no slot id of a completed record ever names another key. -/
theorem record_recovered (crc : Crc) (g : Geometry) :
    ∃ start, create crc g = .ok start ∧
      ∀ steps, (machine crc).Meets (Allowed crc) start steps →
        let reached := ((machine crc).run start steps).1
        (∀ needed, ∃ store, ReclaimStore.openStore crc reached.store.file needed = .ok store ∧
          store.record = reached.store.record) ∧
        (reached.store.generation < lastGeneration →
          ∃ slot writes, reached.store.encodeNext crc reached.draft = .ok slot ∧
            slot.length = reached.store.geometry.slotLen ∧
            slotWrites reached.draft reached.store.nextGeneration = .ok writes ∧
            (∀ write ∈ writes, (write.patch reached.store.geometry).Within
              reached.store.geometry.trailerOffset) ∧
            ∀ written, reached.Torn crc written → ∀ needed, ∃ store,
              ReclaimStore.openStore crc (reached.store.tornFile written slot) needed =
                  .ok store ∧
                (store.record = reached.store.record ∨ store.record = reached.draft)) ∧
        ∀ n, ((machine crc).run start (steps.take n)).1.store.record.dictionary.keys <+:
          reached.store.record.dictionary.keys := by
  obtain ⟨start, hcreate, hstart⟩ := create_sound crc g
  refine ⟨start, hcreate, ?_⟩
  intro steps hsteps reached
  obtain ⟨hsound, -⟩ := hstart.run hsteps
  refine ⟨?_, ?_, ?_⟩
  · intro needed
    obtain ⟨store, hopen, -, hrecord⟩ := hsound.store.openStore needed
    exact ⟨store, hopen, hrecord⟩
  · intro hgeneration
    have hencoded := ReclaimStore.encodeNext_eq_ok crc hsound.draft hgeneration
    refine ⟨_, reached.draft.writes reached.store.nextGeneration, hencoded,
      length_sealSlot crc hsound.draft _, hsound.draft.slotWrites, ?_, ?_⟩
    · intro write hwrite
      exact within_of_writes hsound.draft.valid_of_mem_writes le_rfl _
        (List.mem_map_of_mem hwrite)
    · intro written htorn needed
      obtain ⟨left, hfile, hleft, hrecord⟩ := hsound.tornFile hgeneration htorn hencoded
      obtain ⟨store, hopen, -, hreopened⟩ := hleft.openStore needed
      rw [hfile] at hopen
      refine ⟨store, hopen, ?_⟩
      rw [hreopened]
      exact hrecord
  · -- the run after the first steps starts from a sound session
    intro n
    rw [← List.take_append_drop n steps] at hsteps
    obtain ⟨hfirst, hrest⟩ := (machine crc).meets_append.mp hsteps
    obtain ⟨hmiddle, -⟩ := hstart.run hfirst
    have hgrows := (hmiddle.run hrest).2
    have hsplit : ((machine crc).run ((machine crc).run start (steps.take n)).1
        (steps.drop n)).1 = reached := by
      have happend := (machine crc).run_append start (steps.take n) (steps.drop n)
      rw [List.take_append_drop] at happend
      exact (congrArg Prod.fst happend).symm
    rw [hsplit] at hgrows
    exact hgrows

/-- A geometry of one tenant and one row. -/
def single : Geometry := ⟨1, 1, by decide, by decide, by decide, by decide⟩

def pair : Geometry := ⟨2, 2, by decide, by decide, by decide, by decide⟩

/-- A checksum that tells slots of neighbouring generations apart. -/
def firstByte : Crc := fun bytes => (bytes.headD 0).toUInt32

/-- A planned row is committed, the commit that would release it stops after one byte, and
the file is opened again for two tenants. -/
def tornThenWider : List Step :=
  [.edit (.setMode .known), .edit (.assign ['a']),
    .edit (.plan ⟨7, false, OrderedMap.empty.insert 0 ⟨7, 24⟩⟩), .commit, .edit (.release 7),
    .crash (fun position => position < 1) single, .reopen pair]

theorem record_recovered_tornThenWider : ∃ start, create firstByte single = .ok start ∧
    (machine firstByte).Meets (Allowed firstByte) start tornThenWider ∧
    let reached := ((machine firstByte).run start tornThenWider).1
    reached.store.geometry = pair ∧ reached.store.record.planned.map PlannedUnlink.segment = [7] ∧
      ∀ needed, ∃ store, ReclaimStore.openStore firstByte reached.store.file needed = .ok store ∧
        store.record = reached.store.record := by
  obtain ⟨start, hcreate, hrecovered⟩ := record_recovered firstByte single
  have hruns : (create firstByte single).toOption.any (fun start =>
      decide ((machine firstByte).Meets (Allowed firstByte) start tornThenWider ∧
        ((machine firstByte).run start tornThenWider).1.store.geometry = pair ∧
        ((machine firstByte).run start tornThenWider).1.store.record.planned.map
          PlannedUnlink.segment = [7])) = true := by
    decide +kernel
  rw [hcreate] at hruns
  obtain ⟨hmeets, hgeometry, hrows⟩ := of_decide_eq_true hruns
  exact ⟨start, hcreate, hmeets, hgeometry, hrows, (hrecovered tornThenWider hmeets).1⟩

/-- A row planned for a live id, and the id tombstoned after it. -/
def plannedThenTombstoned : List Edit :=
  [.setMode .known, .assign ['a'], .plan ⟨7, false, OrderedMap.empty.insert 0 ⟨7, 24⟩⟩,
    .tombstone 0]

/-- Every edit of the chain is one the format has, and the row named a live id when it was
planned, yet the encoder refuses the record: a planned pair must name a live id. -/
theorem tombstoned_row_refused :
    (((plannedThenTombstoned.take 2).foldl (Edit.apply single) {}).dictionary.isLive 0 = true) ∧
      encodeSlotInto (fun _ => 0) (plannedThenTombstoned.foldl (Edit.apply single) {}) 2 single
          (List.replicate single.slotLen 0) = .error (.pairWithoutTenant 7 0) := by
  decide +kernel

end Session

end Ourios.Reclaim
