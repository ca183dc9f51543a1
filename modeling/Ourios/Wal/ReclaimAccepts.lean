/-
# What a reader of the reclamation record accepts is well formed

`ReclaimDecode` runs the decoder on what the encoder wrote. This module takes any bytes
the decoder accepts: the record they decode to is one the encoder lays out, so a root
whose record was read by this code can go on writing it.
-/

import Ourios.Wal.ReclaimStore

namespace Ourios.Reclaim

open Ourios.Foundation

/-! ## Fields -/

theorem readU64_lt (bytes : List UInt8) (start : ℕ) : readU64 bytes start < 2 ^ 64 := by
  have hle := length_slice_le bytes start 8
  calc readU64 bytes start < 256 ^ (slice bytes start 8).length := ofLeBytes_lt _
    _ ≤ 256 ^ 8 := Nat.pow_le_pow_right (by decide) hle
    _ = 2 ^ 64 := by decide

/-! ## The dictionary -/

section Dictionary

variable {bytes : List UInt8} {g : Geometry} {id nextSlotId : ℕ}

/-- An accepted dictionary record has a key of the length of a tenant. -/
theorem decodeDictRecord_some {key : TenantId} {tombstoned : Bool}
    (hlen : dictRecordLen ≤ bytes.length)
    (h : decodeDictRecord bytes id nextSlotId = .ok (some (key, tombstoned))) :
    1 ≤ key.toUtf8.length ∧ key.toUtf8.length ≤ keyLen := by
  unfold decodeDictRecord at h
  dsimp only at h
  split at h
  · obtain ⟨-, h⟩ := ite_error_eq_ok_iff.mp h
    obtain ⟨_, -, hnone⟩ := bind_eq_ok_iff.mp h
    cases hnone
  · rename_i hpos
    obtain ⟨-, h⟩ := ite_error_eq_ok_iff.mp h
    obtain ⟨hle, h⟩ := ite_error_eq_ok_iff.mp h
    split at h
    · cases h
    · rename_i text htext
      obtain ⟨_, -, hflags⟩ := bind_eq_ok_iff.mp h
      obtain ⟨-, hflags⟩ := ite_error_eq_ok_iff.mp hflags
      cases hflags
      rw [Text.toUtf8_of_fromUtf8 htext, length_slice ?_]
      · exact ⟨Nat.pos_of_ne_zero hpos, Nat.not_lt.mp hle⟩
      · have hkey : (readU16 bytes 0).toNat ≤ keyLen := Nat.not_lt.mp hle
        unfold keyLen at hkey
        unfold dictRecordLen at hlen
        omega

variable {entry : Entry} {dict : DictRecord} {dictionary : Dictionary}

theorem decodeEntry_some (h : decodeEntry bytes id = .ok (some entry)) :
    entry.offset.byte < 2 ^ 64 := by
  obtain ⟨-, h⟩ := ite_error_eq_ok_iff.mp h
  split at h
  · obtain ⟨_, -, hnone⟩ := bind_eq_ok_iff.mp h
    cases hnone
  · obtain ⟨mode, -, hrest⟩ := bind_eq_ok_iff.mp h
    obtain ⟨_, -, hsome⟩ := bind_eq_ok_iff.mp hrest
    cases hsome
    exact readU64_lt _ _

theorem slotRecord_some {key : Option (TenantId × Bool)} {entry : Option Entry}
    (h : slotRecord id key entry = .ok (some dict)) :
    (∃ tombstoned, key = some (dict.key, tombstoned)) ∧
      ∀ held, dict.reclaimed? = some held → entry = some held := by
  unfold slotRecord at h
  split at h
  · cases h
  · cases h
    exact ⟨⟨false, rfl⟩, fun held hheld => hheld⟩
  · cases h
    exact ⟨⟨true, rfl⟩, fun held hheld => nomatch hheld⟩
  · cases h
  · cases h

/-- What one position gives. -/
theorem decodePosition_mem {given : List DictRecord} (hlen : bytes.length = g.slotLen)
    (hid : id < g.maxTenants) (h : decodePosition bytes g nextSlotId id = .ok given)
    (hdict : dict ∈ given) :
    (1 ≤ dict.key.toUtf8.length ∧ dict.key.toUtf8.length ≤ keyLen) ∧
      ∀ entry, dict.reclaimed? = some entry → entry.offset.byte < 2 ^ 64 := by
  obtain ⟨key, hkey, hnext⟩ := bind_eq_ok_iff.mp h
  obtain ⟨entry, hentry, hlast⟩ := bind_eq_ok_iff.mp hnext
  obtain ⟨record, hrecord, hgiven⟩ := bind_eq_ok_iff.mp hlast
  cases hgiven
  cases record with
  | none => cases hdict
  | some found =>
    obtain rfl : dict = found := by simpa using hdict
    obtain ⟨⟨tombstoned, rfl⟩, hheld⟩ := slotRecord_some hrecord
    refine ⟨decodeDictRecord_some ?_ hkey, ?_⟩
    · rw [List.length_drop, hlen, g.slotLen_eq]
      unfold Geometry.dictionaryAt slotHeaderLen dictRecordLen
      omega
    · intro held hsome
      cases hheld held hsome
      exact decodeEntry_some hentry

/-- A position gives at most one record. -/
theorem length_decodePosition {given : List DictRecord}
    (h : decodePosition bytes g nextSlotId id = .ok given) : given.length ≤ 1 := by
  obtain ⟨key, -, hnext⟩ := bind_eq_ok_iff.mp h
  obtain ⟨entry, -, hlast⟩ := bind_eq_ok_iff.mp hnext
  obtain ⟨record, -, hgiven⟩ := bind_eq_ok_iff.mp hlast
  cases hgiven
  exact Option.length_toList_le

/-- What an accepted dictionary satisfies. -/
theorem decodeDictionary_ok {entryCount : ℕ} (hlen : bytes.length = g.slotLen)
    (h : decodeDictionary bytes g nextSlotId entryCount = .ok dictionary) :
    dictionary.records.length ≤ g.maxTenants ∧
      (∀ dict ∈ dictionary.records,
        (1 ≤ dict.key.toUtf8.length ∧ dict.key.toUtf8.length ≤ keyLen) ∧
          ∀ entry, dict.reclaimed? = some entry → entry.offset.byte < 2 ^ 64) ∧
      dictionary.records.Pairwise fun a b =>
        a.isLive = true → b.isLive = true → a.key ≠ b.key := by
  obtain ⟨records, hrecords, hnext⟩ := bind_eq_ok_iff.mp h
  obtain ⟨-, hnext⟩ := ite_error_eq_ok_iff.mp hnext
  obtain ⟨_, hdistinct, hdictionary⟩ := bind_eq_ok_iff.mp hnext
  cases hdictionary
  have hcount : records.length ≤ g.maxTenants := by
    have hle := length_gather_le hrecords fun _ _ => length_decodePosition
    rwa [Geometry.ids, List.length_range] at hle
  refine ⟨hcount, ?_, ?_⟩
  · intro dict hdict
    obtain ⟨id, hid, given, hgiven, hmem⟩ := exists_of_mem_gather hrecords hdict
    exact decodePosition_mem hlen (List.mem_range.mp hid) hgiven hmem
  · exact (Dictionary.live_pairwise_iff (le_trans hcount g.tenants_le)).mp
      (liveKeysAreDistinct_eq_ok_iff.mp hdistinct).2

theorem entriesAgreeWith_ok {recorded : RecordedMode}
    (hlen : dictionary.records.length ≤ maxTenantsCeiling)
    (h : entriesAgreeWith dictionary recorded = .ok ()) (hdict : dict ∈ dictionary.records)
    (hentry : dict.reclaimed? = some entry) :
    recorded.admits entry.mode = true := by
  obtain ⟨id, hget⟩ := List.mem_iff_getElem?.mp hdict
  refine entriesAgreeWith_eq_ok_iff.mp h (id, dict) (List.mem_filter.mpr ⟨?_, ?_⟩) entry hentry
  · exact Dictionary.mem_iter_iff.mpr
      ⟨hget, lt_of_lt_of_le (List.getElem?_eq_some_iff.mp hget).1 hlen⟩
  · obtain ⟨key, state⟩ := dict
    cases state with
    | tombstoned => cases hentry
    | live reclaimedThrough => rfl

end Dictionary

/-! ## The planned rows -/

section Planned

variable {bytes : List UInt8} {g : Geometry} {dictionary : Dictionary} {position : ℕ}

/-- A pair that is present names a live tenant. -/
theorem decodePair_some {id : ℕ} {offset : WalOffset}
    (h : decodePair bytes dictionary position id = .ok (some offset)) :
    dictionary.isLive id = true ∧ offset.byte < 2 ^ 64 := by
  obtain ⟨-, h⟩ := ite_error_eq_ok_iff.mp h
  obtain ⟨_, -, hnext⟩ := bind_eq_ok_iff.mp h
  split at hnext
  · obtain ⟨_, -, hnone⟩ := bind_eq_ok_iff.mp hnext
    cases hnone
  · obtain ⟨hlive, hnext⟩ := ite_error_eq_ok_iff.mp hnext
    cases hnext
    rw [Bool.not_eq_true, Bool.not_eq_false'] at hlive
    exact ⟨hlive, readU64_lt _ _⟩

theorem decodePresent_mem {segment : Uuid} {id : ℕ} {given : List (ℕ × WalOffset)}
    (h : decodePresent bytes g dictionary position segment id = .ok given)
    {pair : ℕ × WalOffset} (hpair : pair ∈ given) :
    dictionary.isLive pair.1 = true ∧ pair.2.segment = segment ∧ pair.2.byte < 2 ^ 64 := by
  obtain ⟨found, hfound, hnext⟩ := bind_eq_ok_iff.mp h
  cases found with
  | none =>
    cases hnext
    cases hpair
  | some offset =>
    obtain ⟨hsegment, hnext⟩ := ite_error_eq_ok_iff.mp hnext
    cases hnext
    obtain rfl : pair = (id, offset) := by simpa using hpair
    obtain ⟨hlive, hbyte⟩ := decodePair_some hfound
    exact ⟨hlive, not_not.mp hsegment, hbyte⟩

/-- What an accepted row satisfies. -/
theorem decodePlannedRecord_some_ok {planned : PlannedUnlink}
    (h : decodePlannedRecord bytes g dictionary position = .ok (some planned)) :
    (∀ pair ∈ planned.lastOffsets.entries, dictionary.isLive pair.1 = true ∧
      pair.2.segment = planned.segment ∧ pair.2.byte < 2 ^ 64) ∧
      planned.lastOffsets.entries.length < 2 ^ 16 := by
  unfold decodePlannedRecord at h
  dsimp only at h
  obtain ⟨-, h⟩ := ite_error_eq_ok_iff.mp h
  obtain ⟨_, -, hnext⟩ := bind_eq_ok_iff.mp h
  obtain ⟨_, -, hflags⟩ := bind_eq_ok_iff.mp hnext
  split at hflags
  · obtain ⟨-, hflags⟩ := ite_error_eq_ok_iff.mp hflags
    obtain ⟨_, -, hzero⟩ := bind_eq_ok_iff.mp hflags
    obtain ⟨_, -, hnone⟩ := bind_eq_ok_iff.mp hzero
    cases hnone
  · obtain ⟨pairs, hpairs, hcount⟩ := bind_eq_ok_iff.mp hflags
    obtain ⟨hlength, hcount⟩ := ite_error_eq_ok_iff.mp hcount
    cases hcount
    refine ⟨?_, ?_⟩
    · intro pair hpair
      obtain ⟨id, -, given, hgiven, hmem⟩ := exists_of_mem_gather hpairs
        (OrderedMap.mem_of_mem_ofList hpair)
      exact decodePresent_mem hgiven hmem
    · rw [← not_not.mp hlength]
      exact UInt16.toNat_lt _

theorem decodeRow_mem {given : List PlannedUnlink}
    (h : decodeRow bytes g dictionary position = .ok given) {planned : PlannedUnlink}
    (hplanned : planned ∈ given) :
    decodePlannedRecord bytes g dictionary position = .ok (some planned) := by
  obtain ⟨record, hrecord, hgiven⟩ := bind_eq_ok_iff.mp h
  cases hgiven
  rw [Option.mem_toList.mp hplanned] at hrecord
  exact hrecord

theorem length_decodeRow {given : List PlannedUnlink}
    (h : decodeRow bytes g dictionary position = .ok given) : given.length ≤ 1 := by
  obtain ⟨record, -, hgiven⟩ := bind_eq_ok_iff.mp h
  cases hgiven
  exact Option.length_toList_le

/-- What the accepted rows satisfy. -/
theorem decodePlanned_ok {planned : List PlannedUnlink} {plannedCount : ℕ}
    (h : decodePlanned bytes g dictionary plannedCount = .ok planned) :
    planned.length ≤ g.maxUnlinksPerPass ∧ planned.length = plannedCount ∧
      ∀ row ∈ planned,
        (∀ pair ∈ row.lastOffsets.entries, dictionary.isLive pair.1 = true ∧
          pair.2.segment = row.segment ∧ pair.2.byte < 2 ^ 64) ∧
        row.lastOffsets.entries.length < 2 ^ 16 := by
  obtain ⟨rows, hrows, hcount⟩ := bind_eq_ok_iff.mp h
  obtain ⟨hlength, hcount⟩ := ite_error_eq_ok_iff.mp hcount
  cases hcount
  refine ⟨?_, not_not.mp hlength, ?_⟩
  · have hle := length_gather_le hrows fun _ _ => length_decodeRow
    rwa [List.length_range] at hle
  · intro row hrow
    obtain ⟨position, -, given, hgiven, hmem⟩ := exists_of_mem_gather hrows hrow
    exact decodePlannedRecord_some_ok (decodeRow_mem hgiven hmem)

end Planned

/-! ## Slots and files -/

variable {g : Geometry}

/-- A slot that is accepted holds a record that can be laid out again. -/
theorem decodeSlot_fits {crc : Crc} {bytes : List UInt8} {decoded : DecodedSlot}
    (h : decodeSlot crc bytes g = .ok decoded) :
    decoded.record.Fits g ∧ decoded.generation ≠ 0 := by
  obtain ⟨hlen, h⟩ := ite_error_eq_ok_iff.mp h
  have hlen : bytes.length = g.slotLen := not_not.mp hlen
  dsimp only at h
  obtain ⟨-, h⟩ := ite_error_eq_ok_iff.mp h
  obtain ⟨_, -, h⟩ := bind_eq_ok_iff.mp h
  obtain ⟨hgeneration, h⟩ := ite_error_eq_ok_iff.mp h
  obtain ⟨witness, -, h⟩ := bind_eq_ok_iff.mp h
  obtain ⟨mode, -, h⟩ := bind_eq_ok_iff.mp h
  obtain ⟨-, h⟩ := ite_error_eq_ok_iff.mp h
  obtain ⟨dictionary, hdictionary, h⟩ := bind_eq_ok_iff.mp h
  obtain ⟨_, hentries, h⟩ := bind_eq_ok_iff.mp h
  obtain ⟨hmode, h⟩ := ite_error_eq_ok_iff.mp h
  obtain ⟨planned, hplanned, h⟩ := bind_eq_ok_iff.mp h
  cases h
  obtain ⟨htenants, hrecords, hdistinct⟩ := decodeDictionary_ok hlen hdictionary
  have hceiling := le_trans htenants g.tenants_le
  obtain ⟨hrows, hplannedCount, hpairs⟩ := decodePlanned_ok hplanned
  refine ⟨⟨htenants, fun dict hdict => (hrecords dict hdict).1, ?_, hdistinct, hrows, ?_,
    fun row hrow => (hpairs row hrow).1, fun row hrow => (hpairs row hrow).2⟩, hgeneration⟩
  · intro dict hdict entry hentry
    exact ⟨entriesAgreeWith_ok hceiling hentries hdict hentry, (hrecords dict hdict).2 entry hentry⟩
  · intro hsome hunrecorded
    apply hmode
    refine ⟨hunrecorded, ?_⟩
    rw [← hplannedCount]
    exact fun hzero => hsome (List.length_eq_zero_iff.mp hzero)

/-- The slot a reader believes is one that was accepted. -/
theorem chooseLive_ok {first second : Except FormatError DecodedSlot} {live : SlotIndex}
    {decoded : DecodedSlot} (h : chooseLive first second = .ok (live, decoded)) :
    first = .ok decoded ∨ second = .ok decoded := by
  unfold chooseLive at h
  split at h
  · split at h
    · cases h
      exact .inl rfl
    · split at h
      · cases h
        exact .inr rfl
      · cases h
  · cases h
    exact .inl rfl
  · cases h
    exact .inr rfl
  · cases h

theorem Geometry.of_new {maxTenants maxUnlinksPerPass : ℕ}
    (h : Geometry.new maxTenants maxUnlinksPerPass = .ok g) :
    g.maxTenants = maxTenants ∧ g.maxUnlinksPerPass = maxUnlinksPerPass := by
  unfold Geometry.new at h
  split at h
  · split at h
    · dsimp only at h
      split at h
      · cases h
        exact ⟨rfl, rfl⟩
      · cases h
    · cases h
  · cases h

namespace ReclaimStore

variable {crc : Crc} {file : List UInt8} {store : ReclaimStore}

theorem decodeFile_fits (h : decodeFile crc file = .ok store) :
    store.record.Fits store.geometry ∧ store.generation ≠ 0 := by
  obtain ⟨-, h⟩ := ite_error_eq_ok_iff.mp h
  split at h
  · cases h
  dsimp only at h
  obtain ⟨-, h⟩ := ite_error_eq_ok_iff.mp h
  split at h
  · cases h
  rename_i live decoded hchosen
  cases h
  obtain hfirst | hsecond := chooseLive_ok hchosen
  · exact decodeSlot_fits hfirst
  · exact decodeSlot_fits hsecond

/-- A file that opens holds a record that fits it, at a geometry that covers what is
needed. -/
theorem openStore_fits {needed : Geometry} (h : openStore crc file needed = .ok store) :
    store.record.Fits store.geometry ∧ store.generation ≠ 0 ∧
      store.geometry.covers needed = true := by
  unfold openStore at h
  split at h
  · cases h
  rename_i found hfound
  obtain ⟨hfits, hgeneration⟩ := decodeFile_fits hfound
  split at h
  · rename_i hcovers
    cases h
    exact ⟨hfits, hgeneration, hcovers⟩
  · unfold rebuild at h
    split at h
    · cases h
    rename_i wider hwider
    split at h
    · cases h
    cases h
    obtain ⟨htenants, hunlinks⟩ := Geometry.of_new hwider
    refine ⟨hfits.of_le ?_ ?_, hgeneration, ?_⟩
    · rw [htenants]
      exact le_max_left _ _
    · rw [hunlinks]
      exact le_max_left _ _
    · rw [Geometry.covers, htenants, hunlinks, Bool.and_eq_true]
      exact ⟨decide_eq_true (le_max_right _ _), decide_eq_true (le_max_right _ _)⟩

end ReclaimStore

end Ourios.Reclaim
