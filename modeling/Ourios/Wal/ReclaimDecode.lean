/-
# A slot that holds a record decodes to it

The decoder is run on the content of each cell: a block gives back the structure it was
written from, zeros give back its absence. The loops over ids and positions then give
back the dictionary and the planned rows, and every check of the decoder passes.
-/

import Ourios.Wal.ReclaimRoundTrip

namespace Ourios.Reclaim

open Ourios.Foundation

/-! ## Fields -/

section Fields

variable {bytes : List UInt8} {start : ℕ}

theorem readU16_of_slice {value : UInt16} (h : slice bytes start 2 = writeU16 value) :
    readU16 bytes start = value := by
  have hlt : value.toNat < 256 ^ 2 := value.toNat_lt
  unfold readU16
  rw [h, writeU16, ofLeBytes_leBytes hlt, UInt16.ofNat_toNat]

variable {value : ℕ}

theorem readU16_toNat_of_slice (h : slice bytes start 2 = leBytes 2 value) (hlt : value < 2 ^ 16) :
    (readU16 bytes start).toNat = value := by
  unfold readU16
  rw [h, ofLeBytes_leBytes (lt_of_lt_of_eq hlt (by decide)), UInt16.toNat_ofNat_of_lt' hlt]

theorem readU32_of_slice (h : slice bytes start 4 = leBytes 4 value) (hlt : value < 2 ^ 32) :
    readU32 bytes start = value := by
  unfold readU32
  rw [h, ofLeBytes_leBytes (lt_of_lt_of_eq hlt (by decide))]

theorem readU64_of_slice (h : slice bytes start 8 = leBytes 8 value) (hlt : value < 2 ^ 64) :
    readU64 bytes start = value := by
  unfold readU64
  rw [h, ofLeBytes_leBytes (lt_of_lt_of_eq hlt (by decide))]

theorem readU8_of_slice {value : UInt8} (h : slice bytes start 1 = [value]) :
    readU8 bytes start = value := by
  unfold readU8
  rw [h]
  change UInt8.ofNat (value.toNat + 256 * 0) = value
  rw [Nat.mul_zero, Nat.add_zero, UInt8.ofNat_toNat]

theorem readUuid_of_slice {uuid : Uuid} (h : slice bytes start 16 = beBytes 16 uuid.val) :
    readUuid bytes start = uuid := by
  have hlt : uuid.val < 256 ^ 16 := lt_of_lt_of_eq uuid.isLt (by decide)
  unfold readUuid
  rw [h, ofBeBytes_beBytes hlt]
  exact Fin.ofNat_val_eq_self uuid

theorem readOffset_of_slice {offset : WalOffset} (h : slice bytes start 24 = writeOffset offset)
    (hlt : offset.byte < 2 ^ 64) : readOffset bytes start = offset := by
  have hsegment : slice bytes start 16 = beBytes 16 offset.segment.val := by
    have hinner := @slice_slice _ bytes start 24 0 16 (by decide)
    rw [← Nat.add_zero start, ← hinner, h]
    exact slice_append_self (length_beBytes _ _)
  have hbyte : slice bytes (start + 16) 8 = leBytes 8 offset.byte := by
    rw [← @slice_slice _ bytes start 24 16 8 (by decide), h]
    exact slice_between (beBytes 16 offset.segment.val) (leBytes 8 offset.byte) []
      (by rw [List.append_nil, writeOffset]) (length_beBytes _ _) (length_leBytes _ _)
  unfold readOffset
  rw [readUuid_of_slice hsegment, readU64_of_slice hbyte hlt]

theorem reservedZero_of_slice {stop count : ℕ} {field : String}
    (h : slice bytes start (stop - start) = List.replicate count 0) :
    reservedZero bytes start stop field = .ok () := by
  have hnone : (List.replicate count (0 : UInt8)).findIdx? (fun byte => byte ≠ 0) = none := by
    rw [List.findIdx?_eq_none_iff]
    intro byte hbyte
    rw [(List.mem_replicate.mp hbyte).2]
    rfl
  unfold reservedZero
  rw [h, hnone]

theorem reservedZero_add_of_slice {base stop n : ℕ} {field : String}
    (h : slice bytes (base + start) (stop - start) = List.replicate n 0) :
    reservedZero bytes (base + start) (base + stop) field = .ok () :=
  reservedZero_of_slice (by rw [Nat.add_sub_add_left, h])

end Fields

/-! ## Flags and modes -/

theorem WitnessFlags.fromBits_bits (flags : WitnessFlags) :
    WitnessFlags.fromBits flags.bits = .ok flags := by
  obtain ⟨checkpoint, seeding⟩ := flags
  cases checkpoint <;> cases seeding <;> rfl

theorem RecordedMode.fromCode_code (mode : RecordedMode) :
    RecordedMode.fromCode mode.code = .ok mode := by
  cases mode <;> rfl

theorem EntryMode.fromCode_code (mode : EntryMode) :
    EntryMode.fromCode mode.code = .ok mode := by
  cases mode <;> rfl

/-! ## Cells -/

/-- Zeros at the head of a suffix. -/
theorem slice_zeros {size start count : ℕ} (rest : List UInt8) (h : start + count ≤ size) :
    slice (List.replicate size (0 : UInt8) ++ rest) start count = List.replicate count 0 := by
  rw [slice_append_left (by rw [List.length_replicate]; exact h), slice_replicate h]

theorem readU16_zeros {size start : ℕ} (rest : List UInt8) (h : start + 2 ≤ size) :
    readU16 (List.replicate size (0 : UInt8) ++ rest) start = 0 :=
  readU16_of_slice (slice_zeros rest h)

theorem decodeEntry_zeros (rest : List UInt8) (id : ℕ) :
    decodeEntry (List.replicate entryLen 0 ++ rest) id = .ok none := by
  have hflags : readU16 (List.replicate entryLen 0 ++ rest) 0 = 0 := readU16_zeros rest (by decide)
  have hzero : slice (List.replicate entryLen 0 ++ rest) 2 (entryLen - 2) =
      List.replicate 30 0 := slice_zeros rest (by decide)
  unfold decodeEntry
  rw [hflags, if_neg (by decide), if_pos (by decide), reservedZero_of_slice hzero]
  rfl

theorem decodeEntry_entryBlock {entry : Entry} (h : entry.offset.byte < 2 ^ 64)
    (rest : List UInt8)
    (id : ℕ) : decodeEntry (entryBlock entry ++ rest) id = .ok (some entry) := by
  have hlayout : entryBlock entry ++ rest = [writeU16 entryOccupied, writeU16 entry.mode.code,
      List.replicate 4 0, writeOffset entry.offset].flatten ++ rest := by
    simp [entryBlock]
  have hflags : readU16 (entryBlock entry ++ rest) 0 = entryOccupied :=
    readU16_of_slice (slice_field hlayout 0)
  have hmode : readU16 (entryBlock entry ++ rest) 2 = entry.mode.code :=
    readU16_of_slice (slice_field hlayout 1)
  have hzero : slice (entryBlock entry ++ rest) 4 (8 - 4) = List.replicate 4 0 :=
    slice_field hlayout 2
  have hoffset : readOffset (entryBlock entry ++ rest) 8 = entry.offset :=
    readOffset_of_slice (slice_field hlayout 3) h
  unfold decodeEntry
  rw [hflags, if_neg (by decide), if_neg (by decide), hmode, EntryMode.fromCode_code]
  rw [reservedZero_of_slice hzero, hoffset]
  rfl

theorem decodePair_zeros (rest : List UInt8) (dictionary : Dictionary) (position id : ℕ) :
    decodePair (List.replicate pairLen 0 ++ rest) dictionary position id = .ok none := by
  have hflags : readU16 (List.replicate pairLen 0 ++ rest) 0 = 0 := readU16_zeros rest (by decide)
  have hzero : slice (List.replicate pairLen 0 ++ rest) 2 (8 - 2) = List.replicate 6 0 :=
    slice_zeros rest (by decide)
  have hzero' : slice (List.replicate pairLen 0 ++ rest) 8 (pairLen - 8) = List.replicate 24 0 :=
    slice_zeros rest (by decide)
  unfold decodePair
  rw [hflags, if_neg (by decide), reservedZero_of_slice hzero, if_pos (by decide),
    reservedZero_of_slice hzero']
  rfl

variable {id : ℕ}

theorem decodePair_pairBlock {offset : WalOffset} (h : offset.byte < 2 ^ 64) (rest : List UInt8)
    {dictionary : Dictionary} (hlive : dictionary.isLive id = true) (position : ℕ) :
    decodePair (pairBlock offset ++ rest) dictionary position id = .ok (some offset) := by
  have hlayout : pairBlock offset ++ rest = [writeU16 pairPresent, List.replicate 6 0,
      writeOffset offset].flatten ++ rest := by
    simp [pairBlock]
  have hflags : readU16 (pairBlock offset ++ rest) 0 = pairPresent :=
    readU16_of_slice (slice_field hlayout 0)
  have hzero : slice (pairBlock offset ++ rest) 2 (8 - 2) = List.replicate 6 0 :=
    slice_field hlayout 1
  have hoffset : readOffset (pairBlock offset ++ rest) 8 = offset :=
    readOffset_of_slice (slice_field hlayout 2) h
  unfold decodePair
  rw [hflags, if_neg (by decide), reservedZero_of_slice hzero, if_neg (by decide), hlive, hoffset]
  rfl

theorem decodeDictRecord_zeros (rest : List UInt8) {nextSlotId : ℕ} (h : nextSlotId ≤ id) :
    decodeDictRecord (List.replicate dictRecordLen 0 ++ rest) id nextSlotId = .ok none := by
  have hlen : readU16 (List.replicate dictRecordLen 0 ++ rest) 0 = 0 :=
    readU16_zeros rest (by decide)
  have hzero : slice (List.replicate dictRecordLen 0 ++ rest) 2 (dictRecordLen - 2) =
      List.replicate 130 0 := slice_zeros rest (by decide)
  unfold decodeDictRecord
  rw [hlen, if_pos (by decide), if_neg (Nat.not_lt.mpr h), reservedZero_of_slice hzero]
  rfl

theorem decodeDictRecord_dictBlock {dict : DictRecord} (hpos : 1 ≤ dict.key.toUtf8.length)
    (hle : dict.key.toUtf8.length ≤ keyLen) (rest : List UInt8) {nextSlotId : ℕ}
    (hid : id < nextSlotId) :
    decodeDictRecord (dictBlock dict ++ rest) id nextSlotId =
      .ok (some (dict.key, !dict.isLive)) := by
  have hshort : dict.key.toUtf8.length ≤ 128 := hle
  have hlayout : dictBlock dict ++ rest = [leBytes 2 dict.key.toUtf8.length, dict.key.toUtf8,
      List.replicate (keyLen - dict.key.toUtf8.length) 0, writeU16 dict.flags].flatten ++ rest := by
    simp [dictBlock]
  have hlen : (readU16 (dictBlock dict ++ rest) 0).toNat = dict.key.toUtf8.length :=
    readU16_toNat_of_slice (slice_field hlayout 0) (by omega)
  have hkey : slice (dictBlock dict ++ rest) 2 dict.key.toUtf8.length = dict.key.toUtf8 :=
    slice_field hlayout 1
  have hpadding : slice (dictBlock dict ++ rest) (2 + dict.key.toUtf8.length)
      (130 - (2 + dict.key.toUtf8.length)) =
        List.replicate (keyLen - dict.key.toUtf8.length) 0 := by
    refine slice_field hlayout 2 rfl (by simp) ?_
    rw [List.length_replicate, keyLen]
    omega
  have hflags : readU16 (dictBlock dict ++ rest) 130 = dict.flags := by
    refine readU16_of_slice (slice_field hlayout 3 rfl ?_ rfl)
    simp [keyLen]
    omega
  unfold decodeDictRecord
  rw [hlen, if_neg (by omega), if_neg (not_not.mpr hid), if_neg (Nat.not_lt.mpr hle), hkey,
    Text.fromUtf8_toUtf8]
  rw [reservedZero_of_slice hpadding, hflags]
  unfold DictRecord.flags
  cases dict.isLive <;> rfl

/-! ## The dictionary -/

section Slot

variable {crc : Crc} {g : Geometry} {bytes : List UInt8} {record : ReclaimRecord}
  {generation : ℕ}

/-- The bytes from a cell on start with its content. -/
theorem Holds.drop_start {block? : Cell → Option (List UInt8)} (h : Holds crc g bytes block?)
    {c : Cell} (hc : c.Valid g) :
    bytes.drop (c.start g) =
      (block? c).getD (List.replicate c.size 0) ++ (bytes.drop (c.start g)).drop c.size :=
  drop_eq_append (h.cell c hc)

theorem slotRecord_eq_ok (id : ℕ) (dict : DictRecord) :
    slotRecord id (some (dict.key, !dict.isLive)) dict.reclaimed? = .ok (some dict) := by
  obtain ⟨key, state⟩ := dict
  cases state <;> rfl

/-- The check of the live keys passes where no key was seen before and none stands twice. -/
theorem liveKeysAreDistinct_eq_ok_iff {items : List (ℕ × DictRecord)}
    {seen : List (TenantId × ℕ)} : liveKeysAreDistinct seen items = .ok () ↔
      (∀ item ∈ items, ∀ held ∈ seen, held.1 ≠ item.2.key) ∧
        items.Pairwise fun a b => a.2.key ≠ b.2.key := by
  induction items generalizing seen with
  | nil => exact ⟨fun _ => ⟨nofun, .nil⟩, fun _ => rfl⟩
  | cons item items ih =>
    obtain ⟨id, dict⟩ := item
    have hlookup : seen.lookup dict.key = none ↔ ∀ held ∈ seen, held.1 ≠ dict.key := by
      simp only [List.lookup_eq_none_iff, bne_iff_ne, ne_comm]
    unfold liveKeysAreDistinct
    cases hseen : seen.lookup dict.key with
    | some first =>
      refine ⟨nofun, fun h => ?_⟩
      rw [hlookup.mpr (h.1 _ List.mem_cons_self)] at hseen
      cases hseen
    | none =>
      have hfirst := hlookup.mp hseen
      simp only [ih, List.forall_mem_cons, List.pairwise_cons]
      grind

/-- No two live records name one key, seen from the list of them and from the records. -/
theorem Dictionary.live_pairwise_iff {dictionary : Dictionary}
    (hlen : dictionary.records.length ≤ maxTenantsCeiling) :
    (dictionary.live.Pairwise fun a b => a.2.key ≠ b.2.key) ↔
      dictionary.records.Pairwise fun a b =>
        a.isLive = true → b.isLive = true → a.key ≠ b.key := by
  have hiter : dictionary.iter = dictionary.records.zipIdx.map fun item => (item.2, item.1) := by
    rw [← List.filterMap_eq_map]
    apply List.filterMap_congr
    rintro ⟨record, index⟩ hmem
    have hget := List.mem_zipIdx_iff_getElem?.mp hmem
    exact if_pos (lt_of_lt_of_le (List.getElem?_eq_some_iff.mp hget).1 hlen)
  unfold Dictionary.live
  rw [List.pairwise_filter, hiter, List.pairwise_map]
  nth_rewrite 2 [← List.zipIdx_map_fst 0 dictionary.records]
  rw [List.pairwise_map]

theorem entriesAgreeWith_eq_ok_iff {dictionary : Dictionary} {recorded : RecordedMode} :
    entriesAgreeWith dictionary recorded = .ok () ↔
      ∀ item ∈ dictionary.live, ∀ entry, item.2.reclaimed? = some entry →
        recorded.admits entry.mode = true := by
  unfold entriesAgreeWith
  dsimp only
  split
  · rename_i error hrefused
    refine ⟨nofun, fun h => ?_⟩
    obtain ⟨⟨id, key, state⟩, hitem, hsome⟩ := List.exists_of_findSome?_eq_some hrefused
    have hadmits := h _ hitem
    grind [DictRecord.reclaimed?]
  · rename_i hnone
    refine ⟨fun _ => ?_, fun _ => rfl⟩
    rintro ⟨id, key, state⟩ hitem entry hentry
    have hpassed := List.findSome?_eq_none_iff.mp hnone _ hitem
    grind [DictRecord.reclaimed?]

theorem ReclaimRecord.Fits.entriesAgreeWith (h : record.Fits g) :
    Reclaim.entriesAgreeWith record.dictionary record.consumerMode = .ok () := by
  rw [entriesAgreeWith_eq_ok_iff]
  rintro ⟨id, dict⟩ hitem entry hentry
  have hget := (Dictionary.mem_iter_iff.mp (List.mem_of_mem_filter hitem)).1
  exact (h.entries dict (Dictionary.mem_of_get hget) entry hentry).1

theorem occupiedEntries_le (dictionary : Dictionary) :
    occupiedEntries dictionary ≤ dictionary.records.length := by
  calc occupiedEntries dictionary ≤ dictionary.iter.length := List.length_filter_le _ _
    _ ≤ dictionary.records.zipIdx.length := List.length_filterMap_le _ _
    _ = dictionary.records.length := List.length_zipIdx

variable (hfits : record.Fits g) (h : Holds crc g bytes (record.block? generation))

section

include hfits h

/-- A position gives back its dictionary record, where it has one. -/
theorem decodePosition_eq_ok {id : ℕ} (hid : id < g.maxTenants) :
    decodePosition bytes g record.dictionary.nextSlotId id =
      .ok (record.dictionary.get id).toList := by
  have hrecord := h.drop_start (c := .dictionary id) hid
  have hentry := h.drop_start (c := .entry id) hid
  change bytes.drop (Geometry.dictionaryAt id) =
    ((record.dictionary.get id).map dictBlock).getD (List.replicate dictRecordLen 0) ++ _ at hrecord
  change bytes.drop (g.entryAt id) =
    (((record.dictionary.get id).bind DictRecord.reclaimed?).map entryBlock).getD
      (List.replicate entryLen 0) ++ _ at hentry
  unfold decodePosition
  rw [hrecord, hentry]
  cases hget : record.dictionary.get id with
  | none =>
    have hnext : record.dictionary.nextSlotId ≤ id := List.getElem?_eq_none_iff.mp hget
    rw [Option.map_none, Option.getD_none, decodeDictRecord_zeros _ hnext, Option.bind_none,
      Option.map_none, Option.getD_none, decodeEntry_zeros]
    rfl
  | some dict =>
    have hmem := Dictionary.mem_of_get hget
    have hnext : id < record.dictionary.nextSlotId := Dictionary.lt_of_get hget
    obtain ⟨hpos, hle⟩ := hfits.keys dict hmem
    have hdecoded : decodeEntry
        ((dict.reclaimed?.map entryBlock).getD (List.replicate entryLen 0) ++
        (bytes.drop (Cell.start g (.entry id))).drop (Cell.size (.entry id))) id =
          .ok dict.reclaimed? := by
      cases hsome : dict.reclaimed? with
      | none => exact decodeEntry_zeros _ id
      | some entry => exact decodeEntry_entryBlock (hfits.entries dict hmem entry hsome).2 _ id
    rw [Option.map_some, Option.getD_some,
      decodeDictRecord_dictBlock hpos hle _ hnext, Option.bind_some, hdecoded]
    change (slotRecord id (some (dict.key, !dict.isLive)) dict.reclaimed? >>= _) = _
    rw [slotRecord_eq_ok]
    rfl

/-- The dictionary of a record that fits reads back. -/
theorem decodeDictionary_eq_ok :
    decodeDictionary bytes g record.dictionary.nextSlotId (occupiedEntries record.dictionary) =
      .ok record.dictionary := by
  have hrecords : g.ids.flatMap (fun id => (record.dictionary.get id).toList) =
      record.dictionary.records := flatMap_range_getElem? hfits.tenants
  have hgather : gather (decodePosition bytes g record.dictionary.nextSlotId) g.ids =
      .ok (g.ids.flatMap fun id => (record.dictionary.get id).toList) :=
    gather_eq_ok fun id hid => decodePosition_eq_ok hfits h (List.mem_range.mp hid)
  have hdistinct : liveKeysAreDistinct [] record.dictionary.live = .ok () :=
    liveKeysAreDistinct_eq_ok_iff.mpr ⟨fun _ _ => nofun, (Dictionary.live_pairwise_iff
      (le_trans hfits.tenants g.tenants_le)).mpr hfits.distinct⟩
  unfold decodeDictionary
  rw [hgather, hrecords]
  change (if occupiedEntries record.dictionary ≠ occupiedEntries record.dictionary then _
    else _ : Except FormatError Dictionary) = _
  rw [if_neg (not_not.mpr rfl)]
  rw [hdistinct]
  rfl

end

/-! ## The planned rows -/

variable {position : ℕ} {planned : PlannedUnlink}

/-- A field of a planned record, read at its absolute position. -/
theorem Holds.slice_planned {block? : Cell → Option (List UInt8)} (h : Holds crc g bytes block?)
    (hposition : position < g.maxUnlinksPerPass) {start size : ℕ}
    (hsize : start + size ≤ plannedHeaderLen) :
    slice bytes (g.plannedAt position + start) size =
      slice ((block? (.planned position)).getD (List.replicate plannedHeaderLen 0)) start size := by
  have hcell := h.cell (.planned position) hposition
  change slice bytes (g.plannedAt position) plannedHeaderLen = _ at hcell
  rw [← slice_slice hsize, hcell]
  rfl

include h

/-- A position no row takes reads as absent: its whole stride is zero. -/
theorem decodePlannedRecord_none
    (hposition : position < g.maxUnlinksPerPass) (hget : record.planned[position]? = none) :
    decodePlannedRecord bytes g record.dictionary position = .ok none := by
  have hblock : record.block? generation (.planned position) = none := by
    change record.planned[position]?.map plannedBlock = none
    rw [hget]
    rfl
  have hzero : ∀ start size, start + size ≤ plannedHeaderLen →
      slice bytes (g.plannedAt position + start) size = List.replicate size 0 := by
    intro start size hsize
    rw [h.slice_planned hposition hsize, hblock]
    exact slice_replicate hsize
  have hflags : readU8 bytes (g.plannedAt position + 22) = 0 :=
    readU8_of_slice (hzero 22 1 (by decide))
  have hfirst : reservedZero bytes (g.plannedAt position + 18) (g.plannedAt position + 22)
      "planned record" = .ok () := reservedZero_add_of_slice (hzero 18 4 (by decide))
  have hlast : reservedZero bytes (g.plannedAt position + 23) (g.plannedAt position + 24)
      "planned record" = .ok () := reservedZero_add_of_slice (hzero 23 1 (by decide))
  have hhead : slice bytes (g.plannedAt position)
      (g.plannedAt position + 18 - g.plannedAt position) = List.replicate 18 0 := by
    rw [Nat.add_sub_cancel_left]
    exact hzero 0 18 (by decide)
  have hpairs : reservedZero bytes (g.plannedAt position + 24)
      (g.plannedAt position + g.plannedStride) "planned pairs" = .ok () := by
    apply reservedZero_add_of_slice
    rw [g.plannedStride_eq, Nat.add_sub_cancel_left]
    apply slice_blocks
    intro id hid
    have hcell := h.cell (.pair position id) ⟨hposition, hid⟩
    change slice bytes (g.pairAt position id) pairLen =
      ((record.planned[position]?.bind fun planned => planned.lastOffsets.lookup id).map
        pairBlock).getD (List.replicate pairLen 0) at hcell
    rw [hget, g.pairAt_eq, ← Nat.add_assoc] at hcell
    exact hcell
  unfold decodePlannedRecord
  dsimp only
  rw [hflags, if_neg (by decide), hfirst, hlast, if_pos (by decide), if_neg (by decide),
    reservedZero_of_slice hhead,
    hpairs]
  rfl

include hfits

section

variable (hget : record.planned[position]? = some planned)
  (hposition : position < g.maxUnlinksPerPass)
include hget hposition

/-- A pair gives back its offset, where the row has one for the id. -/
theorem decodePresent_eq_ok {id : ℕ} (hid : id < g.maxTenants) :
    decodePresent bytes g record.dictionary position planned.segment id =
      .ok ((planned.lastOffsets.lookup id).map fun offset => (id, offset)).toList := by
  have hpair := h.drop_start (c := .pair position id) ⟨hposition, hid⟩
  change bytes.drop (g.pairAt position id) =
    ((record.planned[position]?.bind fun planned => planned.lastOffsets.lookup id).map
      pairBlock).getD (List.replicate pairLen 0) ++ _ at hpair
  unfold decodePresent
  rw [hpair, hget, Option.bind_some]
  cases hlookup : planned.lastOffsets.lookup id with
  | none =>
    rw [Option.map_none, Option.getD_none, decodePair_zeros]
    rfl
  | some offset =>
    obtain ⟨hlive, hsegment, hbyte⟩ := hfits.pairs planned (List.mem_of_getElem? hget)
      (id, offset) (OrderedMap.lookup_eq_some_iff.mp hlookup)
    rw [Option.map_some, Option.getD_some, decodePair_pairBlock hbyte _ hlive]
    change (if offset.segment ≠ planned.segment then _ else _ :
      Except FormatError (List (ℕ × WalOffset))) = _
    rw [if_neg (not_not.mpr hsegment)]
    rfl

/-- The pairs of a row read back in the order of their ids. -/
theorem gather_decodePresent :
    gather (decodePresent bytes g record.dictionary position planned.segment) g.ids =
      .ok planned.lastOffsets.entries := by
  have hgather : gather (decodePresent bytes g record.dictionary position planned.segment) g.ids =
      .ok (g.ids.flatMap fun id =>
        ((planned.lastOffsets.lookup id).map fun offset => (id, offset)).toList) :=
    gather_eq_ok fun id hid =>
      decodePresent_eq_ok hfits h hget hposition (List.mem_range.mp hid)
  rw [hgather]
  refine congrArg Except.ok (planned.lastOffsets.flatMap_lookup List.pairwise_lt_range ?_)
  intro pair hpair
  obtain ⟨hlive, -, -⟩ := hfits.pairs planned (List.mem_of_getElem? hget) pair hpair
  exact List.mem_range.mpr (lt_of_lt_of_le (Dictionary.lt_of_isLive hlive) hfits.tenants)

/-- A position a row takes gives the row back. -/
theorem decodePlannedRecord_some :
    decodePlannedRecord bytes g record.dictionary position = .ok (some planned) := by
  have hblock : record.block? generation (.planned position) = some (plannedBlock planned) := by
    change record.planned[position]?.map plannedBlock = _
    rw [hget]
    rfl
  have hread : ∀ start size {piece}, start + size ≤ plannedHeaderLen →
      slice (plannedBlock planned) start size = piece →
        slice bytes (g.plannedAt position + start) size = piece := by
    rintro start size _ hsize rfl
    rw [h.slice_planned hposition hsize, hblock, Option.getD_some]
  have hlayout : plannedBlock planned = [beBytes 16 planned.segment.val,
      leBytes 2 planned.lastOffsets.entries.length, List.replicate 4 0, [planned.flags],
      [0]].flatten ++ [] := by
    simp [plannedBlock]
  have hsegment : readUuid bytes (g.plannedAt position) = planned.segment :=
    readUuid_of_slice (hread 0 16 (by decide) (slice_field hlayout 0))
  have hcount : (readU16 bytes (g.plannedAt position + 16)).toNat =
      planned.lastOffsets.entries.length :=
    readU16_toNat_of_slice (hread 16 2 (by decide) (slice_field hlayout 1))
      (hfits.counts planned (List.mem_of_getElem? hget))
  have hfirst : reservedZero bytes (g.plannedAt position + 18) (g.plannedAt position + 22)
      "planned record" = .ok () :=
    reservedZero_add_of_slice (hread 18 4 (by decide) (slice_field hlayout 2))
  have hflags : readU8 bytes (g.plannedAt position + 22) = planned.flags :=
    readU8_of_slice (hread 22 1 (by decide) (slice_field hlayout 3))
  have hlast : reservedZero bytes (g.plannedAt position + 23) (g.plannedAt position + 24)
      "planned record" = .ok () :=
    reservedZero_add_of_slice (n := 1) (hread 23 1 (by decide) (slice_field hlayout 4))
  have hoccupied : planned.flags &&& ~~~(plannedOccupied ||| plannedUncertain) = 0 ∧
      planned.flags &&& plannedOccupied ≠ 0 ∧
        decide (planned.flags &&& plannedUncertain ≠ 0) = planned.uncertain := by
    unfold PlannedUnlink.flags
    cases planned.uncertain <;> decide
  obtain ⟨hknown, htaken, huncertain⟩ := hoccupied
  unfold decodePlannedRecord
  dsimp only
  rw [hflags, if_neg (not_not.mpr hknown), hfirst, hlast, if_neg htaken, hsegment,
    gather_decodePresent hfits h hget hposition, hcount]
  change (if planned.lastOffsets.entries.length ≠
    (OrderedMap.ofList planned.lastOffsets.entries).entries.length then _ else _ :
      Except FormatError (Option PlannedUnlink)) = _
  rw [OrderedMap.ofList_entries, if_neg (not_not.mpr rfl), huncertain]
  rfl

end

theorem decodePlanned_eq_ok :
    decodePlanned bytes g record.dictionary record.planned.length = .ok record.planned := by
  have hrow : ∀ position ∈ List.range g.maxUnlinksPerPass,
      decodeRow bytes g record.dictionary position = .ok record.planned[position]?.toList := by
    intro position hmem
    have hposition := List.mem_range.mp hmem
    unfold decodeRow
    cases hget : record.planned[position]? with
    | none =>
      rw [decodePlannedRecord_none h hposition hget]
      rfl
    | some planned =>
      rw [decodePlannedRecord_some hfits h hget hposition]
      rfl
  have hrows : (List.range g.maxUnlinksPerPass).flatMap
      (fun position => record.planned[position]?.toList) = record.planned :=
    flatMap_range_getElem? hfits.rows
  unfold decodePlanned
  rw [gather_eq_ok hrow, hrows]
  change (if record.planned.length ≠ record.planned.length then _ else _ :
    Except FormatError (List PlannedUnlink)) = _
  rw [if_neg (not_not.mpr rfl)]
  rfl

/-! ## The slot -/

structure HeaderFields (bytes : List UInt8) (record : ReclaimRecord) (generation : ℕ) : Prop where
  generation : readU64 bytes 0 = generation
  entryCount : readU32 bytes 8 = occupiedEntries record.dictionary
  plannedCount : readU32 bytes 12 = record.planned.length
  witness : readU16 bytes 16 = record.witness.bits
  mode : readU16 bytes 18 = record.consumerMode.code
  nextSlotId : readU32 bytes 20 = record.dictionary.nextSlotId

theorem Holds.headerFields (hgeneration : generation < 2 ^ 64) :
    HeaderFields bytes record generation := by
  have hread : ∀ {start size piece}, start + size ≤ slotHeaderLen →
      slice (headerBlock record generation (occupiedEntries record.dictionary)) start size = piece →
        slice bytes start size = piece := by
    rintro start size _ hsize rfl
    have hcell := h.cell .header trivial
    change slice bytes 0 slotHeaderLen =
      headerBlock record generation (occupiedEntries record.dictionary) at hcell
    rw [← hcell, slice_slice hsize, Nat.zero_add]
  have htenants : record.dictionary.records.length ≤ 65536 := le_trans hfits.tenants g.tenants_le
  have hrows : record.planned.length ≤ 65536 := le_trans hfits.rows g.unlinks_le
  have hentries := occupiedEntries_le record.dictionary
  have hlayout : headerBlock record generation (occupiedEntries record.dictionary) =
      [leBytes 8 generation, leBytes 4 (occupiedEntries record.dictionary),
        leBytes 4 record.planned.length, writeU16 record.witness.bits,
        writeU16 record.consumerMode.code, leBytes 4 record.dictionary.nextSlotId].flatten ++
          [] := by
    simp [headerBlock]
  constructor
  · exact readU64_of_slice (hread (by decide) (slice_field hlayout 0))
      hgeneration
  · exact readU32_of_slice (hread (by decide) (slice_field hlayout 1))
      (by omega)
  · exact readU32_of_slice (hread (by decide) (slice_field hlayout 2))
      (by omega)
  · exact readU16_of_slice (hread (by decide) (slice_field hlayout 3))
  · exact readU16_of_slice (hread (by decide) (slice_field hlayout 4))
  · exact readU32_of_slice (hread (by decide) (slice_field hlayout 5))
      (by unfold Dictionary.nextSlotId; omega)

/-- A slot that holds a record that fits decodes to the record at its generation. -/
theorem Holds.decodeSlot (hpos : generation ≠ 0)
    (hgeneration : generation < 2 ^ 64) :
    Reclaim.decodeSlot crc bytes g = .ok ⟨generation, record⟩ := by
  have hfields := h.headerFields hfits hgeneration
  have hsum : readU32 bytes g.trailerOffset = (crc (bytes.take g.trailerOffset)).toNat :=
    readU32_of_slice h.checksum (UInt32.toNat_lt _)
  have hreserved : reservedZero bytes (g.trailerOffset + 4) (g.trailerOffset + 8) "slot trailer" =
      .ok () := reservedZero_add_of_slice h.reserved
  have hmode : ¬ (record.consumerMode = .unrecorded ∧ record.planned.length ≠ 0) := by
    rintro ⟨hunrecorded, hplanned⟩
    exact hfits.mode (fun hnil => hplanned (congrArg List.length hnil)) hunrecorded
  have hnext : ¬ g.maxTenants < record.dictionary.nextSlotId := Nat.not_lt.mpr hfits.tenants
  unfold Reclaim.decodeSlot
  rw [if_neg (not_not.mpr h.length), hsum, if_neg (not_not.mpr rfl),
    hreserved, hfields.generation, if_neg hpos, hfields.witness,
    WitnessFlags.fromBits_bits, hfields.mode, RecordedMode.fromCode_code, hfields.nextSlotId,
    hfields.entryCount, hfields.plannedCount]
  change (if g.maxTenants < record.dictionary.nextSlotId then _ else _ :
    Except FormatError DecodedSlot) = _
  rw [if_neg hnext]
  rw [decodeDictionary_eq_ok hfits h]
  change (entriesAgreeWith record.dictionary record.consumerMode >>= _) = _
  rw [hfits.entriesAgreeWith]
  rw [if_neg hmode]
  rw [decodePlanned_eq_ok hfits h]
  rfl

end Slot

/-! ## The file header -/

theorem length_fileHeaderFields (g : Geometry) : (fileHeaderFields g).length = 24 := rfl

theorem length_encodeFileHeader (crc : Crc) (g : Geometry) :
    (encodeFileHeader crc g).length = fileHeaderLen := rfl

/-- The header of a file reads back as the geometry it was written for. -/
theorem decodeFileHeader_encodeFileHeader (crc : Crc) (g : Geometry) :
    decodeFileHeader crc (encodeFileHeader crc g) = .ok g := by
  have hslot : g.slotLen < 2 ^ 64 := by
    have hfile := g.fileLen_lt
    unfold Geometry.fileLen slotCount at hfile
    omega
  have htenants : g.maxTenants ≤ 65536 := g.tenants_le
  have hunlinks : g.maxUnlinksPerPass ≤ 65536 := g.unlinks_le
  have hlayout : encodeFileHeader crc g = [magic, writeU16 version, List.replicate 2 0,
      leBytes 8 g.slotLen, leBytes 4 g.maxTenants, leBytes 4 g.maxUnlinksPerPass,
      leBytes 4 (crc (fileHeaderFields g)).toNat, List.replicate 4 0].flatten ++ [] := by
    simp [encodeFileHeader, fileHeaderFields]
  have hmagic : slice (encodeFileHeader crc g) 0 4 = magic := slice_field hlayout 0
  have hversion : readU16 (encodeFileHeader crc g) 4 = version :=
    readU16_of_slice (slice_field hlayout 1)
  have hreserved : slice (encodeFileHeader crc g) 6 (8 - 6) = List.replicate 2 0 :=
    slice_field hlayout 2
  have hstored : readU64 (encodeFileHeader crc g) 8 = g.slotLen :=
    readU64_of_slice (slice_field hlayout 3) hslot
  have hmaxTenants : readU32 (encodeFileHeader crc g) 16 = g.maxTenants :=
    readU32_of_slice (slice_field hlayout 4) (by omega)
  have hmaxUnlinks : readU32 (encodeFileHeader crc g) 20 = g.maxUnlinksPerPass :=
    readU32_of_slice (slice_field hlayout 5) (by omega)
  have hcovered : (encodeFileHeader crc g).take fileHeaderCrcCovers = fileHeaderFields g :=
    slice_append_self (length_fileHeaderFields g)
  have hsum : readU32 (encodeFileHeader crc g) 24 = (crc (fileHeaderFields g)).toNat :=
    readU32_of_slice (slice_field hlayout 6) (UInt32.toNat_lt _)
  have hend : slice (encodeFileHeader crc g) 28 (32 - 28) = List.replicate 4 0 :=
    slice_field hlayout 7
  unfold decodeFileHeader
  rw [if_neg (not_not.mpr (length_encodeFileHeader crc g)), if_neg (not_not.mpr hmagic),
    if_neg (not_not.mpr hversion), reservedZero_of_slice hreserved, hcovered, hsum,
    if_neg (not_not.mpr rfl), reservedZero_of_slice hend, hstored, hmaxTenants, hmaxUnlinks,
    g.new_eq_ok]
  dsimp only
  rw [if_neg (not_not.mpr rfl)]
  rfl

end Ourios.Reclaim
