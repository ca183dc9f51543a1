/-
# A slot reads back as the record it was laid out from

Three facts meet at the content of a cell. Cells lie apart and inside the slot, so a slot
laid out from writes that agree with a content holds that content. The writes of a record
that fits the geometry agree with its content. And a slot that holds the content of a
record decodes to the record.

A record fits when the encoder accepts it and the decoder has nothing to object to: the
decoder also refuses two live records of one key, which the encoder does not look for.
-/

import Ourios.Wal.ReclaimCodec

namespace Ourios.Reclaim

open Ourios.Foundation

/-! ## Cells lie apart, inside the slot -/

namespace Geometry

variable (g : Geometry)

theorem plannedStride_eq : g.plannedStride = 24 + 32 * g.maxTenants := rfl

theorem slotLen_eq :
    g.slotLen = 32 + 164 * g.maxTenants + g.plannedStride * g.maxUnlinksPerPass := rfl

theorem trailerOffset_eq :
    g.trailerOffset = 24 + 164 * g.maxTenants + g.plannedStride * g.maxUnlinksPerPass := by
  unfold trailerOffset slotTrailerLen
  rw [slotLen_eq]
  omega

theorem slotLen_eq_add : g.slotLen = g.trailerOffset + 8 := by
  rw [slotLen_eq, trailerOffset_eq]
  omega

theorem plannedAt_eq (position : ℕ) :
    g.plannedAt position = 24 + 164 * g.maxTenants + position * g.plannedStride := rfl

theorem pairAt_eq (position id : ℕ) :
    g.pairAt position id = g.plannedAt position + (24 + 32 * id) := rfl

/-- Two planned positions are one, or the strides of one end before the other starts. -/
theorem plannedAt_cases (p q : ℕ) :
    p = q ∨ g.plannedAt p + g.plannedStride ≤ g.plannedAt q ∨
      g.plannedAt q + g.plannedStride ≤ g.plannedAt p := by
  have hstep : ∀ a b, a < b → g.plannedAt a + g.plannedStride ≤ g.plannedAt b := by
    intro a b hab
    have hmul : (a + 1) * g.plannedStride ≤ b * g.plannedStride := Nat.mul_le_mul_right _ hab
    rw [Nat.add_mul, Nat.one_mul] at hmul
    rw [plannedAt_eq, plannedAt_eq]
    omega
  rcases Nat.lt_trichotomy p q with hlt | heq | hgt
  · exact .inr (.inl (hstep p q hlt))
  · exact .inl heq
  · exact .inr (.inr (hstep q p hgt))

/-- A planned position ends before the trailer. -/
theorem plannedAt_add_le {position : ℕ} (h : position < g.maxUnlinksPerPass) :
    g.plannedAt position + g.plannedStride ≤ g.trailerOffset := by
  have hmul : (position + 1) * g.plannedStride ≤ g.maxUnlinksPerPass * g.plannedStride :=
    Nat.mul_le_mul_right _ h
  rw [Nat.add_mul, Nat.one_mul, Nat.mul_comm g.maxUnlinksPerPass] at hmul
  rw [plannedAt_eq, trailerOffset_eq]
  omega

end Geometry

namespace Cell

/-- The geometry has the cell. -/
def Valid (g : Geometry) : Cell → Prop
  | .header => True
  | .dictionary id => id < g.maxTenants
  | .entry id => id < g.maxTenants
  | .planned position => position < g.maxUnlinksPerPass
  | .pair position id => position < g.maxUnlinksPerPass ∧ id < g.maxTenants

variable {g : Geometry} {c d : Cell}

@[simp] theorem start_header : Cell.start g .header = 0 := rfl

@[simp] theorem start_dictionary (id : ℕ) : Cell.start g (.dictionary id) = 24 + 132 * id := rfl

@[simp] theorem start_entry (id : ℕ) :
    Cell.start g (.entry id) = 24 + 132 * g.maxTenants + 32 * id := rfl

@[simp] theorem start_planned (position : ℕ) :
    Cell.start g (.planned position) = g.plannedAt position := rfl

@[simp] theorem start_pair (position id : ℕ) :
    Cell.start g (.pair position id) = g.plannedAt position + (24 + 32 * id) := rfl

attribute [local simp] size dictRecordLen entryLen pairLen plannedHeaderLen slotHeaderLen Valid

theorem start_add_size_le (h : c.Valid g) : c.start g + c.size ≤ g.trailerOffset := by
  have hstride := g.plannedStride_eq
  have htrailer := g.trailerOffset_eq
  cases c with
  | header | dictionary id | entry id =>
    simp at h ⊢
    omega
  | planned position =>
    have hend := g.plannedAt_add_le h
    simp
    omega
  | pair position id =>
    have hend := g.plannedAt_add_le h.1
    simp at h ⊢
    omega

/-- Where a cell of a planned position lies: inside the position's stride. -/
def row : Cell → Option ℕ
  | .planned position => some position
  | .pair position _ => some position
  | _ => none

theorem row_bounds {position : ℕ} (h : c.Valid g) (hrow : c.row = some position) :
    g.plannedAt position ≤ c.start g ∧
      c.start g + c.size ≤ g.plannedAt position + g.plannedStride := by
  have hstride := g.plannedStride_eq
  cases c <;> cases hrow <;> simp at h ⊢ <;> omega

/-- Every other cell ends before the planned array. -/
theorem before_planned (h : c.Valid g) (hrow : c.row = none) (position : ℕ) :
    c.start g + c.size ≤ g.plannedAt position := by
  rw [g.plannedAt_eq]
  cases c <;> cases hrow <;> simp at h ⊢ <;> omega

/-- Two cells have no position in common. -/
def Apart (g : Geometry) (c d : Cell) : Prop :=
  c.start g + c.size ≤ d.start g ∨ d.start g + d.size ≤ c.start g

/-- Two cells of one planned position lie apart. -/
theorem apart_of_row_eq {position : ℕ} (hc : c.row = some position) (hd : d.row = some position)
    (hne : c ≠ d) : Apart g c d := by
  unfold Apart
  cases c <;> cases hc <;> cases d <;> cases hd <;> simp at hne ⊢
  all_goals omega

/-- Two cells outside the planned array lie apart. -/
theorem apart_of_row_none (hc : c.Valid g) (hd : d.Valid g) (hrow : c.row = none)
    (hrow' : d.row = none) (hne : c ≠ d) : Apart g c d := by
  unfold Apart
  cases c <;> cases hrow <;> cases d <;> cases hrow' <;> simp at hc hd hne ⊢ <;> omega

/-- Different cells lie apart. -/
theorem apart (hc : c.Valid g) (hd : d.Valid g) (hne : c ≠ d) : Apart g c d := by
  cases hrow : c.row with
  | none =>
    cases hrow' : d.row with
    | none => exact apart_of_row_none hc hd hrow hrow' hne
    | some q => exact .inl (le_trans (before_planned hc hrow q) (row_bounds hd hrow').1)
  | some p =>
    cases hrow' : d.row with
    | none => exact .inr (le_trans (before_planned hd hrow' p) (row_bounds hc hrow).1)
    | some q =>
      have hfirst := row_bounds hc hrow
      have hsecond := row_bounds hd hrow'
      rcases g.plannedAt_cases p q with rfl | hbefore | hafter
      · exact apart_of_row_eq hrow hrow' hne
      · exact .inl (le_trans hfirst.2 (le_trans hbefore hsecond.1))
      · exact .inr (le_trans hsecond.2 (le_trans hafter hfirst.1))

end Cell

/-! ## What a slot holds -/

/-- A slot of a geometry holds a block in every cell that has one, zeros in every other,
and is closed by the checksum of what is before it. -/
structure Holds (crc : Crc) (g : Geometry) (bytes : List UInt8)
    (block? : Cell → Option (List UInt8)) : Prop where
  length : bytes.length = g.slotLen
  cell : ∀ c : Cell, c.Valid g →
    slice bytes (c.start g) c.size = (block? c).getD (List.replicate c.size 0)
  checksum : slice bytes g.trailerOffset 4 =
    leBytes 4 (crc (bytes.take g.trailerOffset)).toNat
  reserved : slice bytes (g.trailerOffset + 4) 4 = List.replicate 4 0

section Seal

variable {g : Geometry} {writes : List Write} {block? : Cell → Option (List UInt8)}

variable (hsize : ∀ write ∈ writes, write.cell.Valid g ∧ write.block.length = write.cell.size)
include hsize

/-- Every write stays before the trailer. -/
theorem within_of_writes {length : ℕ} (hlength : g.trailerOffset ≤ length) :
    ∀ patch ∈ writes.map (Write.patch g), patch.Within length := by
  intro patch hpatch
  obtain ⟨write, hwrite, rfl⟩ := List.mem_map.mp hpatch
  obtain ⟨hvalid, hblock⟩ := hsize write hwrite
  change write.cell.start g + write.block.length ≤ length
  rw [hblock]
  exact le_trans (Cell.start_add_size_le hvalid) hlength

variable (hwrites : ∀ write, write ∈ writes ↔ block? write.cell = some write.block)
include hwrites

/-- What a zeroed slot holds once writes that agree with a content are made. -/
theorem slice_layout {c : Cell} (hc : c.Valid g) :
    slice (Patch.applyAll (List.replicate g.slotLen 0) (writes.map (Write.patch g)))
        (c.start g) c.size =
      (block? c).getD (List.replicate c.size 0) := by
  have htrailer : g.trailerOffset ≤ (List.replicate g.slotLen (0 : UInt8)).length := by
    rw [List.length_replicate, g.slotLen_eq_add]
    exact Nat.le_add_right _ _
  have hwithin := within_of_writes hsize htrailer
  have hapart : ∀ write ∈ writes, write.cell ≠ c →
      c.start g + c.size ≤ (write.patch g).start ∨
        (write.patch g).start + (write.patch g).piece.length ≤ c.start g := by
    intro write hwrite hne
    obtain ⟨hvalid, hblock⟩ := hsize write hwrite
    change _ ≤ write.cell.start g ∨ write.cell.start g + write.block.length ≤ _
    rw [hblock]
    exact Cell.apart hc hvalid (Ne.symm hne)
  cases hblock : block? c with
  | none =>
    have hzero : slice (Patch.applyAll (List.replicate g.slotLen 0)
        (writes.map (Write.patch g))) (c.start g) c.size =
          slice (List.replicate g.slotLen 0) (c.start g) c.size := by
      apply Patch.slice_applyAll_apart hwithin
      intro patch hpatch
      obtain ⟨write, hwrite, rfl⟩ := List.mem_map.mp hpatch
      apply hapart write hwrite
      rintro rfl
      rw [(hwrites write).mp hwrite] at hblock
      cases hblock
    rw [hzero]
    apply slice_replicate
    rw [List.length_replicate] at htrailer
    exact le_trans (Cell.start_add_size_le hc) htrailer
  | some block =>
    have hmem : (⟨c, block⟩ : Write) ∈ writes := (hwrites ⟨c, block⟩).mpr hblock
    have hread := Patch.slice_applyAll_agree hwithin (List.mem_map_of_mem hmem) (by
      intro patch hpatch
      obtain ⟨write, hwrite, rfl⟩ := List.mem_map.mp hpatch
      by_cases hcell : write.cell = c
      · obtain ⟨cell, written⟩ := write
        subst hcell
        have hsame := (hwrites ⟨cell, written⟩).mp hwrite
        rw [hblock] at hsame
        cases hsame
        exact .inl rfl
      · rcases hapart write hwrite hcell with hafter | hbefore
        · refine .inr (.inr ?_)
          change c.start g + block.length ≤ _
          rw [(hsize ⟨c, block⟩ hmem).2]
          exact hafter
        · exact .inr (.inl hbefore))
    change slice _ (c.start g) block.length = block at hread
    rw [(hsize ⟨c, block⟩ hmem).2] at hread
    exact hread

/-- A sealed slot holds what was written to it. -/
theorem holds_sealSlot (crc : Crc) : Holds crc g (sealSlot crc g writes) block? := by
  let laid := Patch.applyAll (List.replicate g.slotLen (0 : UInt8)) (writes.map (Write.patch g))
  have hslot := g.slotLen_eq_add
  have hwithin := within_of_writes hsize (by omega : g.trailerOffset ≤ g.slotLen)
  have hlaid : laid.length = g.slotLen := by
    have hzeros : (List.replicate g.slotLen (0 : UInt8)).length = g.slotLen :=
      List.length_replicate
    rw [Patch.length_applyAll (by rw [hzeros]; exact hwithin), hzeros]
  have hsum : (leBytes 4 (crc (laid.take g.trailerOffset)).toNat).length = 4 := length_leBytes _ _
  have hroom : g.trailerOffset + (leBytes 4 (crc (laid.take g.trailerOffset)).toNat).length ≤
      laid.length := by
    omega
  have hbefore : (sealSlot crc g writes).take g.trailerOffset = laid.take g.trailerOffset := by
    exact slice_overwrite_apart hroom (.inl (le_of_eq (Nat.zero_add g.trailerOffset)))
  constructor
  · exact (length_overwrite hroom).trans hlaid
  · intro c hc
    have hread := slice_overwrite_apart hroom (.inl (Cell.start_add_size_le hc))
    exact hread.trans (slice_layout hsize hwrites hc)
  · rw [hbefore]
    exact slice_overwrite_self hroom
  · have hread : slice (sealSlot crc g writes) (g.trailerOffset + 4) 4 =
        slice laid (g.trailerOffset + 4) 4 :=
      slice_overwrite_apart hroom (.inr (by rw [hsum]))
    rw [hread]
    have hzero : slice laid (g.trailerOffset + 4) 4 =
        slice (List.replicate g.slotLen 0) (g.trailerOffset + 4) 4 := by
      apply Patch.slice_applyAll_apart (by rw [List.length_replicate]; exact hwithin)
      intro patch hpatch
      have hend := within_of_writes hsize le_rfl patch hpatch
      exact .inr (le_trans hend (Nat.le_add_right _ _))
    rw [hzero]
    exact slice_replicate (by omega)

end Seal

/-! ## What the slot of a record holds -/

/-- The proof of loss a record carries. -/
def DictRecord.reclaimed? (record : DictRecord) : Option Entry :=
  match record.state with
  | .live reclaimedThrough => reclaimedThrough
  | .tombstoned => none

namespace ReclaimRecord

/-- What a record puts into a cell, none where the cell stays zero. -/
def block? (record : ReclaimRecord) (generation : ℕ) : Cell → Option (List UInt8)
  | .header => some (headerBlock record generation (occupiedEntries record.dictionary))
  | .dictionary id => (record.dictionary.get id).map dictBlock
  | .entry id => ((record.dictionary.get id).bind DictRecord.reclaimed?).map entryBlock
  | .planned position => record.planned[position]?.map plannedBlock
  | .pair position id =>
    (record.planned[position]?.bind fun planned => planned.lastOffsets.lookup id).map pairBlock

/-- A record a geometry can hold. -/
structure Fits (g : Geometry) (record : ReclaimRecord) : Prop where
  tenants : record.dictionary.records.length ≤ g.maxTenants
  keys : ∀ dict ∈ record.dictionary.records,
    1 ≤ dict.key.toUtf8.length ∧ dict.key.toUtf8.length ≤ keyLen
  entries : ∀ dict ∈ record.dictionary.records, ∀ entry, dict.reclaimed? = some entry →
    record.consumerMode.admits entry.mode = true ∧ entry.offset.byte < 2 ^ 64
  distinct : record.dictionary.records.Pairwise fun a b =>
    a.isLive = true → b.isLive = true → a.key ≠ b.key
  rows : record.planned.length ≤ g.maxUnlinksPerPass
  mode : record.planned ≠ [] → record.consumerMode ≠ .unrecorded
  pairs : ∀ planned ∈ record.planned, ∀ pair ∈ planned.lastOffsets.entries,
    record.dictionary.isLive pair.1 = true ∧ pair.2.segment = planned.segment ∧
      pair.2.byte < 2 ^ 64
  counts : ∀ planned ∈ record.planned, planned.lastOffsets.entries.length < 2 ^ 16

end ReclaimRecord

namespace Dictionary

variable {dictionary : Dictionary}

variable {id : ℕ} {dict : DictRecord}

theorem mem_iter_iff :
    (id, dict) ∈ dictionary.iter ↔ dictionary.get id = some dict ∧ id < maxTenantsCeiling := by
  unfold iter
  rw [List.mem_filterMap]
  constructor
  · rintro ⟨⟨record, index⟩, hmem, hid⟩
    dsimp only at hid
    split at hid
    · rename_i hlt
      cases hid
      exact ⟨List.mem_zipIdx_iff_getElem?.mp hmem, hlt⟩
    · cases hid
  · rintro ⟨hget, hlt⟩
    exact ⟨(dict, id), List.mem_zipIdx_iff_getElem?.mpr hget, if_pos hlt⟩

theorem lt_of_get (h : dictionary.get id = some dict) :
    id < dictionary.records.length := by
  obtain ⟨hlt, -⟩ := List.getElem?_eq_some_iff.mp h
  exact hlt

theorem mem_of_get (h : dictionary.get id = some dict) :
    dict ∈ dictionary.records :=
  List.mem_of_getElem? h

theorem lt_of_isLive (h : dictionary.isLive id = true) :
    id < dictionary.records.length := by
  unfold isLive at h
  split at h
  · cases h
  · rename_i record hget
    exact lt_of_get hget

end Dictionary

/-- What a dictionary position writes: its record, and its entry where it carries one. -/
def dictWrites (item : ℕ × DictRecord) : List Write :=
  ⟨.dictionary item.1, dictBlock item.2⟩ ::
    (item.2.reclaimed?.map fun entry => (⟨.entry item.1, entryBlock entry⟩ : Write)).toList

/-- What a planned position writes: its record and its pairs. -/
def plannedWrites (item : PlannedUnlink × ℕ) : List Write :=
  ⟨.planned item.2, plannedBlock item.1⟩ ::
    item.1.lastOffsets.entries.map fun (id, offset) => ⟨.pair item.2 id, pairBlock offset⟩

def ReclaimRecord.writes (record : ReclaimRecord) (generation : ℕ) : List Write :=
  record.dictionary.iter.flatMap dictWrites ++ record.planned.zipIdx.flatMap plannedWrites ++
    [⟨.header, headerBlock record generation (occupiedEntries record.dictionary)⟩]

variable {dict : DictRecord}

theorem writeEntry_eq_ok {id : ℕ} {recorded : RecordedMode}
    (h : ∀ entry, dict.reclaimed? = some entry → recorded.admits entry.mode = true) :
    writeEntry id dict recorded =
      .ok (dict.reclaimed?.map fun entry => (⟨.entry id, entryBlock entry⟩ : Write)).toList := by
  obtain ⟨key, state⟩ := dict
  cases state with
  | tombstoned => rfl
  | live reclaimedThrough =>
    cases reclaimedThrough with
    | none => rfl
    | some entry => exact if_pos (h entry rfl)

theorem encodeDictRecord_eq_ok {id : ℕ} (hpos : 1 ≤ dict.key.toUtf8.length)
    (hle : dict.key.toUtf8.length ≤ keyLen) :
    encodeDictRecord id dict = .ok ⟨.dictionary id, dictBlock dict⟩ := by
  unfold encodeDictRecord
  rw [if_neg]
  rintro (hempty | hlong)
  · rw [hempty] at hpos
    exact absurd hpos (by decide)
  · exact absurd hle (Nat.not_le.mpr hlong)

theorem isOccupied_eq (dict : DictRecord) : dict.isOccupied = dict.reclaimed?.isSome := by
  obtain ⟨key, state⟩ := dict
  cases state with
  | tombstoned => rfl
  | live reclaimedThrough => cases reclaimedThrough <;> rfl

theorem writeDictionary_eq_ok {recorded : RecordedMode} {items : List (ℕ × DictRecord)}
    (hkeys : ∀ item ∈ items, 1 ≤ item.2.key.toUtf8.length ∧ item.2.key.toUtf8.length ≤ keyLen)
    (hentries : ∀ item ∈ items, ∀ entry, item.2.reclaimed? = some entry →
      recorded.admits entry.mode = true) :
    writeDictionary recorded items =
      .ok (items.flatMap dictWrites, (items.filter fun item => item.2.isOccupied).length) := by
  induction items with
  | nil => rfl
  | cons item items ih =>
    obtain ⟨id, dict⟩ := item
    have hkey := hkeys (id, dict) List.mem_cons_self
    have hrest := ih (fun item hitem => hkeys item (List.mem_cons_of_mem _ hitem))
      fun item hitem => hentries item (List.mem_cons_of_mem _ hitem)
    have hcount : ((dict.reclaimed?.map fun entry =>
        (⟨.entry id, entryBlock entry⟩ : Write)).toList).length +
          (items.filter fun item => item.2.isOccupied).length =
            (((id, dict) :: items).filter fun item => item.2.isOccupied).length := by
      rw [List.filter_cons, isOccupied_eq]
      cases dict.reclaimed? with
      | none => exact Nat.zero_add _
      | some entry => exact Nat.add_comm _ _
    unfold writeDictionary
    rw [encodeDictRecord_eq_ok hkey.1 hkey.2,
      writeEntry_eq_ok (hentries (id, dict) List.mem_cons_self), hrest]
    rw [← hcount]
    rfl

theorem checkPairs_eq_ok {planned : PlannedUnlink} {dictionary : Dictionary}
    (h : ∀ pair ∈ planned.lastOffsets.entries,
      dictionary.isLive pair.1 = true ∧ pair.2.segment = planned.segment) :
    checkPairs planned dictionary = .ok () := by
  have hnone : planned.lastOffsets.entries.findSome? (fun (id, offset) =>
      if !dictionary.isLive id then some (EncodeError.pairWithoutTenant planned.segment id)
      else if offset.segment ≠ planned.segment then
        some (.pairSegment planned.segment id offset.segment)
      else none) = none := by
    rw [List.findSome?_eq_none_iff]
    rintro ⟨id, offset⟩ hpair
    obtain ⟨hlive, hsegment⟩ := h (id, offset) hpair
    dsimp only at hlive hsegment ⊢
    rw [hlive, hsegment, if_neg (by decide : ¬ (!true) = true), if_neg (not_not.mpr rfl)]
  unfold checkPairs
  rw [hnone]

theorem writePlanned_eq_ok {dictionary : Dictionary} {position : ℕ} {planned : PlannedUnlink}
    (h : ∀ pair ∈ planned.lastOffsets.entries,
      dictionary.isLive pair.1 = true ∧ pair.2.segment = planned.segment)
    (hcount : planned.lastOffsets.entries.length < 2 ^ 16) :
    writePlanned dictionary position planned = .ok (plannedWrites (planned, position)) := by
  unfold writePlanned
  rw [checkPairs_eq_ok h, if_neg (Nat.not_le.mpr hcount)]
  rfl

namespace ReclaimRecord

variable {g : Geometry} {record : ReclaimRecord} {generation : ℕ}

namespace Fits

theorem lt_ceiling (h : record.Fits g) {id : ℕ} (hid : id < record.dictionary.records.length) :
    id < maxTenantsCeiling :=
  lt_of_lt_of_le hid (le_trans h.tenants g.tenants_le)

/-- A record that fits is laid out without an error. -/
theorem slotWrites (h : record.Fits g) :
    Reclaim.slotWrites record generation = .ok (record.writes generation) := by
  have hmem : ∀ item ∈ record.dictionary.iter, item.2 ∈ record.dictionary.records := by
    rintro ⟨id, dict⟩ hitem
    exact Dictionary.mem_of_get (Dictionary.mem_iter_iff.mp hitem).1
  have hdictionary : writeDictionary record.consumerMode record.dictionary.iter =
      .ok (record.dictionary.iter.flatMap dictWrites, occupiedEntries record.dictionary) :=
    writeDictionary_eq_ok (fun item hitem => h.keys item.2 (hmem item hitem))
      fun item hitem entry hentry => (h.entries item.2 (hmem item hitem) entry hentry).1
  have hplanned : gather (fun item : PlannedUnlink × ℕ =>
      writePlanned record.dictionary item.2 item.1) record.planned.zipIdx =
        .ok (record.planned.zipIdx.flatMap plannedWrites) := by
    apply gather_eq_ok
    rintro ⟨planned, position⟩ hitem
    have hrow : planned ∈ record.planned :=
      List.mem_of_getElem? (List.mem_zipIdx_iff_getElem?.mp hitem)
    apply writePlanned_eq_ok
    · intro pair hpair
      obtain ⟨hlive, hsegment, -⟩ := h.pairs planned hrow pair hpair
      exact ⟨hlive, hsegment⟩
    · exact h.counts planned hrow
  unfold Reclaim.slotWrites
  rw [hdictionary]
  rw [hplanned]
  rfl

end Fits

end ReclaimRecord

/-! ## The writes of a record are its content -/

theorem mem_dictWrites {item : ℕ × DictRecord} {write : Write} :
    write ∈ dictWrites item ↔ write = ⟨.dictionary item.1, dictBlock item.2⟩ ∨
      ∃ entry, item.2.reclaimed? = some entry ∧ ⟨.entry item.1, entryBlock entry⟩ = write := by
  unfold dictWrites
  rw [List.mem_cons, Option.mem_toList, Option.map_eq_some_iff]

theorem mem_plannedWrites {item : PlannedUnlink × ℕ} {write : Write} :
    write ∈ plannedWrites item ↔ write = ⟨.planned item.2, plannedBlock item.1⟩ ∨
      ∃ pair ∈ item.1.lastOffsets.entries, ⟨.pair item.2 pair.1, pairBlock pair.2⟩ = write := by
  unfold plannedWrites
  rw [List.mem_cons, List.mem_map]

namespace ReclaimRecord

variable {g : Geometry} {record : ReclaimRecord} {generation : ℕ}

theorem mem_writes {write : Write} :
    write ∈ record.writes generation ↔
      (∃ item ∈ record.dictionary.iter, write ∈ dictWrites item) ∨
        (∃ item ∈ record.planned.zipIdx, write ∈ plannedWrites item) ∨
          write = ⟨.header, headerBlock record generation (occupiedEntries record.dictionary)⟩ := by
  unfold writes
  rw [List.mem_append, List.mem_append, List.mem_flatMap, List.mem_flatMap, List.mem_singleton,
    or_assoc]

/-- Every write is the content of its cell. -/
theorem block?_of_mem_writes {write : Write} (h : write ∈ record.writes generation) :
    record.block? generation write.cell = some write.block := by
  rcases mem_writes.mp h with ⟨⟨id, dict⟩, hitem, hwrite⟩ | ⟨⟨planned, position⟩, hitem, hwrite⟩ |
    rfl
  · obtain ⟨hget, -⟩ := Dictionary.mem_iter_iff.mp hitem
    rcases mem_dictWrites.mp hwrite with rfl | ⟨entry, hentry, rfl⟩
    · change (record.dictionary.get id).map dictBlock = _
      rw [hget]
      rfl
    · change ((record.dictionary.get id).bind DictRecord.reclaimed?).map entryBlock = _
      rw [hget, Option.bind_some, hentry]
      rfl
  · have hget := List.mem_zipIdx_iff_getElem?.mp hitem
    rcases mem_plannedWrites.mp hwrite with rfl | ⟨⟨id, offset⟩, hpair, rfl⟩
    · change record.planned[position]?.map plannedBlock = _
      rw [hget]
      rfl
    · change (record.planned[position]?.bind fun planned =>
        planned.lastOffsets.lookup id).map pairBlock = _
      rw [hget, Option.bind_some, OrderedMap.lookup_eq_some_iff.mpr hpair]
      rfl
  · rfl

/-- All content is written. -/
theorem Fits.mem_writes_of_block? (h : record.Fits g) {cell : Cell} {block : List UInt8}
    (hblock : record.block? generation cell = some block) :
    ⟨cell, block⟩ ∈ record.writes generation := by
  rw [mem_writes]
  have hiter : ∀ id dict, record.dictionary.get id = some dict →
      (id, dict) ∈ record.dictionary.iter := by
    intro id dict hget
    exact Dictionary.mem_iter_iff.mpr ⟨hget, h.lt_ceiling (Dictionary.lt_of_get hget)⟩
  cases cell with
  | header =>
    cases hblock
    exact .inr (.inr rfl)
  | dictionary id =>
    obtain ⟨dict, hget, rfl⟩ := Option.map_eq_some_iff.mp hblock
    exact .inl ⟨(id, dict), hiter id dict hget, mem_dictWrites.mpr (.inl rfl)⟩
  | entry id =>
    obtain ⟨entry, hentry, rfl⟩ := Option.map_eq_some_iff.mp hblock
    obtain ⟨dict, hget, hdict⟩ := Option.bind_eq_some_iff.mp hentry
    exact .inl ⟨(id, dict), hiter id dict hget, mem_dictWrites.mpr (.inr ⟨entry, hdict, rfl⟩)⟩
  | planned position =>
    obtain ⟨planned, hget, rfl⟩ := Option.map_eq_some_iff.mp hblock
    exact .inr (.inl ⟨(planned, position), List.mem_zipIdx_iff_getElem?.mpr hget,
      mem_plannedWrites.mpr (.inl rfl)⟩)
  | pair position id =>
    obtain ⟨offset, hoffset, rfl⟩ := Option.map_eq_some_iff.mp hblock
    obtain ⟨planned, hget, hlookup⟩ := Option.bind_eq_some_iff.mp hoffset
    exact .inr (.inl ⟨(planned, position), List.mem_zipIdx_iff_getElem?.mpr hget,
      mem_plannedWrites.mpr
        (.inr ⟨(id, offset), OrderedMap.lookup_eq_some_iff.mp hlookup, rfl⟩)⟩)

end ReclaimRecord

/-! ## Blocks are as long as their cells -/

theorem length_writeU16 (value : UInt16) : (writeU16 value).length = 2 := length_leBytes _ _

theorem length_entryBlock (entry : Entry) : (entryBlock entry).length = entryLen :=
  rfl

theorem length_pairBlock (offset : WalOffset) : (pairBlock offset).length = pairLen :=
  rfl

theorem length_plannedBlock (planned : PlannedUnlink) :
    (plannedBlock planned).length = plannedHeaderLen :=
  rfl

theorem length_headerBlock (record : ReclaimRecord) (generation entryCount : ℕ) :
    (headerBlock record generation entryCount).length = slotHeaderLen :=
  rfl

theorem length_dictBlock (h : dict.key.toUtf8.length ≤ keyLen) :
    (dictBlock dict).length = dictRecordLen := by
  unfold dictBlock
  rw [List.length_append, List.length_append, List.length_append, length_leBytes,
    length_writeU16, List.length_replicate]
  unfold keyLen at h ⊢
  unfold dictRecordLen
  omega

namespace ReclaimRecord

variable {g : Geometry} {record : ReclaimRecord} {generation : ℕ}

variable (h : record.Fits g)
include h

/-- Content stands only in cells the geometry has, and fills them. -/
theorem Fits.valid_of_block? {cell : Cell} {block : List UInt8}
    (hblock : record.block? generation cell = some block) :
    cell.Valid g ∧ block.length = cell.size := by
  cases cell with
  | header =>
    cases hblock
    exact ⟨trivial, length_headerBlock _ _ _⟩
  | dictionary id =>
    obtain ⟨dict, hget, rfl⟩ := Option.map_eq_some_iff.mp hblock
    refine ⟨lt_of_lt_of_le (Dictionary.lt_of_get hget) h.tenants, ?_⟩
    exact length_dictBlock (h.keys dict (Dictionary.mem_of_get hget)).2
  | entry id =>
    obtain ⟨entry, hentry, rfl⟩ := Option.map_eq_some_iff.mp hblock
    obtain ⟨dict, hget, -⟩ := Option.bind_eq_some_iff.mp hentry
    exact ⟨lt_of_lt_of_le (Dictionary.lt_of_get hget) h.tenants, length_entryBlock entry⟩
  | planned position =>
    obtain ⟨planned, hget, rfl⟩ := Option.map_eq_some_iff.mp hblock
    obtain ⟨hlt, -⟩ := List.getElem?_eq_some_iff.mp hget
    exact ⟨lt_of_lt_of_le hlt h.rows, length_plannedBlock planned⟩
  | pair position id =>
    obtain ⟨offset, hoffset, rfl⟩ := Option.map_eq_some_iff.mp hblock
    obtain ⟨planned, hget, hlookup⟩ := Option.bind_eq_some_iff.mp hoffset
    obtain ⟨hlt, -⟩ := List.getElem?_eq_some_iff.mp hget
    obtain ⟨hlive, -, -⟩ := h.pairs planned (List.mem_of_getElem? hget) (id, offset)
      (OrderedMap.lookup_eq_some_iff.mp hlookup)
    exact ⟨⟨lt_of_lt_of_le hlt h.rows,
      lt_of_lt_of_le (Dictionary.lt_of_isLive hlive) h.tenants⟩, length_pairBlock offset⟩

/-- Every write of a record that fits goes to a cell the geometry has, and fills it. -/
theorem Fits.valid_of_mem_writes : ∀ write ∈ record.writes generation,
      write.cell.Valid g ∧ write.block.length = write.cell.size :=
  fun _ hwrite => h.valid_of_block? (block?_of_mem_writes hwrite)

/-- The slot of a record that fits holds its content. -/
theorem Fits.holds (crc : Crc) (generation : ℕ) :
    Holds crc g (sealSlot crc g (record.writes generation)) (record.block? generation) := by
  exact holds_sealSlot h.valid_of_mem_writes
    (fun _ => ⟨block?_of_mem_writes, h.mem_writes_of_block?⟩) crc

/-- A record that fits is encoded into a buffer of one slot. -/
theorem Fits.encodeSlotInto (crc : Crc) {out : List UInt8}
    (hout : out.length = g.slotLen) (hgeneration : generation ≠ 0) :
    Reclaim.encodeSlotInto crc record generation g out =
      .ok (sealSlot crc g (record.writes generation)) := by
  have hmode : ¬ (record.consumerMode = .unrecorded ∧ record.planned ≠ []) := by
    rintro ⟨hunrecorded, hplanned⟩
    exact h.mode hplanned hunrecorded
  unfold Reclaim.encodeSlotInto
  rw [if_neg (not_not.mpr hout), if_neg hgeneration, if_neg (Nat.not_lt.mpr h.tenants),
    if_neg (Nat.not_lt.mpr h.rows), if_neg hmode, h.slotWrites]
  rfl

end ReclaimRecord

/-- The encoder takes no row of more pairs than a count of two bytes can say. -/
theorem length_lt_of_encodeSlotInto {crc : Crc} {record : ReclaimRecord} {generation : ℕ}
    {g : Geometry} {out slot : List UInt8}
    (h : encodeSlotInto crc record generation g out = .ok slot) :
    ∀ row ∈ record.planned, row.lastOffsets.entries.length < 2 ^ 16 := by
  intro row hrow
  unfold encodeSlotInto at h
  split at h
  · cases h
  split at h
  · cases h
  split at h
  · cases h
  split at h
  · cases h
  split at h
  · cases h
  obtain ⟨writes, hwrites, -⟩ := bind_eq_ok_iff.mp h
  obtain ⟨dictionary, -, hrest⟩ := bind_eq_ok_iff.mp hwrites
  obtain ⟨planned, hplanned, -⟩ := bind_eq_ok_iff.mp hrest
  obtain ⟨position, hget⟩ := List.mem_iff_getElem?.mp hrow
  have hindexed : (row, position) ∈ record.planned.zipIdx := List.mem_zipIdx_iff_getElem?.mpr hget
  obtain ⟨given, hgiven⟩ := exists_of_gather_eq_ok hplanned hindexed
  obtain ⟨-, -, hcount⟩ := bind_eq_ok_iff.mp hgiven
  split at hcount
  · cases hcount
  · exact Nat.not_le.mp ‹_›

end Ourios.Reclaim
