/-
# Merging a plan into the record

What a merge does to the rows of a record is a matter of segment ids alone: each planned
segment's row moves to the end, and what is there stays. What it does to the dictionary
can only be refused when the dictionary has no room. A merged record is one the slot
encoder takes, unless the dictionary holds every slot id there is.
-/

import Ourios.Wal.Housekeeping

namespace Ourios.Housekeeping

open Ourios.Foundation Ourios.Reclaim Ourios.Retain

/-! ## Rows -/

/-- The segments a record has rows for, in order. -/
def rowIds (record : ReclaimRecord) : List Uuid := record.planned.map PlannedUnlink.segment

/-- A segment's row moves to the end. -/
def replan (ids : List Uuid) (id : Uuid) : List Uuid := (ids.filter fun other => other ≠ id) ++ [id]

theorem nodup_replan {ids : List Uuid} (h : ids.Nodup) (id : Uuid) : (replan ids id).Nodup := by
  exact (h.filter _).append (List.nodup_singleton id) (by simp)

theorem toFinset_replan (ids : List Uuid) (id : Uuid) :
    (replan ids id).toFinset = insert id ids.toFinset := by
  ext other
  unfold replan
  rw [List.mem_toFinset, List.mem_append, List.mem_filter, List.mem_singleton, Finset.mem_insert,
    List.mem_toFinset, decide_eq_true_iff]
  tauto

/-- Rows of distinct segments are as many as their segments. -/
theorem length_planned {record : ReclaimRecord} (h : (rowIds record).Nodup) :
    record.planned.length = (rowIds record).toFinset.card := by
  rw [List.toFinset_card_of_nodup h, rowIds, List.length_map]

section Merge

variable {narrow g : Geometry} {record merged : ReclaimRecord} {popped : Popped}
  {dictionary after : Dictionary} {row : PlannedUnlink}

theorem mergeSegment_ok (h : mergeSegment narrow record popped = .ok merged) :
    ∃ dictionary row, planEntry narrow record.dictionary popped = .ok (dictionary, row) ∧
      merged = { record with
        dictionary
        planned := (record.planned.filter fun row => row.segment ≠ popped.segment) ++ [row] } := by
  unfold mergeSegment at h
  cases hentry : planEntry narrow record.dictionary popped with
  | error error =>
    rw [hentry] at h
    cases h
  | ok entry =>
    rw [hentry] at h
    cases h
    exact ⟨entry.1, entry.2, rfl, rfl⟩

theorem planEntry_ok (h : planEntry narrow dictionary popped = .ok (after, row)) :
    ∃ offsets, popped.lastOffsets.foldlM (planMember narrow) (dictionary, .empty) =
      .ok (after, offsets) ∧ row = ⟨popped.segment, popped.uncertain, offsets⟩ := by
  unfold planEntry at h
  cases hplanning : popped.lastOffsets.foldlM (planMember narrow) (dictionary, .empty) with
  | error error =>
    rw [hplanning] at h
    cases h
  | ok planning =>
    rw [hplanning] at h
    cases h
    exact ⟨planning.2, rfl, rfl⟩

theorem rowIds_mergeSegment (h : mergeSegment narrow record popped = .ok merged) :
    rowIds merged = replan (rowIds record) popped.segment := by
  obtain ⟨dictionary, row, hentry, rfl⟩ := mergeSegment_ok h
  obtain ⟨offsets, -, rfl⟩ := planEntry_ok hentry
  unfold rowIds replan
  rw [List.map_append, List.map_singleton, List.filter_map]
  rfl

variable {segments : List Popped} {planning next : Dictionary × OrderedMap ℕ WalOffset}

/-- The ids of the rows after a whole plan is merged. -/
theorem rowIds_foldlM (h : segments.foldlM (mergeSegment narrow) record = .ok merged) :
    rowIds merged = (segments.map Popped.segment).foldl replan (rowIds record) := by
  induction segments generalizing record with
  | nil =>
    cases h
    rfl
  | cons popped segments ih =>
    obtain ⟨first, hfirst, hrest⟩ := bind_eq_ok_iff.mp h
    rw [List.map_cons, List.foldl_cons, ← rowIds_mergeSegment hfirst]
    exact ih hrest

/-! ## Tenants -/

theorem isLive_of_idOf {key : TenantId} {id : ℕ} (h : dictionary.idOf key = some id) :
    dictionary.isLive id = true := by
  unfold Dictionary.idOf at h
  split at h
  · cases h
  · rename_i index hfind
    split at h
    · cases h
      obtain ⟨hlt, hkey, -⟩ := List.findIdx?_eq_some_iff_getElem.mp hfind
      refine Dictionary.isLive_iff.mpr ⟨dictionary.records[id], ?_, ?_⟩
      · exact List.getElem?_eq_getElem hlt
      · exact (Bool.and_eq_true_iff.mp hkey).2
    · cases h

/-- What giving the tenants of a segment their ids has come to: the dictionary stays one
the file can hold, and every pair names a live id and an offset of the segment. -/
structure Planning (g : Geometry) (record : ReclaimRecord) (segment : Uuid)
    (planning : Dictionary × OrderedMap ℕ WalOffset) : Prop where
  fits : ReclaimRecord.Fits g { record with dictionary := planning.1 }
  pairs : ∀ pair ∈ planning.2.entries, planning.1.isLive pair.1 = true ∧
    pair.2.segment = segment ∧ pair.2.byte < 2 ^ 64

theorem Planning.member {segment : Uuid} {member : TenantId × WalOffset}
    (h : Planning g record segment planning) (hwide : narrow.maxTenants ≤ g.maxTenants)
    (hmember : member.2.segment = segment ∧ member.2.byte < 2 ^ 64 ∧
      1 ≤ member.1.toUtf8.length ∧ member.1.toUtf8.length ≤ maxTenantBytes)
    (hnext : planMember narrow planning member = .ok next) : Planning g record segment next := by
  obtain ⟨hsegment, hbyte, hlength⟩ := hmember
  unfold planMember at hnext
  split at hnext
  · rename_i id hid
    cases hnext
    refine ⟨h.fits, ?_⟩
    intro pair hpair
    rcases OrderedMap.mem_insert hpair with rfl | hold
    · exact ⟨isLive_of_idOf hid, hsegment, hbyte⟩
    · exact h.pairs pair hold
  · rename_i hid
    unfold Dictionary.assign at hnext
    rw [hid] at hnext
    dsimp only at hnext
    split at hnext
    · cases hnext
    rename_i after id hassign
    split at hassign
    · cases hassign
    rename_i hroom
    cases hassign
    cases hnext
    have hlt : planning.1.records.length < narrow.maxTenants :=
      Nat.not_le.mp fun hle => hroom (.inl hle)
    refine ⟨h.fits.append (hlt.trans_le hwide) hlength (h.fits.fresh hid), ?_⟩
    intro pair hpair
    rcases OrderedMap.mem_insert hpair with rfl | hold
    · refine ⟨Dictionary.isLive_iff.mpr ⟨⟨member.1, .live none⟩, ?_, rfl⟩, hsegment, hbyte⟩
      exact List.getElem?_concat_length
    · obtain ⟨hlive, hrest⟩ := h.pairs pair hold
      exact ⟨Dictionary.isLive_append hlive, hrest⟩

theorem Planning.members {segment : Uuid} {members : List (TenantId × WalOffset)}
    (h : Planning g record segment planning) (hwide : narrow.maxTenants ≤ g.maxTenants)
    (hmembers : ∀ member ∈ members, member.2.segment = segment ∧ member.2.byte < 2 ^ 64 ∧
      1 ≤ member.1.toUtf8.length ∧ member.1.toUtf8.length ≤ maxTenantBytes)
    (hnext : members.foldlM (planMember narrow) planning = .ok next) :
    Planning g record segment next := by
  induction members generalizing planning with
  | nil =>
    cases hnext
    exact h
  | cons member members ih =>
    obtain ⟨first, hfirst, hrest⟩ := bind_eq_ok_iff.mp hnext
    exact ih (h.member hwide (hmembers member List.mem_cons_self) hfirst)
      (fun other hother => hmembers other (List.mem_cons_of_mem _ hother)) hrest

/-- A row of one segment: live ids and offsets of its own. -/
theorem Planning.entry (hfits : record.Fits g) (hwide : narrow.maxTenants ≤ g.maxTenants)
    (hplannable : SegmentLedger.Plannable popped)
    (h : planEntry narrow record.dictionary popped = .ok (after, row)) :
    row.segment = popped.segment ∧ Planning g record popped.segment (after, row.lastOffsets) := by
  obtain ⟨offsets, hmembers, rfl⟩ := planEntry_ok h
  have hstart : Planning g record popped.segment (record.dictionary, .empty) :=
    ⟨hfits, fun _ hpair => absurd hpair List.not_mem_nil⟩
  exact ⟨rfl, hstart.members hwide hplannable hmembers⟩

/-- Live ids that differ are no more than there are records. -/
theorem length_le_of_live {offsets : OrderedMap ℕ WalOffset}
    (h : ∀ pair ∈ offsets.entries, dictionary.isLive pair.1 = true) :
    offsets.entries.length ≤ dictionary.records.length := by
  have hnodup : (offsets.entries.map Prod.fst).Nodup := by
    rw [List.nodup_iff_pairwise_ne, List.pairwise_map]
    exact offsets.ascending.imp fun hlt => Nat.ne_of_lt hlt
  have hsubset : offsets.entries.map Prod.fst ⊆ List.range dictionary.records.length := by
    intro id hid
    obtain ⟨pair, hpair, rfl⟩ := List.mem_map.mp hid
    exact List.mem_range.mpr (Dictionary.lt_of_isLive (h pair hpair))
  have hle := (List.subperm_of_subset hnodup hsubset).length_le
  rw [List.length_map, List.length_range] at hle
  exact hle

theorem length_planMember {member : TenantId × WalOffset}
    (h : planMember narrow planning member = .ok next) :
    planning.1.records.length ≤ next.1.records.length := by
  unfold planMember at h
  split at h
  · cases h
    exact Nat.le_refl _
  · rename_i hid
    unfold Dictionary.assign at h
    rw [hid] at h
    dsimp only at h
    split at h
    · cases h
    rename_i after id hassign
    split at hassign
    · cases hassign
    cases hassign
    cases h
    rw [List.length_append]
    exact Nat.le_add_right _ _

/-- A merge never forgets a tenant. -/
theorem length_mergeSegment (h : mergeSegment narrow record popped = .ok merged) :
    record.dictionary.records.length ≤ merged.dictionary.records.length := by
  obtain ⟨dictionary, row, hentry, rfl⟩ := mergeSegment_ok h
  obtain ⟨offsets, hmembers, -⟩ := planEntry_ok hentry
  exact foldlM_invariant
    (fun _ planning => record.dictionary.records.length ≤ planning.1.records.length)
    (fun _ _ _ _ hbefore hstep => hbefore.trans (length_planMember hstep)) le_rfl hmembers

theorem length_foldlM (h : segments.foldlM (mergeSegment narrow) record = .ok merged) :
    record.dictionary.records.length ≤ merged.dictionary.records.length := by
  exact foldlM_invariant
    (fun _ now => record.dictionary.records.length ≤ now.dictionary.records.length)
    (fun _ _ _ _ hbefore hstep => hbefore.trans (length_mergeSegment hstep)) le_rfl h

theorem mergeSegment_error {error : DictionaryFull}
    (h : mergeSegment narrow record popped = .error error) : error = ⟨narrow.maxTenants⟩ := by
  unfold mergeSegment planEntry at h
  cases hmembers : popped.lastOffsets.foldlM (planMember narrow) (record.dictionary, .empty) with
  | ok planning =>
    rw [hmembers] at h
    cases h
  | error full =>
    rw [hmembers] at h
    cases h
    obtain ⟨member, -, planning, hmember⟩ := exists_of_foldlM_error hmembers
    unfold planMember at hmember
    split at hmember
    · cases hmember
    · rename_i hid
      unfold Dictionary.assign at hmember
      rw [hid] at hmember
      dsimp only at hmember
      split at hmember
      · rename_i first hassign
        cases hmember
        split at hassign
        · cases hassign
          rfl
        · cases hassign
      · cases hmember

/-! ## The slot encoder -/

/-- A row names so many tenants that the dictionary holds every slot id there is. -/
def Overfull (record : ReclaimRecord) : Prop :=
  maxTenantsCeiling ≤ record.dictionary.records.length ∧
    ∃ row ∈ record.planned, 2 ^ 16 ≤ row.lastOffsets.entries.length

/-- Merging one segment keeps a record writable where there is room for its row, unless
the row names too many tenants. -/
theorem fits_mergeSegment (hfits : record.Fits g) (hwide : narrow.maxTenants ≤ g.maxTenants)
    (hplannable : SegmentLedger.Plannable popped) (hmode : record.consumerMode ≠ .unrecorded)
    (h : mergeSegment narrow record popped = .ok merged)
    (hrows : merged.planned.length ≤ g.maxUnlinksPerPass) :
    merged.consumerMode = record.consumerMode ∧
      (merged.Fits g ∨ maxTenantsCeiling ≤ merged.dictionary.records.length ∧
        ∃ row ∈ merged.planned, row.segment = popped.segment ∧
          2 ^ 16 ≤ row.lastOffsets.entries.length) := by
  obtain ⟨dictionary, row, hentry, rfl⟩ := mergeSegment_ok h
  obtain ⟨hsegment, hplanning⟩ := Planning.entry hfits hwide hplannable hentry
  refine ⟨rfl, ?_⟩
  rcases Nat.lt_or_ge row.lastOffsets.entries.length (2 ^ 16) with hcount | hmany
  · left
    have hreleased := hplanning.fits.release popped.segment
    suffices hallowed : (Edit.plan row).Allowed g
        ((Edit.release popped.segment).apply g { record with dictionary }) from
      hreleased.plan hallowed
    refine ⟨?_, hmode, ?_, hcount⟩
    · rw [List.length_append] at hrows
      exact hrows
    · intro pair hpair
      obtain ⟨hlive, hown, hbyte⟩ := hplanning.pairs pair hpair
      exact ⟨hlive, hown.trans hsegment.symm, hbyte⟩
  · right
    refine ⟨?_, row, List.mem_append_right _ List.mem_cons_self, hsegment, hmany⟩
    exact hmany.trans (length_le_of_live fun pair hpair => (hplanning.pairs pair hpair).1)

/-- A row stays where no segment merged after it is its own. -/
theorem mem_planned_foldlM (h : segments.foldlM (mergeSegment narrow) record = .ok merged)
    (hrow : row ∈ record.planned) (hne : row.segment ∉ segments.map Popped.segment) :
    row ∈ merged.planned := by
  induction segments generalizing record with
  | nil =>
    cases h
    exact hrow
  | cons popped segments ih =>
    obtain ⟨first, hfirst, hrest⟩ := bind_eq_ok_iff.mp h
    rw [List.map_cons, List.mem_cons, not_or] at hne
    obtain ⟨dictionary, last, -, rfl⟩ := mergeSegment_ok hfirst
    refine ih hrest (List.mem_append_left _ (List.mem_filter.mpr ⟨hrow, ?_⟩)) hne.2
    exact decide_eq_true hne.1

/-- Merging a plan keeps a record writable where its rows and the plan's have room
together, unless a row names too many tenants. -/
theorem fits_foldlM {rows : Finset Uuid} (hfits : record.Fits g)
    (hwide : narrow.maxTenants ≤ g.maxTenants)
    (hplannable : ∀ popped ∈ segments, SegmentLedger.Plannable popped)
    (hmode : record.consumerMode ≠ .unrecorded) (hnodup : (rowIds record).Nodup)
    (hheld : (rowIds record).toFinset ⊆ rows)
    (hsegments : ∀ popped ∈ segments, popped.segment ∈ rows)
    (hdistinct : (segments.map Popped.segment).Nodup) (hroom : rows.card ≤ g.maxUnlinksPerPass)
    (h : segments.foldlM (mergeSegment narrow) record = .ok merged) :
    merged.Fits g ∨ Overfull merged := by
  induction segments generalizing record with
  | nil =>
    cases h
    exact .inl hfits
  | cons popped segments ih =>
    obtain ⟨first, hfirst, hrest⟩ := bind_eq_ok_iff.mp h
    rw [List.map_cons, List.nodup_cons] at hdistinct
    have hrowIds := rowIds_mergeSegment hfirst
    have hfirstNodup : (rowIds first).Nodup := by
      rw [hrowIds]
      exact nodup_replan hnodup _
    have hfirstHeld : (rowIds first).toFinset ⊆ rows := by
      rw [hrowIds, toFinset_replan]
      exact Finset.insert_subset (hsegments popped List.mem_cons_self) hheld
    have hfirstRows : first.planned.length ≤ g.maxUnlinksPerPass := by
      rw [length_planned hfirstNodup]
      exact (Finset.card_le_card hfirstHeld).trans hroom
    obtain ⟨hfirstMode, hfirstFits⟩ := fits_mergeSegment hfits hwide
      (hplannable popped List.mem_cons_self) hmode hfirst hfirstRows
    rcases hfirstFits with hfirstFits | ⟨hfull, row, hrow, hsegment, hmany⟩
    · exact ih hfirstFits (List.forall_mem_cons.mp hplannable).2 (hfirstMode ▸ hmode)
        hfirstNodup hfirstHeld (List.forall_mem_cons.mp hsegments).2 hdistinct.2 hrest
    · right
      refine ⟨hfull.trans (length_foldlM hrest), row, ?_, hmany⟩
      apply mem_planned_foldlM hrest hrow
      rw [hsegment]
      exact hdistinct.1

end Merge

/-! ## A whole plan -/

/-- A plan and a record it can be merged into: both name each segment at most once, there
is room for the rows of both together, and the plan's offsets are those of its segments. -/
structure Fitting (maxUnlinksPerPass : ℕ) (record : ReclaimRecord) (plan : ReclaimPlan) : Prop where
  distinct : (rowIds record).Nodup
  plans : (plan.segments.map Popped.segment).Nodup
  room : ((rowIds record).toFinset ∪ (plan.segments.map Popped.segment).toFinset).card ≤
    maxUnlinksPerPass
  plannable : ∀ popped ∈ plan.segments, SegmentLedger.Plannable popped

/-- A record with a mode, a plan's own where it has none. -/
def adopt (record : ReclaimRecord) (mode : EntryMode) : ReclaimRecord :=
  if record.consumerMode = .unrecorded then { record with consumerMode := recordedMode mode }
  else record

section Plan

variable {maxUnlinksPerPass : ℕ} {record merged : ReclaimRecord} {plan : ReclaimPlan}

theorem rowIds_adopt (record : ReclaimRecord) (mode : EntryMode) :
    rowIds (adopt record mode) = rowIds record := by
  unfold adopt
  split
  · rfl
  · rfl

theorem consumerMode_adopt (record : ReclaimRecord) (mode : EntryMode) :
    (adopt record mode).consumerMode ≠ .unrecorded := by
  unfold adopt
  split
  · cases mode with
    | known => exact nofun
    | noConsumer => exact nofun
  · assumption

theorem fits_adopt {g : Geometry} (h : record.Fits g) (mode : EntryMode) :
    (adopt record mode).Fits g := by
  unfold adopt
  split
  · rename_i hunrecorded
    exact h.setMode (.inl hunrecorded)
  · exact h

theorem mergePlan_ok (h : mergePlan record plan maxUnlinksPerPass = .ok (some merged)) :
    ∃ narrow, geometry maxUnlinksPerPass = .ok narrow ∧
      plan.segments.foldlM (mergeSegment narrow) (adopt record plan.mode) = .ok merged := by
  unfold mergePlan at h
  split at h
  · cases h
  rename_i narrow hnarrow
  dsimp only at h
  split at h
  · cases h
  rename_i final hfinal
  refine ⟨narrow, hnarrow, ?_⟩
  have hsome := Except.ok.inj h
  split at hsome
  · cases hsome
    exact hfinal
  · cases hsome

/-- A merge is refused for want of room in the dictionary only. -/
theorem mergePlan_error {error : MergeError} (hpos : 1 ≤ maxUnlinksPerPass)
    (hle : maxUnlinksPerPass ≤ maxUnlinksPerPassCeiling)
    (h : mergePlan record plan maxUnlinksPerPass = .error error) :
    error = .full ⟨defaultMaxTenants⟩ := by
  let configured : Geometry :=
    ⟨defaultMaxTenants, maxUnlinksPerPass, by decide, by decide, hpos, hle⟩
  have hgeometry : geometry maxUnlinksPerPass = .ok configured := Geometry.new_eq_ok configured
  unfold mergePlan at h
  rw [hgeometry] at h
  dsimp only at h
  split at h
  · rename_i full hfull
    cases h
    obtain ⟨popped, -, record, hsegment⟩ := exists_of_foldlM_error hfull
    rw [mergeSegment_error hsegment]
  · cases h

/-- The rows of a merged record are those it had and the plan's, one for each segment. -/
theorem rowIds_mergePlan (hdistinct : (rowIds record).Nodup)
    (h : mergePlan record plan maxUnlinksPerPass = .ok (some merged)) :
    (rowIds merged).Nodup ∧ (rowIds merged).toFinset =
      (rowIds record).toFinset ∪ (plan.segments.map Popped.segment).toFinset := by
  obtain ⟨narrow, -, hmerged⟩ := mergePlan_ok h
  rw [rowIds_foldlM hmerged, rowIds_adopt]
  generalize rowIds record = ids at hdistinct
  induction plan.segments.map Popped.segment generalizing ids with
  | nil => exact ⟨hdistinct, (Finset.union_empty _).symm⟩
  | cons id segments ih =>
    obtain ⟨hnodup, hrows⟩ := ih _ (nodup_replan hdistinct id)
    refine ⟨hnodup, ?_⟩
    rw [List.foldl_cons, hrows, toFinset_replan, List.toFinset_cons, Finset.insert_union,
      Finset.union_insert]

theorem Fitting.rows (hfitting : Fitting maxUnlinksPerPass record plan)
    (h : mergePlan record plan maxUnlinksPerPass = .ok (some merged)) :
    merged.planned.length ≤ maxUnlinksPerPass := by
  obtain ⟨hnodup, hrows⟩ := rowIds_mergePlan hfitting.distinct h
  rw [length_planned hnodup, hrows]
  exact hfitting.room

variable {store : ReclaimStore}

variable (hwritable : Writable maxUnlinksPerPass store)
include hwritable

variable (hfitting : Fitting maxUnlinksPerPass store.record plan)
include hfitting

/-- A merged record can be written, unless a row names too many tenants. -/
theorem Fitting.fits (h : mergePlan store.record plan maxUnlinksPerPass = .ok (some merged)) :
    merged.Fits store.geometry ∨ Overfull merged := by
  obtain ⟨narrow, hnarrow, hmerged⟩ := mergePlan_ok h
  obtain ⟨htenants, -⟩ := Geometry.of_new hnarrow
  refine fits_foldlM (fits_adopt hwritable.fits plan.mode) ?_ hfitting.plannable
    (consumerMode_adopt _ _) ?_ ?_ ?_ hfitting.plans (hfitting.room.trans hwritable.unlinks) hmerged
  · rw [htenants]
    exact hwritable.tenants
  · rw [rowIds_adopt]
    exact hfitting.distinct
  · rw [rowIds_adopt]
    exact Finset.subset_union_left
  · intro popped hpopped
    exact Finset.mem_union_right _ (List.mem_toFinset.mpr (List.mem_map_of_mem hpopped))

/-- The slot encoder refuses a merged record only where its dictionary holds every slot
id. -/
theorem Fitting.encodeNext_error {crc : Crc} {error : EncodeError}
    (h : mergePlan store.record plan maxUnlinksPerPass = .ok (some merged))
    (herror : store.encodeNext crc merged = .error error) :
    maxTenantsCeiling ≤ merged.dictionary.records.length := by
  rcases hfitting.fits hwritable h with hfits | hfull
  · have hgeneration : store.nextGeneration ≠ 0 := by
      unfold ReclaimStore.nextGeneration lastGeneration
      omega
    unfold ReclaimStore.encodeNext at herror
    rw [hfits.encodeSlotInto crc List.length_replicate hgeneration] at herror
    cases herror
  · exact hfull.1

/-- A merged record that the encoder takes can be written again. -/
theorem Fitting.commit {crc : Crc} {next : ReclaimStore}
    (h : mergePlan store.record plan maxUnlinksPerPass = .ok (some merged))
    (hcommit : store.commit crc merged = .ok next) :
    Writable maxUnlinksPerPass next ∧ next.record = merged := by
  rcases hfitting.fits hwritable h with hfits | ⟨-, row, hrow, hmany⟩
  · exact hwritable.commit hfits hcommit
  · unfold ReclaimStore.commit at hcommit
    split at hcommit
    · cases hcommit
    · rename_i slot hslot
      exact absurd (length_lt_of_encodeSlotInto hslot row hrow) (Nat.not_lt.mpr hmany)

end Plan

end Ourios.Housekeeping
