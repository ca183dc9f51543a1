/-
# Planned rows always fit

Rows outlive the plans that wrote them, a pass counts rows in one record and is merged
into a later one, and pops mix segments that replace a row with segments that add one. In
every run the record names each segment at most once and leaves the live plan the room it
counted on: no step adds a row but the write of the live plan, and what a superseded or
settled plan holds can no longer be written.
-/

import Ourios.Wal.MergePlan
import Ourios.Wal.ReclaimRun

namespace Ourios.Housekeeping

open Ourios.Foundation Ourios.Reclaim Ourios.Retain

namespace Keeper

/-- The segments the record has rows for. -/
def rows (keeper : Keeper) : List Uuid :=
  match keeper.store with
  | none => []
  | some store => rowIds store.record

/-- What holds of a process that opened a root, whatever it does. -/
structure Sound (keeper : Keeper) : Prop where
  positive : 1 ≤ keeper.maxUnlinksPerPass
  bounded : keeper.maxUnlinksPerPass ≤ maxUnlinksPerPassCeiling
  located : keeper.ledger.Located
  offered : keeper.ledger.Offered
  writable : ∀ store, keeper.store = some store → Writable keeper.maxUnlinksPerPass store
  distinct : keeper.rows.Nodup
  few : keeper.rows.length ≤ keeper.maxUnlinksPerPass

/-- There is room for a plan's rows beside those of the record. -/
structure Admits (keeper : Keeper) (plan : ReclaimPlan) : Prop where
  plans : (plan.segments.map Popped.segment).Nodup
  plannable : ∀ popped ∈ plan.segments, SegmentLedger.Plannable popped
  room : (keeper.rows.toFinset ∪ (plan.segments.map Popped.segment).toFinset).card ≤
    keeper.maxUnlinksPerPass

/-- A step that neither moves a row nor a pass. -/
structure Stays (keeper after : Keeper) : Prop where
  unlinks : after.maxUnlinksPerPass = keeper.maxUnlinksPerPass
  rows : after.rows = keeper.rows
  live : after.live = keeper.live
  passes : after.passes = keeper.passes

/-- A step that keeps a process sound and moves no pass. -/
structure Keeps (keeper after : Keeper) : Prop where
  sound : after.Sound
  unlinks : after.maxUnlinksPerPass = keeper.maxUnlinksPerPass
  live : after.live = keeper.live
  passes : after.passes = keeper.passes

variable {keeper after last : Keeper}

theorem rows_of_store {store : ReclaimStore} (h : keeper.store = some store) :
    keeper.rows = rowIds store.record := by
  unfold rows
  rw [h]

theorem Sound.keeps (h : keeper.Sound) : keeper.Keeps keeper := ⟨h, rfl, rfl, rfl⟩

theorem Stays.refl (keeper : Keeper) : keeper.Stays keeper := ⟨rfl, rfl, rfl, rfl⟩

theorem Stays.trans (h : keeper.Stays after) (hnext : after.Stays last) : keeper.Stays last :=
  ⟨hnext.unlinks.trans h.unlinks, hnext.rows.trans h.rows, hnext.live.trans h.live,
    hnext.passes.trans h.passes⟩

variable {plan : ReclaimPlan} {ledger : SegmentLedger} {g : Geometry}

theorem Stays.admits (h : keeper.Stays after) (hadmits : keeper.Admits plan) :
    after.Admits plan := by
  refine ⟨hadmits.plans, hadmits.plannable, ?_⟩
  rw [h.rows, h.unlinks]
  exact hadmits.room

/-- Nothing else of a process matters. -/
theorem Sound.congr (h : keeper.Sound)
    (hunlinks : after.maxUnlinksPerPass = keeper.maxUnlinksPerPass)
    (hstore : after.store = keeper.store) (hledger : after.ledger = keeper.ledger) :
    after.Sound := by
  have hrows : after.rows = keeper.rows := by
    unfold rows
    rw [hstore]
  obtain ⟨hpositive, hbounded, hlocated, hoffered, hwritable, hdistinct, hfew⟩ := h
  constructor <;> simp only [hunlinks, hstore, hledger, hrows] <;> assumption

/-- A ledger that is listed as one should be. -/
theorem Sound.listed (h : keeper.Sound) (hlisted : ledger.Listed) :
    Sound { keeper with ledger } :=
  ⟨h.positive, h.bounded, hlisted.located, hlisted.offered, h.writable, h.distinct, h.few⟩

/-- Operations of the ledger that keep its members keep a process sound. -/
theorem Sound.moves (h : keeper.Sound) (hmoves : keeper.ledger.Moves ledger) :
    Sound { keeper with ledger } :=
  h.listed (.of_moves ⟨h.located, h.offered⟩ hmoves)

/-- A change of the record to one that can be written again and whose rows fit. Where it
stops half way the process still has the record it had. -/
theorem Sound.attempt (h : keeper.Sound) (io : Io) {changed : Except StoreError ReclaimStore}
    (hchanged : ∀ store, changed = .ok store → Writable keeper.maxUnlinksPerPass store ∧
      (rowIds store.record).Nodup ∧ (rowIds store.record).length ≤ keeper.maxUnlinksPerPass) :
    keeper.Keeps (keeper.attempt io changed).1 ∧
      ((keeper.attempt io changed).1.rows = keeper.rows ∨ ∃ store, changed = .ok store ∧
        (keeper.attempt io changed).1.rows = rowIds store.record) := by
  unfold Keeper.attempt
  split
  · exact ⟨h.keeps, .inl rfl⟩
  rename_i store
  obtain ⟨hwritable, hdistinct, hfew⟩ := hchanged store rfl
  split
  · exact ⟨h.keeps, .inl rfl⟩
  split
  · refine ⟨⟨⟨h.positive, h.bounded, h.located, h.offered, ?_, hdistinct, hfew⟩, rfl, rfl, rfl⟩,
      .inr ⟨store, rfl, rfl⟩⟩
    rintro _ ⟨⟩
    exact hwritable
  · cases hheld : keeper.store with
    | none =>
      have hsame : keeper.rows = [] := by
        unfold rows
        rw [hheld]
      exact ⟨⟨⟨h.positive, h.bounded, h.located, h.offered, nofun, List.nodup_nil,
        Nat.zero_le _⟩, rfl, rfl, rfl⟩, .inl hsame.symm⟩
    | some held =>
      have hsame := rows_of_store hheld
      have hold := h.writable held hheld
      have hrows : (rowIds held.record).Nodup ∧
          (rowIds held.record).length ≤ keeper.maxUnlinksPerPass := hsame ▸ ⟨h.distinct, h.few⟩
      refine ⟨⟨⟨h.positive, h.bounded, h.located, h.offered, ?_, hrows.1, hrows.2⟩, rfl, rfl,
        rfl⟩, .inl hsame.symm⟩
      rintro _ ⟨⟩
      exact ⟨hold.fits, hold.tenants, hold.unlinks⟩

/-- A change of the record that keeps its rows. -/
theorem Sound.attempt_stays (h : keeper.Sound) (io : Io)
    {changed : Except StoreError ReclaimStore}
    (hchanged : ∀ store, changed = .ok store → Writable keeper.maxUnlinksPerPass store ∧
      rowIds store.record = keeper.rows) :
    (keeper.attempt io changed).1.Sound ∧ keeper.Stays (keeper.attempt io changed).1 := by
  have hsound := h.attempt io fun store hstore => by
    obtain ⟨hwritable, hrows⟩ := hchanged store hstore
    rw [hrows]
    exact ⟨hwritable, h.distinct, h.few⟩
  obtain ⟨hkeeps, hrows⟩ := hsound
  refine ⟨hkeeps.sound, hkeeps.unlinks, ?_, hkeeps.live, hkeeps.passes⟩
  rcases hrows with hsame | ⟨store, hstore, hnew⟩
  · exact hsame
  · exact hnew.trans (hchanged store hstore).2

theorem rows_eq (keeper : Keeper) : keeper.rows =
    ((keeper.store.map fun store => store.record.planned).getD []).map PlannedUnlink.segment := by
  unfold rows
  cases keeper.store with
  | none => rfl
  | some store => rfl

/-! ## What the log does between the parts -/

theorem Sound.append (h : keeper.Sound) (byte : UInt64) (kind : FrameKind)
    (payload : List UInt8) : (keeper.append byte kind payload).Sound := by
  have hplain : FrameAt.Plain ⟨⟨keeper.current, byte.toNat⟩, frameLen payload,
      tenantOf kind payload, keeper.currentPath⟩ :=
    ⟨byte.toNat_lt, fun _ htenant => length_of_tenantOf htenant⟩
  exact (h.listed (.observe ⟨h.located, h.offered⟩ hplain)).congr rfl rfl rfl

theorem Sound.ensureRecord (h : keeper.Sound) (crc : Crc) (io : Io) :
    let attempted := keeper.attempt io
      (Housekeeping.ensureRecord crc keeper.maxUnlinksPerPass keeper.store)
    attempted.1.Sound ∧ keeper.Stays attempted.1 := by
  apply h.attempt_stays
  intro store hstore
  obtain ⟨hwritable, hplanned⟩ := Writable.ensure h.writable hstore
  refine ⟨hwritable, ?_⟩
  rw [rowIds, hplanned, rows_eq]

theorem Sound.rotate (h : keeper.Sound) (crc : Crc) (fresh : Uuid) (io : Io) (renamed : Bool) :
    (keeper.rotate crc fresh io renamed).Sound ∧
      keeper.Stays (keeper.rotate crc fresh io renamed) := by
  obtain ⟨hsound, hstays⟩ := h.ensureRecord crc io
  unfold Keeper.rotate
  split
  · rename_i failed error hattempt
    rw [hattempt] at hsound hstays
    exact ⟨hsound, hstays⟩
  · rename_i recorded hattempt
    rw [hattempt] at hsound hstays
    split
    · exact ⟨hsound.congr rfl rfl rfl, hstays.trans ⟨rfl, rfl, rfl, rfl⟩⟩
    · exact ⟨hsound.congr rfl rfl rfl, hstays.trans ⟨rfl, rfl, rfl, rfl⟩⟩

theorem consume_ok {path : Text} {observed : SegmentLedger} {frame : Landed}
    (h : consume path ledger frame.delivered = .ok observed) :
    ∃ shown : FrameAt, shown.Plain ∧ observed = ledger.observe shown := by
  have hbyte := frame.byte.toNat_lt
  unfold consume at h
  split at h
  · cases h
    refine ⟨_, ⟨hbyte, ?_⟩, rfl⟩
    exact nofun
  · split at h
    · cases h
    · cases h
      refine ⟨_, ⟨hbyte, ?_⟩, rfl⟩
      exact nofun
    · rename_i batch hbatch
      cases h
      refine ⟨_, ⟨hbyte, ?_⟩, rfl⟩
      intro tenant htenant
      cases htenant
      exact TenantBatch.length_of_decode hbatch

theorem Sound.rebuildLedger (h : keeper.Sound) (walked : List (Text × Landed))
    (partials : List Text) : (keeper.rebuildLedger walked partials).Sound ∧
      keeper.Stays (keeper.rebuildLedger walked partials) := by
  unfold Keeper.rebuildLedger
  split
  · exact ⟨h, .refl keeper⟩
  · rename_i rebuilt hwalked
    let holds (_ : List (Text × Landed)) (ledger : SegmentLedger) : Prop := ledger.Listed
    have hstep : ∀ (done : List (Text × Landed)) item before after, holds done before →
        consume item.1 before item.2.delivered = .ok after → holds (done ++ [item]) after := by
      intro done item before after hbefore hconsume
      obtain ⟨shown, hplain, rfl⟩ := consume_ok hconsume
      exact hbefore.observe hplain
    obtain ⟨hlocated, hoffered⟩ : holds walked rebuilt :=
      foldlM_invariant holds hstep (.of_empty rfl) hwalked
    exact ⟨⟨h.positive, h.bounded, hlocated, hoffered, h.writable, h.distinct, h.few⟩,
      rfl, rfl, rfl, rfl⟩

theorem Sound.takeCheckpoint (h : keeper.Sound) (crc : Crc) (durableTo : WalOffset)
    (io : CheckpointIo) : (keeper.takeCheckpoint crc durableTo io).Sound ∧
      keeper.Stays (keeper.takeCheckpoint crc durableTo io) := by
  have harm : (keeper.attempt io.arming (arm crc keeper.maxUnlinksPerPass keeper.store)).1.Sound ∧
      keeper.Stays
        (keeper.attempt io.arming (arm crc keeper.maxUnlinksPerPass keeper.store)).1 := by
    apply h.attempt_stays
    intro store hstore
    obtain ⟨hwritable, hplanned⟩ := Writable.arm h.writable hstore
    refine ⟨hwritable, ?_⟩
    rw [rowIds, hplanned, rows_eq]
  unfold Keeper.takeCheckpoint
  split
  · exact ⟨h, .refl keeper⟩
  split
  · exact ⟨h, .refl keeper⟩
  split
  · rename_i failed error hattempt
    rw [hattempt] at harm
    exact harm
  rename_i armed hattempt
  rw [hattempt] at harm
  obtain ⟨hsound, hstays⟩ := harm
  split
  · dsimp only
    split
    · -- the witness is a write of its own
      let synced : Keeper := { armed with
        checkpoint := some durableTo, version := some .current, gate := .opened }
      have hsynced : synced.Sound := hsound.congr rfl rfl rfl
      have hsame : keeper.Stays synced := hstays.trans ⟨rfl, rfl, rfl, rfl⟩
      split
      · exact ⟨hsynced, hsame⟩
      · rename_i store hstore
        have hwitness : (synced.attempt io.witnessing (witness crc store)).1.Sound ∧
            synced.Stays (synced.attempt io.witnessing (witness crc store)).1 := by
          apply hsynced.attempt_stays
          intro next hnext
          obtain ⟨hwritable, hplanned⟩ := (hsynced.writable store hstore).promote hnext
          refine ⟨hwritable, ?_⟩
          rw [rowIds, hplanned, rows_eq, show synced.store = some store from hstore]
          rfl
        exact ⟨hwitness.1, hsame.trans hwitness.2⟩
    · exact ⟨hsound.congr rfl rfl rfl, hstays.trans ⟨rfl, rfl, rfl, rfl⟩⟩
  · exact ⟨hsound, hstays⟩

/-! ## The ledger half -/

theorem Sound.abandon (h : keeper.Sound) (horizons : SnapshotHorizons) :
    (keeper.abandon horizons).Sound ∧
      (keeper.abandon horizons).maxUnlinksPerPass = keeper.maxUnlinksPerPass ∧
      (keeper.abandon horizons).live = 0 ∧
      (keeper.abandon horizons).passes = keeper.passes := by
  have hidle : Sound { keeper with live := 0, outstanding := none } := h.congr rfl rfl rfl
  unfold Keeper.abandon
  split
  · exact ⟨hidle, rfl, rfl, rfl⟩
  · rename_i abandoned _
    unfold withdrawAcrossModes
    split
    · exact ⟨hidle.congr rfl rfl rfl, rfl, rfl, rfl⟩
    · refine ⟨(hidle.moves (SegmentLedger.Moves.foldl ?_ abandoned.segments _)).congr rfl rfl rfl,
        rfl, rfl, rfl⟩
      exact fun ledger popped => SegmentLedger.moves_withdraw ledger popped.segment

theorem Sound.received (h : keeper.Sound) (horizons : SnapshotHorizons) (maxUnlinks : ℕ)
    (order : List TenantId) : (keeper.received horizons maxUnlinks order).Sound :=
  (h.moves (SegmentLedger.moves_apply keeper.ledger horizons (keeper.cap maxUnlinks) order)).congr
    rfl rfl rfl

/-- Rows of segments and the segments beside them that need a row. -/
theorem card_union_le {ids : List Uuid} {popped : List Popped} {rows : PlannedRows}
    (hdurable : rows.durable = ids.toFinset) :
    (ids.toFinset ∪ (popped.map Popped.segment).toFinset).card ≤
      ids.length + (popped.filter (SegmentLedger.NeedsRow rows)).length := by
  rw [← Finset.union_sdiff_self_eq_union]
  refine (Finset.card_union_le _ _).trans (Nat.add_le_add (List.toFinset_card_le ids) ?_)
  have hsubset : (popped.map Popped.segment).toFinset \ ids.toFinset ⊆
      ((popped.filter (SegmentLedger.NeedsRow rows)).map Popped.segment).toFinset := by
    intro id hid
    obtain ⟨hmem, hnot⟩ := Finset.mem_sdiff.mp hid
    obtain ⟨one, hone, rfl⟩ := List.mem_map.mp (List.mem_toFinset.mp hmem)
    refine List.mem_toFinset.mpr (List.mem_map_of_mem (List.mem_filter.mpr ⟨hone, ?_⟩))
    refine decide_eq_true ?_
    rw [hdurable]
    exact hnot
  refine (Finset.card_le_card hsubset).trans ((List.toFinset_card_le _).trans ?_)
  rw [List.length_map]

theorem plannedRows_eq (keeper : Keeper) {store : ReclaimStore}
    (hstore : keeper.store = some store) :
    keeper.plannedRows.durable = keeper.rows.toFinset ∧
      keeper.plannedRows.free = keeper.maxUnlinksPerPass - keeper.rows.length := by
  have hrecord : keeper.record = some store.record := by
    unfold Keeper.record
    rw [hstore]
    rfl
  have hrows := rows_of_store hstore
  unfold plannedRows
  rw [hrecord, hrows]
  refine ⟨rfl, ?_⟩
  change _ - max store.record.planned.length (rowIds store.record).toFinset.card = _
  have hle : (rowIds store.record).toFinset.card ≤ store.record.planned.length := by
    refine (List.toFinset_card_le _).trans ?_
    rw [rowIds, List.length_map]
  rw [Nat.max_eq_left hle, rowIds, List.length_map]

/-- A checkpoint that is on disk in all its parts has a record beside it. -/
theorem exists_store_of_settled (h : keeper.checkpointIsSettled = true) :
    ∃ store, keeper.store = some store := by
  obtain ⟨-, hrecord⟩ := Bool.and_eq_true_iff.mp h
  cases hstore : keeper.store with
  | some store => exact ⟨store, rfl⟩
  | none =>
    unfold Keeper.record at hrecord
    rw [hstore] at hrecord
    cases hrecord

/-- What a pass pops has room beside the rows that are there. -/
theorem Sound.popSegments (h : keeper.Sound) (horizons : SnapshotHorizons) (budget : ℕ) :
    keeper.ledger.Moves (keeper.popSegments horizons budget).1 ∧
      (∀ popped ∈ (keeper.popSegments horizons budget).2.1, SegmentLedger.Plannable popped) ∧
      ((keeper.popSegments horizons budget).2.1.map Popped.segment).Nodup ∧
      (keeper.rows.toFinset ∪
          ((keeper.popSegments horizons budget).2.1.map Popped.segment).toFinset).card ≤
        keeper.maxUnlinksPerPass := by
  have hnone : (keeper.rows.toFinset ∪ (List.map Popped.segment []).toFinset).card ≤
      keeper.maxUnlinksPerPass := by
    rw [List.map_nil, List.toFinset_nil, Finset.union_empty]
    exact (List.toFinset_card_le _).trans h.few
  unfold Keeper.popSegments
  split
  · exact ⟨.refl _, nofun, List.nodup_nil, hnone⟩
  rename_i checkpoint _
  split
  · rename_i hsettled
    obtain ⟨store, hstore⟩ := exists_store_of_settled hsettled
    obtain ⟨hdurable, hfree⟩ := keeper.plannedRows_eq hstore
    obtain ⟨hneeds, -, hnodup, -, hplannable⟩ := SegmentLedger.pop_bounded h.located
      (keeper.popBound checkpoint horizons) budget
    refine ⟨SegmentLedger.moves_pop _ _ _, hplannable, hnodup, ?_⟩
    refine (card_union_le hdurable).trans ?_
    change _ ≤ (keeper.plannedRows).free at hneeds
    rw [hfree] at hneeds
    have hfew := h.few
    exact (Nat.add_le_add_left hneeds _).trans (Nat.le_of_eq (Nat.add_sub_cancel' hfew))
  · exact ⟨.refl _, nofun, List.nodup_nil, hnone⟩

theorem Sound.planPass (h : keeper.Sound) (horizons : SnapshotHorizons) (maxUnlinks : ℕ)
    (order : List TenantId) :
    (keeper.planPass horizons maxUnlinks order).1.Sound ∧
      (keeper.planPass horizons maxUnlinks order).1.Admits
        (keeper.planPass horizons maxUnlinks order).2 ∧
      (keeper.planPass horizons maxUnlinks order).1.passes = keeper.passes + 1 ∧
      (keeper.planPass horizons maxUnlinks order).1.live = keeper.passes + 1 ∧
      (keeper.planPass horizons maxUnlinks order).2.pass = keeper.passes + 1 := by
  have hreceived := h.received horizons maxUnlinks order
  obtain ⟨hmoves, hplannable, hplans, hroom⟩ :=
    hreceived.popSegments horizons (keeper.segmentBudget maxUnlinks)
  exact ⟨(hreceived.moves hmoves).congr rfl rfl rfl, ⟨hplans, hplannable, hroom⟩, rfl, rfl, rfl⟩

/-! ## The record half -/

theorem Admits.fitting {store : ReclaimStore} (hadmits : keeper.Admits plan) (h : keeper.Sound)
    (hstore : keeper.store = some store) :
    Fitting keeper.maxUnlinksPerPass store.record plan := by
  have hrows := rows_of_store hstore
  exact ⟨hrows ▸ h.distinct, hadmits.plans, hrows ▸ hadmits.room, hadmits.plannable⟩

/-- Writing a plan there is room for leaves room for it, and moves no pass. -/
theorem Sound.writePlan (h : keeper.Sound) (crc : Crc) (io : Io)
    (hadmits : keeper.live ≠ 0 → plan.pass = keeper.live → keeper.Admits plan) :
    keeper.Keeps (keeper.writePlan crc plan io).1 ∧
      ((keeper.writePlan crc plan io).1.rows = keeper.rows ∨
        keeper.live ≠ 0 ∧ plan.pass = keeper.live ∧
          (keeper.writePlan crc plan io).1.Admits plan) := by
  unfold Keeper.writePlan
  split
  · exact ⟨h.keeps, .inl rfl⟩
  rename_i hlive
  split
  · exact ⟨h.keeps, .inl rfl⟩
  rename_i hpass
  have hsame : plan.pass = keeper.live := (not_not.mp hpass).symm
  have hroom := hadmits hlive hsame
  split
  · exact ⟨h.keeps, .inl rfl⟩
  split
  · exact ⟨h.keeps, .inl rfl⟩
  rename_i store hstore
  have hfitting := hroom.fitting h hstore
  split
  · exact ⟨h.keeps, .inl rfl⟩
  · exact ⟨h.keeps, .inl rfl⟩
  rename_i merged hmerged
  obtain ⟨hdistinct, hids⟩ := rowIds_mergePlan hfitting.distinct hmerged
  have hfew : (rowIds merged).length ≤ keeper.maxUnlinksPerPass := by
    rw [rowIds, List.length_map]
    exact hfitting.rows hmerged
  have hchanged : ∀ next, store.commit crc merged = .ok next →
      Writable keeper.maxUnlinksPerPass next ∧ (rowIds next.record).Nodup ∧
        (rowIds next.record).length ≤ keeper.maxUnlinksPerPass := by
    intro next hnext
    obtain ⟨hwritable, hrecord⟩ := hfitting.commit (h.writable store hstore) hmerged hnext
    rw [hrecord]
    exact ⟨hwritable, hdistinct, hfew⟩
  obtain ⟨hkeeps, hrows⟩ := h.attempt io hchanged
  refine ⟨hkeeps, ?_⟩
  rcases hrows with hkept | ⟨next, hcommit, hnew⟩
  · exact .inl hkept
  · refine .inr ⟨hlive, hsame, hroom.plans, hroom.plannable, ?_⟩
    obtain ⟨-, hrecord⟩ := hfitting.commit (h.writable store hstore) hmerged hcommit
    rw [hnew, hkeeps.unlinks, hrecord, hids, Finset.union_assoc, Finset.union_self]
    exact hfitting.room

/-! ## The ledger half again -/

/-- What folding unlink results back keeps: the ledger's members, and a record that can be
written again whose rows fit. -/
structure Settling.Sound (g : Geometry) (bound : ℕ) (ledger : SegmentLedger)
    (settling : Settling) : Prop where
  moves : ledger.Moves settling.ledger
  fits : settling.record.Fits g
  distinct : (rowIds settling.record).Nodup
  few : (rowIds settling.record).length ≤ bound

theorem fits_markUncertain {record : ReclaimRecord} (h : record.Fits g) (segment : Uuid) :
    (markUncertain record segment).Fits g ∧
      rowIds (markUncertain record segment) = rowIds record := by
  have hrow : ∀ row ∈ (markUncertain record segment).planned, ∃ old ∈ record.planned,
      row.segment = old.segment ∧ row.lastOffsets = old.lastOffsets := by
    intro row hrow
    obtain ⟨old, hold, rfl⟩ := List.mem_map.mp hrow
    refine ⟨old, hold, ?_⟩
    split
    · exact ⟨rfl, rfl⟩
    · exact ⟨rfl, rfl⟩
  refine ⟨⟨h.tenants, h.keys, h.entries, h.distinct, ?_, ?_, ?_, ?_⟩, ?_⟩
  · change (List.map _ record.planned).length ≤ _
    rw [List.length_map]
    exact h.rows
  · intro hne
    apply h.mode
    intro hnil
    apply hne
    change List.map _ record.planned = []
    rw [hnil, List.map_nil]
  · intro row hmem pair hpair
    obtain ⟨old, hold, hsegment, hoffsets⟩ := hrow row hmem
    rw [hoffsets] at hpair
    rw [hsegment]
    exact h.pairs old hold pair hpair
  · intro row hmem
    obtain ⟨old, hold, -, hoffsets⟩ := hrow row hmem
    rw [hoffsets]
    exact h.counts old hold
  · unfold rowIds markUncertain
    rw [List.map_map]
    apply List.map_congr_left
    intro row _
    change PlannedUnlink.segment (if row.segment = segment then { row with uncertain := true }
      else row) = row.segment
    split
    · rfl
    · rfl

theorem fits_raiseEntry {record raised : ReclaimRecord} {segment : Uuid} (h : record.Fits g)
    (hraise : raiseEntry record segment = .ok raised) :
    raised.Fits g ∧ rowIds raised = rowIds record := by
  unfold raiseEntry at hraise
  split at hraise
  · cases hraise
    exact ⟨h, rfl⟩
  rename_i mode hmode
  split at hraise
  · cases hraise
    exact ⟨h, rfl⟩
  rename_i row hfind
  have hoffsets : ∀ pair ∈ row.lastOffsets.entries, pair.2.byte < 2 ^ 64 :=
    fun pair hpair => (h.pairs row (List.mem_of_find?_eq_some hfind) pair hpair).2.2
  obtain ⟨hfits, -, hplanned, -⟩ := raiseReclaimed_ok h hmode hoffsets hraise
  refine ⟨hfits, ?_⟩
  unfold rowIds
  rw [hplanned]

theorem rowIds_releaseRow (record : ReclaimRecord) (segment : Uuid) :
    rowIds (releaseRow record segment) = (rowIds record).filter fun id => id ≠ segment := by
  unfold rowIds releaseRow
  rw [List.filter_map]
  rfl

theorem Settling.Sound.settleSegments {bound : ℕ} {settling : Settling}
    (h : settling.Sound g bound ledger) (removed : List Text) (fsyncFailed : Bool)
    (segments : List Popped) :
    (Keeper.settleSegments removed fsyncFailed settling segments).1.Sound g bound ledger := by
  induction segments generalizing settling with
  | nil => exact h
  | cons popped rest ih =>
    unfold Keeper.settleSegments
    split
    · split
      · -- removed, but the directory was not made durable
        obtain ⟨hfits, hrows⟩ := fits_markUncertain h.fits popped.segment
        apply ih
        refine ⟨h.moves.trans (SegmentLedger.moves_hold _ _ _), hfits, ?_, ?_⟩
        · rw [hrows]
          exact h.distinct
        · rw [hrows]
          exact h.few
      · split
        · exact h
        · rename_i raised hraise
          obtain ⟨hfits, hrows⟩ := fits_raiseEntry h.fits hraise
          apply ih
          refine ⟨h.moves.trans (SegmentLedger.moves_remove _ _), hfits.release _, ?_, ?_⟩
          · rw [rowIds_releaseRow, hrows]
            exact h.distinct.filter _
          · rw [rowIds_releaseRow, hrows]
            exact (List.length_filter_le _ _).trans h.few
    · exact ih ⟨h.moves.trans (SegmentLedger.moves_hold _ _ _), h.fits, h.distinct, h.few⟩

theorem Sound.settleUnlinked (h : keeper.Sound) (outstanding : Outstanding) (removed : List Text)
    (fsyncFailed : Bool) :
    keeper.Keeps (keeper.settleUnlinked outstanding removed fsyncFailed).1 := by
  unfold Keeper.settleUnlinked
  split
  · exact ⟨h.congr rfl rfl rfl, rfl, rfl, rfl⟩
  rename_i store hstore
  have hrows := rows_of_store hstore
  have hwritable := h.writable store hstore
  have hstart : Settling.Sound store.geometry keeper.maxUnlinksPerPass keeper.ledger
      ⟨keeper.ledger, store.record, keeper.unreclaimedBytes, 0⟩ :=
    ⟨.refl _, hwritable.fits, hrows ▸ h.distinct, hrows ▸ h.few⟩
  have hsettled := hstart.settleSegments removed fsyncFailed outstanding.segments
  dsimp only
  split
  · exact ⟨(h.moves hsettled.moves).congr rfl rfl rfl, rfl, rfl, rfl⟩
  · have hmoved := h.moves hsettled.moves
    refine ⟨⟨hmoved.positive, hmoved.bounded, hmoved.located, hmoved.offered, ?_,
      hsettled.distinct, hsettled.few⟩, rfl, rfl, rfl⟩
    rintro _ ⟨⟩
    exact ⟨hsettled.fits, hwritable.tenants, hwritable.unlinks⟩

theorem Sound.commit (h : keeper.Sound) (pass : ℕ) (outcome : ReclaimOutcome) :
    (keeper.commit pass outcome).1.Sound ∧
      (keeper.commit pass outcome).1.maxUnlinksPerPass = keeper.maxUnlinksPerPass ∧
      (keeper.commit pass outcome).1.passes = keeper.passes ∧
      ((keeper.commit pass outcome).1 = keeper ∨ (keeper.commit pass outcome).1.live = 0) := by
  unfold Keeper.commit
  split
  · exact ⟨h, rfl, rfl, .inl rfl⟩
  rename_i outstanding _
  split
  · exact ⟨h, rfl, rfl, .inl rfl⟩
  have hspent : Sound { keeper with live := 0, outstanding := none } := h.congr rfl rfl rfl
  split
  · refine ⟨(hspent.moves (SegmentLedger.Moves.foldl ?_ outstanding.segments _)).congr rfl rfl rfl,
      rfl, rfl, .inr rfl⟩
    exact fun ledger popped => SegmentLedger.moves_restore ledger popped.segment
  · rename_i removed fsyncFailed
    have hkeeps := hspent.settleUnlinked outstanding removed fsyncFailed
    exact ⟨hkeeps.sound, hkeeps.unlinks, hkeeps.passes, .inr hkeeps.live⟩

/-! ## Rows come first -/

/-- What a pass that is not refused hands out was popped once its horizons were applied. -/
theorem segments_prepare {horizons : SnapshotHorizons} {maxUnlinks : ℕ} {order : List TenantId}
    (h : keeper.prepare horizons maxUnlinks order = (after, .ok plan)) :
    plan.segments = (((keeper.abandon horizons).received horizons maxUnlinks order).popSegments
      horizons ((keeper.abandon horizons).segmentBudget maxUnlinks)).2.1 := by
  unfold prepare at h
  dsimp only at h
  split at h
  · cases h
  · cases h
    rfl

/-- A pass that plans a segment and leaves out an eligible one that has a row has spent its
budget. -/
theorem Sound.rows_first (h : keeper.Sound) {horizons : SnapshotHorizons} {budget : ℕ}
    {checkpoint : WalOffset} {id : Uuid} {popped : Popped}
    (hcheckpoint : keeper.checkpoint = some checkpoint) (hrow : id ∈ keeper.rows)
    (heligible : keeper.ledger.Eligible (keeper.popBound checkpoint horizons) id)
    (hunplanned : id ∉ (keeper.popSegments horizons budget).2.1.map Popped.segment)
    (hpopped : popped ∈ (keeper.popSegments horizons budget).2.1) :
    (keeper.popSegments horizons budget).2.1.length = budget := by
  unfold Keeper.popSegments at hunplanned hpopped ⊢
  rw [hcheckpoint] at hunplanned hpopped ⊢
  dsimp only at hunplanned hpopped ⊢
  split at hpopped
  · rename_i hsettled
    rw [if_pos hsettled] at hunplanned
    obtain ⟨store, hstore⟩ := exists_store_of_settled hsettled
    obtain ⟨hdurable, -⟩ := keeper.plannedRows_eq hstore
    have hdurableRow : id ∈ (keeper.popBound checkpoint horizons).rows.durable := by
      change id ∈ keeper.plannedRows.durable
      rw [hdurable]
      exact List.mem_toFinset.mpr hrow
    have hspent := SegmentLedger.pop_rows_first h.offered heligible hdurableRow
      (List.ne_nil_of_mem hpopped) hunplanned
    have hbounded :=
      SegmentLedger.pop_bounded h.located (keeper.popBound checkpoint horizons) budget
    rw [if_pos hsettled]
    exact Nat.le_antisymm hbounded.2.1 hspent
  · cases hpopped

end Keeper

/-! ## Whole runs -/

namespace Session

/-- The live plan of a sound process has the room it counted on, and no two plans are of
one pass. -/
structure Sound (maxUnlinksPerPass : ℕ) (session : Session) : Prop where
  keeper : session.keeper.Sound
  configured : session.keeper.maxUnlinksPerPass = maxUnlinksPerPass
  passes : ∀ plan ∈ session.plans, plan.pass ≤ session.keeper.passes
  unique : ∀ first ∈ session.plans, ∀ second ∈ session.plans, first.pass = second.pass →
    first = second
  live : ∀ plan ∈ session.plans, session.keeper.live ≠ 0 → plan.pass = session.keeper.live →
    session.keeper.Admits plan

variable {maxUnlinksPerPass : ℕ} {session : Session}

variable (h : session.Sound maxUnlinksPerPass)
include h

/-- A step that moves neither a row nor a pass. -/
theorem Sound.stays {after : Keeper} (hsound : after.Sound) (hstays : session.keeper.Stays after) :
    Sound maxUnlinksPerPass { session with keeper := after } where
  keeper := hsound
  configured := hstays.unlinks.trans h.configured
  passes plan hplan := by
    rw [hstays.passes]
    exact h.passes plan hplan
  unique := h.unique
  live plan hplan hlive hpass := by
    rw [hstays.live] at hlive hpass
    exact hstays.admits (h.live plan hplan hlive hpass)

/-- A step after which no plan is live. -/
theorem Sound.idles {after : Keeper} (hsound : after.Sound)
    (hunlinks : after.maxUnlinksPerPass = session.keeper.maxUnlinksPerPass)
    (hpasses : after.passes = session.keeper.passes) (hlive : after.live = 0) :
    Sound maxUnlinksPerPass { session with keeper := after } where
  keeper := hsound
  configured := hunlinks.trans h.configured
  passes plan hplan := by
    rw [hpasses]
    exact h.passes plan hplan
  unique := h.unique
  live _ _ hne := absurd hlive hne

theorem Sound.prepare (crc : Crc) (horizons : SnapshotHorizons)
    (maxUnlinks : ℕ) (order : List TenantId) :
    (session.step crc (.prepare horizons maxUnlinks order)).Sound maxUnlinksPerPass := by
  obtain ⟨hidle, hunlinks, hlive, hpasses⟩ := h.keeper.abandon horizons
  unfold step
  unfold Keeper.prepare
  dsimp only
  split
  · rename_i keeper error hresult
    split at hresult
    · cases hresult
      exact h.idles hidle hunlinks hpasses hlive
    · cases hresult
  · rename_i keeper plan hresult
    split at hresult
    · cases hresult
    · cases hresult
      obtain ⟨hplanned, hadmits, hnext, hliveNext, hpass⟩ :=
        hidle.planPass horizons maxUnlinks order
      rw [hpasses] at hnext hliveNext hpass
      -- every earlier plan is of an earlier pass
      have hearlier : ∀ other ∈ session.plans, other.pass <
          ((session.keeper.abandon horizons).planPass horizons maxUnlinks order).2.pass := by
        intro other hother
        rw [hpass]
        exact Nat.lt_succ_of_le (h.passes other hother)
      refine ⟨hplanned, hunlinks.trans h.configured, ?_, ?_, ?_⟩
      · rw [hnext, ← hpass]
        exact List.forall_mem_append.mpr ⟨fun other hother => Nat.le_of_lt (hearlier other hother),
          List.forall_mem_singleton.mpr (Nat.le_refl _)⟩
      · refine List.forall_mem_append.mpr ⟨fun first hfirst => List.forall_mem_append.mpr
          ⟨h.unique first hfirst, List.forall_mem_singleton.mpr fun heq => ?_⟩,
          List.forall_mem_singleton.mpr (List.forall_mem_append.mpr ⟨fun second hsecond heq => ?_,
            List.forall_mem_singleton.mpr fun _ => rfl⟩)⟩
        · exact absurd heq (Nat.ne_of_lt (hearlier first hfirst))
        · exact absurd heq.symm (Nat.ne_of_lt (hearlier second hsecond))
      · refine List.forall_mem_append.mpr ⟨fun other hother _ hpast => ?_,
          List.forall_mem_singleton.mpr fun _ _ => hadmits⟩
        exact absurd hpast (Nat.ne_of_lt (hearlier other hother))

theorem Sound.writePlan (crc : Crc) (index : ℕ) (io : Keeper.Io) :
    (session.step crc (.writePlan index io)).Sound maxUnlinksPerPass := by
  unfold step
  dsimp only
  split
  · exact h
  rename_i plan hplan
  have hmem : plan ∈ session.plans := List.mem_of_getElem? hplan
  obtain ⟨⟨hsound, hunlinks, hlive, hpasses⟩, hrows⟩ :=
    h.keeper.writePlan crc io (h.live plan hmem)
  rcases hrows with hsame | ⟨hne, hpass, hadmits⟩
  · exact h.stays hsound ⟨hunlinks, hsame, hlive, hpasses⟩
  · refine ⟨hsound, hunlinks.trans h.configured, ?_, h.unique, ?_⟩
    · intro other hother
      rw [hpasses]
      exact h.passes other hother
    · -- the live plan is the one that was written
      intro other hother _ hother_live
      rw [hlive, ← hpass] at hother_live
      rw [h.unique other hother plan hmem hother_live]
      exact hadmits

theorem Sound.step (crc : Crc) (step : Step) : (session.step crc step).Sound maxUnlinksPerPass := by
  cases step with
  | append byte kind payload =>
    exact h.stays (h.keeper.append byte kind payload) ⟨rfl, rfl, rfl, rfl⟩
  | rotate fresh io renamed =>
    obtain ⟨hsound, hstays⟩ := h.keeper.rotate crc fresh io renamed
    exact h.stays hsound hstays
  | rebuildLedger walked partials =>
    obtain ⟨hsound, hstays⟩ := h.keeper.rebuildLedger walked partials
    exact h.stays hsound hstays
  | checkpoint durableTo io =>
    obtain ⟨hsound, hstays⟩ := h.keeper.takeCheckpoint crc durableTo io
    exact h.stays hsound hstays
  | prepare horizons maxUnlinks order => exact h.prepare crc horizons maxUnlinks order
  | writePlan index io => exact h.writePlan crc index io
  | commit pass outcome =>
    obtain ⟨hsound, hunlinks, hpasses, hsame⟩ := h.keeper.commit pass outcome
    rcases hsame with hsame | hlive
    · refine h.stays hsound ?_
      rw [hsame]
      exact .refl _
    · exact h.idles hsound hunlinks hpasses hlive

theorem Sound.run (crc : Crc) (steps : List Step) :
    ((machine crc).run session steps).1.Sound maxUnlinksPerPass :=
  (machine crc).run_preserves (Sound maxUnlinksPerPass)
    (fun _ step hsound => hsound.step crc step) h steps

end Session

/-- A root is opened with a ledger nothing is known of, or nothing is to be known of. -/
theorem Keeper.Sound.openRoot {crc : Crc} {root : Text} {maxUnlinksPerPass : ℕ}
    {sidecar : Option Sidecar} {file : Option (List UInt8)} {segments : List SegmentFound}
    {partials : List Text} {target : Uuid × Text} {keeper : Keeper}
    (h : Keeper.openRoot crc root maxUnlinksPerPass sidecar file segments partials target =
      .ok keeper) : keeper.Sound ∧ keeper.maxUnlinksPerPass = maxUnlinksPerPass := by
  unfold Keeper.openRoot at h
  split at h
  · rename_i hvalid
    split at h
    · cases h
    rename_i found hfound
    cases h
    have hledger : SegmentLedger.Listed
        (if segments = [] then ({} : SegmentLedger).describeRoot else {}) :=
      .of_empty (by split <;> rfl)
    have hrows : ∀ opened : Keeper, opened.store = found.store → opened.rows = [] := by
      intro opened hopened
      rw [Keeper.rows_eq, hopened]
      cases hstore : found.store with
      | none => rfl
      | some store => simp [(Writable.root hfound hstore).2]
    refine ⟨⟨hvalid.1, hvalid.2, hledger.located, hledger.offered, ?_, ?_, ?_⟩, rfl⟩
    · intro store hstore
      exact (Writable.root hfound hstore).1
    · rw [hrows _ rfl]
      exact List.nodup_nil
    · rw [hrows _ rfl]
      exact Nat.zero_le _
  · cases h

/-- In every history of a root this code opened: a live plan merges into the record or finds
the dictionary full; the merged record has at most as many rows as the root allows unlinks
in a pass, names no segment twice, and is refused by the slot encoder only where the
dictionary holds every slot id there is; and a pass that plans a segment without a row while
an eligible one with a row is left out has spent its budget. -/
theorem Session.planned_rows_fit {crc : Crc} {root : Text} {maxUnlinksPerPass : ℕ}
    {sidecar : Option Sidecar} {file : Option (List UInt8)} {segments : List SegmentFound}
    {partials : List Text} {target : Uuid × Text} {opened : Keeper}
    (hopen : Keeper.openRoot crc root maxUnlinksPerPass sidecar file segments partials target =
      .ok opened) (steps : List Step) :
    let session := ((machine crc).run ⟨opened, []⟩ steps).1
    let keeper := session.keeper
    (∀ plan ∈ session.plans, keeper.live ≠ 0 → plan.pass = keeper.live →
      ∀ store, keeper.store = some store →
        (∀ error, mergePlan store.record plan maxUnlinksPerPass = .error error →
          error = .full ⟨defaultMaxTenants⟩) ∧
        ∀ merged, mergePlan store.record plan maxUnlinksPerPass = .ok (some merged) →
          merged.planned.length ≤ maxUnlinksPerPass ∧ (rowIds merged).Nodup ∧
          ∀ error, store.encodeNext crc merged = .error error →
            maxTenantsCeiling ≤ merged.dictionary.records.length) ∧
    ∀ horizons maxUnlinks order next plan,
      keeper.prepare horizons maxUnlinks order = (next, .ok plan) →
        let popping := (keeper.abandon horizons).received horizons maxUnlinks order
        ∀ checkpoint, popping.checkpoint = some checkpoint →
          ∀ id ∈ popping.rows, popping.ledger.Eligible (popping.popBound checkpoint horizons) id →
            id ∉ plan.segments.map Popped.segment →
              ∀ popped ∈ plan.segments, popped.segment ∉ popping.rows →
                plan.segments.length = (keeper.abandon horizons).segmentBudget maxUnlinks := by
  intro session keeper
  obtain ⟨hopened, hunlinks⟩ := Keeper.Sound.openRoot hopen
  have hstart : Sound maxUnlinksPerPass ⟨opened, []⟩ := by
    refine ⟨hopened, hunlinks, ?_, ?_, ?_⟩
    all_goals
      intro plan hplan
      cases hplan
  have hsound : session.Sound maxUnlinksPerPass := hstart.run crc steps
  rw [← hsound.configured]
  refine ⟨?_, ?_⟩
  · intro plan hplan hlive hpass store hstore
    have hfitting := (hsound.live plan hplan hlive hpass).fitting hsound.keeper hstore
    refine ⟨fun error => mergePlan_error hsound.keeper.positive hsound.keeper.bounded, ?_⟩
    intro merged hmerged
    refine ⟨hfitting.rows hmerged, (rowIds_mergePlan hfitting.distinct hmerged).1, ?_⟩
    intro error
    exact hfitting.encodeNext_error (hsound.keeper.writable store hstore) hmerged
  · intro horizons maxUnlinks order next plan hprepare popping checkpoint hcheckpoint id hrow
      heligible hunplanned popped hpopped _
    obtain ⟨hidle, -⟩ := hsound.keeper.abandon horizons
    have hpopping : popping.Sound := hidle.received horizons maxUnlinks order
    rw [Keeper.segments_prepare hprepare] at hunplanned hpopped ⊢
    exact hpopping.rows_first hcheckpoint hrow heligible hunplanned hpopped

/-! ## A run over rows -/

/-- A store as a commit that is laid out leaves it. -/
def rewritten (crc : Crc) (store : ReclaimStore) (record : ReclaimRecord) : ReclaimStore where
  file := overwrite store.file (store.geometry.slotOffset store.live.other)
    ((store.encodeNext crc record).toOption.getD [])
  geometry := store.geometry
  live := store.live.other
  generation := store.nextGeneration
  record := record

/-- A plan whose merged record can be laid out is written. -/
theorem Keeper.writePlan_eq {crc : Crc} {keeper : Keeper} {store : ReclaimStore}
    {plan : ReclaimPlan} {merged : ReclaimRecord} (hstore : keeper.store = some store)
    (hlive : keeper.live ≠ 0) (hpass : plan.pass = keeper.live) (hrecords : plan.records = true)
    (hmerged : mergePlan store.record plan keeper.maxUnlinksPerPass = .ok (some merged))
    (hslot : ∀ error, store.encodeNext crc merged ≠ .error error) :
    (keeper.writePlan crc plan none).1 =
      { keeper with store := some (rewritten crc store merged) } := by
  have hcommit : store.commit crc merged = .ok (rewritten crc store merged) := by
    unfold ReclaimStore.commit rewritten
    cases hencoded : store.encodeNext crc merged with
    | error error => exact absurd hencoded (hslot error)
    | ok slot => rfl
  have hmoves : some store ≠ some (rewritten crc store merged) := by
    intro hsame
    have hother : store.live = store.live.other :=
      congrArg ReclaimStore.live (Option.some.inj hsame)
    cases hfirst : store.live <;> rw [hfirst] at hother <;> cases hother
  unfold writePlan attempt
  rw [if_neg hlive, if_neg (not_not.mpr hpass.symm), hrecords, if_neg nofun]
  simp only [hstore, hmerged, hcommit, if_neg hmoves]

/-- A root with a witnessed checkpoint and no row left is opened as it is. -/
theorem root_current {crc : Crc} {needed : Geometry} {maxUnlinksPerPass : ℕ} {offset : WalOffset}
    {file : List UInt8} {store : ReclaimStore} {segments : List SegmentFound}
    (hneeded : geometry maxUnlinksPerPass = .ok needed)
    (hfile : ReclaimStore.decodeFile crc file = .ok store)
    (hcovers : store.geometry.covers needed = true)
    (hwitness : store.record.witness.checkpoint = .terminal) (hrows : store.record.planned = []) :
    root crc maxUnlinksPerPass (some ⟨offset, .current⟩) (some file) segments =
      .ok (.witnessed store) := by
  refine bind_eq_ok_iff.mpr ⟨needed, mapError_eq_ok_iff.mpr hneeded, bind_eq_ok_iff.mpr
    ⟨store, mapError_eq_ok_iff.mpr ?_, bind_eq_ok_iff.mpr ⟨store, mapError_eq_ok_iff.mpr
      (if_pos hwitness), bind_eq_ok_iff.mpr ⟨store, if_pos hrows, rfl⟩⟩⟩⟩
  unfold ReclaimStore.openStore
  rw [hfile]
  exact if_pos hcovers

namespace Session

def zeroCrc : Crc := fun _ => 0

def twoUnlinks : Geometry :=
  { Reclaim.Session.pair with
    maxTenants := defaultMaxTenants
    tenants_pos := by decide
    tenants_le := by decide }

/-- A checkpoint was taken and no row is left. -/
def checkpointed : ReclaimRecord := withCheckpoint {} .terminal

def recordFile : List UInt8 :=
  (wholeFile zeroCrc twoUnlinks checkpointed firstGeneration).toOption.getD []

def found : ReclaimStore := ⟨recordFile, twoUnlinks, .first, firstGeneration, checkpointed⟩

theorem decodeFile_recordFile : ReclaimStore.decodeFile zeroCrc recordFile = .ok found := by
  have hfirst : firstGeneration ≠ 0 ∧ firstGeneration ≤ lastGeneration := by decide
  have hfits : checkpointed.Fits twoUnlinks := fits_withCheckpoint (fits_empty twoUnlinks) .terminal
  obtain ⟨file, hfile, hsound⟩ := ReclaimStore.wholeFile_sound zeroCrc hfits hfirst.1 hfirst.2
  have hrecord : recordFile = file := by
    unfold recordFile
    rw [hfile]
    rfl
  unfold found
  rw [hrecord]
  exact hsound.decodeFile

/-- Open a root of four segments with a checkpoint at the last of them. -/
def reopen : Except OpenError Keeper :=
  Keeper.openRoot zeroCrc [] 2 (some ⟨⟨3, 0⟩, .current⟩) (some recordFile)
    ([0, 1, 2, 3].map fun uuid => ⟨segmentPath [] uuid, some (.new uuid)⟩) [] (3, segmentPath [] 3)

def reopened : Keeper where
  root := []
  maxUnlinksPerPass := 2
  current := 3
  currentPath := segmentPath [] 3
  checkpoint := some ⟨3, 0⟩
  version := some .current
  gate := .opened
  legacyOrigin := false
  store := some found
  ledger := {}
  stalePartials := []

theorem reopen_eq : reopen = .ok reopened := by
  have hneeded : geometry 2 = .ok twoUnlinks := Geometry.new_eq_ok twoUnlinks
  unfold reopen Keeper.openRoot
  rw [if_pos (by decide), root_current hneeded decodeFile_recordFile (by decide) rfl rfl]
  rfl

/-- A pass over the segments that the horizon of the one tenant has passed. -/
def passUpTo (segment : Uuid) : Step :=
  .prepare (.known ((∅ : Marks).insert ['a'] (.restorable ⟨segment, 50⟩))) 2 [['a']]

/-- The ledger of three closed segments is rebuilt, and two of them are planned. -/
def planning : List Step :=
  [.rebuildLedger ([0, 1, 2].map fun segment =>
    (segmentPath [] segment, ⟨segment, 50, .tenantOtlpBatch, [1, 0, 97, 7]⟩)) [], passUpTo 1]

def planned : Session := ((machine zeroCrc).run ⟨reopened, []⟩ planning).1

/-- The record once the plan is written. -/
def written : ReclaimRecord :=
  (planned.plans.head?.bind fun plan => (mergePlan checkpointed plan 2).toOption.join).getD {}

/-- The horizon goes back before it passes all three segments. -/
def replanning : List Step := planning ++ [.writePlan 0 none, passUpTo 0, passUpTo 2]

def withRows : Session :=
  { planned with
    keeper := { planned.keeper with store := some (rewritten zeroCrc found written) } }

def replanned : Session := ((machine zeroCrc).run withRows [passUpTo 0, passUpTo 2]).1

theorem run_append_step {crc : Crc} {session : Session} {steps rest : List Step} {step : Step} :
    ((machine crc).run session (steps ++ step :: rest)).1 =
      ((machine crc).run (((machine crc).run session steps).1.step crc step) rest).1 := by
  rw [Machine.run_append]
  rfl

theorem planned_plans : ∃ plan, planned.plans = [plan] ∧ plan.pass = planned.keeper.live ∧
    plan.records = true ∧ mergePlan checkpointed plan 2 = .ok (some written) := by
  obtain ⟨hone, hplans⟩ : planned.plans.length = 1 ∧
      ∀ plan ∈ planned.plans, plan.pass = planned.keeper.live ∧ plan.records = true ∧
        mergePlan checkpointed plan 2 = .ok (some written) := by
    decide +kernel
  obtain ⟨plan, hplan⟩ := List.length_eq_one_iff.mp hone
  exact ⟨plan, hplan, hplans plan (hplan ▸ List.mem_singleton_self plan)⟩

theorem planned_live : planned.keeper.live ≠ 0 := by decide +kernel

/-- Where the first plan can be laid out, the run goes on over its rows. -/
theorem run_replanning (hslot : ∀ error, found.encodeNext zeroCrc written ≠ .error error) :
    ((machine zeroCrc).run ⟨reopened, []⟩ replanning).1 = replanned := by
  obtain ⟨plan, hplan, hpass, hrecords, hwritten⟩ := planned_plans
  have hstore : planned.keeper.store = some found := rfl
  have hstep : Session.step zeroCrc planned (.writePlan 0 none) = withRows := by
    unfold step withRows
    rw [hplan]
    dsimp only [List.getElem?_cons_zero]
    rw [Keeper.writePlan_eq hstore planned_live hpass hrecords hwritten hslot, ← hplan]
  unfold replanning replanned
  rw [run_append_step, ← hstep]
  rfl

/-- The last plan names rows that the first one has written. -/
theorem replanned_plan : ∃ plan ∈ replanned.plans, ∃ merged, plan.pass = replanned.keeper.live ∧
    mergePlan written plan 2 = .ok (some merged) ∧ rowIds merged = [0, 1] := by
  obtain ⟨plan, hplan, hpass, hids⟩ : ∃ plan ∈ replanned.plans,
      plan.pass = replanned.keeper.live ∧
        (mergePlan written plan 2).toOption.join.map rowIds = some [0, 1] := by
    decide +kernel
  obtain ⟨merged, hjoin, hmerged⟩ := Option.map_eq_some_iff.mp hids
  refine ⟨plan, hplan, merged, hpass, ?_, hmerged⟩
  revert hjoin
  cases mergePlan written plan 2 with
  | error => exact nofun
  | ok => exact congrArg Except.ok

theorem planned_rows_fit_replanned : ∃ opened store plan merged,
    reopen = .ok opened ∧
      let session := ((machine zeroCrc).run ⟨opened, []⟩ replanning).1
      session.keeper.store = some store ∧ rowIds store.record = [0, 1] ∧
        plan ∈ session.plans ∧ plan.pass = session.keeper.live ∧
        mergePlan store.record plan 2 = .ok (some merged) ∧ rowIds merged = [0, 1] ∧
        merged.planned.length ≤ 2 := by
  -- at the first pass the theorem says that the merged record can be laid out
  have hslot : ∀ error, found.encodeNext zeroCrc written ≠ .error error := by
    obtain ⟨first, hfirst, hpass, -, hwritten⟩ := planned_plans
    have hnarrow : ¬ maxTenantsCeiling ≤ written.dictionary.records.length := by decide +kernel
    obtain ⟨-, hwritable⟩ := (planned_rows_fit reopen_eq planning).1 first
      (hfirst ▸ List.mem_singleton_self first) planned_live hpass found rfl
    exact fun error herror => hnarrow ((hwritable written hwritten).2.2 error herror)
  obtain ⟨hrows, hlive⟩ : rowIds written = [0, 1] ∧ replanned.keeper.live ≠ 0 := by
    decide +kernel
  obtain ⟨plan, hplan, merged, hpass, hmerge, hmerged⟩ := replanned_plan
  have hkept : replanned.keeper.store = some (rewritten zeroCrc found written) := rfl
  have hfit := (planned_rows_fit reopen_eq replanning).1
  rw [run_replanning hslot] at hfit
  refine ⟨reopened, rewritten zeroCrc found written, plan, merged, reopen_eq, ?_⟩
  rw [run_replanning hslot]
  exact ⟨hkept, hrows, hplan, hpass, hmerge, hmerged,
    ((hfit plan hplan hlive hpass _ hkept).2 merged hmerge).1⟩

end Session

end Ourios.Housekeeping
