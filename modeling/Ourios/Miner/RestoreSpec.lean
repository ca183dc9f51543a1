/-
# What a restore leaves

Whatever snapshot a restore accepts, the tenant it builds is well formed as soon
as it fits under the ceiling: the loops check the ids, the slots and the adopted
references as they go. The cluster stays well formed if it held none of the
snapshot's ids before.
-/

import Ourios.Foundation.FallibleFold
import Ourios.Miner.Persist
import Ourios.Miner.Run

namespace Ourios.Miner

open Ourios.Foundation

/-! ### One leaf -/

theorem restoreSlotsFrom_ok {templateId slot : Nat} {recorded : List (List ParamType)}
    {slotTypes : List SlotTypes} (h : restoreSlotsFrom templateId slot recorded = .ok slotTypes) :
    slotTypes.length = recorded.length := by
  induction recorded generalizing slot slotTypes with
  | nil =>
    cases h
    rfl
  | cons types later ih =>
    unfold restoreSlotsFrom at h
    split at h
    · cases h
    · cases h
    · obtain ⟨rest, hrest, heq⟩ := bind_eq_ok_iff.mp h
      cases heq
      simp [ih hrest]

variable {record : LeafRecord} {state : SnapshotState} {tenantId : TenantId}

theorem restoreSlotTypes_ok {count : Nat} {slotTypes : List SlotTypes}
    (h : restoreSlotTypes record count = .ok slotTypes) : slotTypes.length = count := by
  unfold restoreSlotTypes at h
  split at h
  · cases h
  · rename_i hcount
    rw [restoreSlotsFrom_ok h]
    exact not_ne_iff.mp hcount

theorem descentPathFrom_ok {walkDepth position slot : Nat} {template : List OwnedToken}
    {path : List Text} (h : descentPathFrom record walkDepth position slot template = .ok path) :
    path.length = template.length := by
  induction template generalizing position slot path with
  | nil =>
    cases h
    rfl
  | cons token template ih =>
    obtain ⟨component, -, hrest⟩ := bind_eq_ok_iff.mp h
    obtain ⟨later, hlater, heq⟩ := bind_eq_ok_iff.mp hrest
    cases heq
    simp [ih hlater]

/-- A restored leaf has the record's data, one slot per wildcard, and is placed in
the bucket of its length. -/
theorem restoreLeafInto_ok {tenant after : TenantState} {prefixDepth maxNodeChildren : Nat}
    (h : restoreLeafInto tenant record prefixDepth maxNodeChildren = .ok after) :
    ∃ slotTypes masked, slotTypes.length = wildcardCount record.template ∧
      masked.length = record.template.length ∧
      after = { tenant with
        minedCanonicals := tenant.minedCanonicals.insert
          (formatTemplate record.template, record.severityNumber, record.scopeName)
        tree := tenant.tree.descendMut masked prefixDepth maxNodeChildren fun leaves =>
          leaves ++ [record.toLeaf slotTypes] } := by
  unfold restoreLeafInto at h
  split at h
  · cases h
  · obtain ⟨slotTypes, hslots, hrest⟩ := bind_eq_ok_iff.mp h
    obtain ⟨masked, hmasked, heq⟩ := bind_eq_ok_iff.mp hrest
    obtain ⟨_, -, hpath⟩ := bind_eq_ok_iff.mp hmasked
    cases heq
    exact ⟨slotTypes, masked, restoreSlotTypes_ok hslots, descentPathFrom_ok hpath, rfl⟩

/-- Pushing a leaf at any walk adds it in the bucket of the walk's length. -/
theorem Tree.placedLeaves_descendMut_push (tree : Tree) (masked : List Text)
    (prefixDepth maxNodeChildren : Nat) (leaf : Leaf) :
    (tree.descendMut masked prefixDepth maxNodeChildren (· ++ [leaf])).placedLeaves.Perm
      ((tree.placeOf masked prefixDepth maxNodeChildren, leaf) :: tree.placedLeaves) := by
  obtain ⟨rest, hbefore, hafter⟩ := tree.placedLeaves_descendMut masked prefixDepth maxNodeChildren
  refine (hafter _).trans ?_
  refine List.Perm.trans ?_ (hbefore.cons _).symm
  rw [List.map_append, List.append_assoc]
  exact List.perm_middle

/-! ### The loops -/

/-- A tenant rebuilt from some records: the ids seen are those it holds, every
structure agrees with the records, and nothing is held twice. -/
structure Rebuilt (config : MinerConfig) (done : SnapshotState) (rebuild : Rebuild) : Prop where
  config : rebuild.tenant.config = config
  nodup : rebuild.seenIds.Nodup
  held : rebuild.tenant.holderIds.Perm rebuild.seenIds
  known : ∀ id ∈ rebuild.seenIds, id ∈ done.ids
  leaf : ∀ entry ∈ rebuild.tenant.tree.placedLeaves,
    entry.2.template.length = entry.1.1 ∧ entry.2.SlotsAligned
  leaves : rebuild.tenant.leafIds.Perm (done.leaves.map LeafRecord.templateId)
  structured : rebuild.tenant.structuredIds.Perm
    (done.structuredTemplates.map StructuredTemplateRecord.templateId)
  owned : rebuild.tenant.ownedAdoptedCount = rebuild.tenant.ownedIds.length
  ownedRecords : rebuild.tenant.ownedAdoptedCount = done.adoptedTemplates.countP (·.owned)
  canonicals : rebuild.tenant.minedCanonicals.Counts rebuild.tenant.shapeCount
  records : ∀ record ∈ done.leaves, ∃ leaf ∈ rebuild.tenant.tree.collectLeaves,
    leaf.templateId = record.templateId ∧ leaf.severityNumber = record.severityNumber ∧
      leaf.scopeName = record.scopeName ∧ leaf.templateVersion = record.templateVersion
  treeBacked : ∀ key templateId templateVersion,
    rebuild.tenant.adoptedTemplates.lookup key = some (.treeBacked templateId templateVersion) →
    ∃ leaf ∈ rebuild.tenant.tree.collectLeaves, leaf.templateId = templateId ∧
      leaf.severityNumber = key.2.1 ∧ leaf.scopeName = key.2.2 ∧
      templateVersion ≤ leaf.templateVersion

theorem rebuilt_new (config : MinerConfig) :
    Rebuilt config ⟨[], [], []⟩ ⟨[], TenantState.new config⟩ where
  config := rfl
  nodup := List.nodup_nil
  held := List.Perm.nil
  known := by simp
  leaf := by simp [TenantState.new]
  leaves := List.Perm.nil
  structured := List.Perm.nil
  owned := rfl
  ownedRecords := rfl
  canonicals := fun _ => rfl
  records := by simp
  treeBacked := by
    intro key templateId templateVersion hlookup
    cases hlookup

theorem Rebuild.see_ok {rebuild after : Rebuild} {templateId : Nat}
    (h : rebuild.see templateId = .ok after) : templateId ∉ rebuild.seenIds ∧
      after = { rebuild with seenIds := templateId :: rebuild.seenIds } := by
  unfold Rebuild.see at h
  split at h
  · cases h
  · rename_i hseen
    cases h
    exact ⟨hseen, rfl⟩

section Steps

variable {config : MinerConfig} {before after : Rebuild} {leaves : List LeafRecord}
  {structured : List StructuredTemplateRecord} {adopted : List AdoptedTemplateRecord}

theorem Rebuilt.leafStep {record : LeafRecord} {prefixDepth maxNodeChildren : Nat}
    (h : Rebuilt config ⟨leaves, structured, adopted⟩ before)
    (hstep : restoreLeaf prefixDepth maxNodeChildren before record = .ok after) :
    Rebuilt config ⟨leaves ++ [record], structured, adopted⟩ after := by
  obtain ⟨marked, hsee, hrest⟩ := bind_eq_ok_iff.mp hstep
  obtain ⟨hseen, rfl⟩ := Rebuild.see_ok hsee
  obtain ⟨tenant, hleaf, heq⟩ := bind_eq_ok_iff.mp hrest
  obtain ⟨slotTypes, masked, hslots, hlength, rfl⟩ := restoreLeafInto_ok hleaf
  cases heq
  have hplaced := before.tenant.tree.placedLeaves_descendMut_push masked prefixDepth
    maxNodeChildren (record.toLeaf slotTypes)
  have hleaves : (before.tenant.tree.descendMut masked prefixDepth maxNodeChildren
      (· ++ [record.toLeaf slotTypes])).collectLeaves.Perm
      (record.toLeaf slotTypes :: before.tenant.tree.collectLeaves) := hplaced.map Prod.snd
  have hids := hleaves.map Leaf.templateId
  refine ⟨h.config, List.nodup_cons.mpr ⟨hseen, h.nodup⟩, ?_, ?_, ?_, ?_, h.structured, h.owned,
    h.ownedRecords, ?_, ?_, ?_⟩
  · exact (hids.append_right _).trans (h.held.cons _)
  · intro id hid
    rcases List.mem_cons.mp hid with rfl | hold
    · simp [SnapshotState.ids]
    · have := h.known id hold
      simp only [SnapshotState.ids, List.map_append, List.mem_append] at this ⊢
      tauto
  · intro entry hentry
    rcases List.mem_cons.mp (hplaced.mem_iff.mp hentry) with rfl | hold
    · exact ⟨hlength.symm, hslots⟩
    · exact h.leaf entry hold
  · rw [List.map_append]
    exact (hids.trans (h.leaves.cons _)).trans (List.perm_append_singleton _ _).symm
  · refine (MinedCanonicals.counts_insert h.canonicals _).congr fun key => ?_
    unfold TenantState.shapeCount
    rw [(hleaves.map Leaf.key).count_eq]
    exact count_keys_cons _ _ key
  · intro other hother
    rcases List.mem_append.mp hother with hold | hnew
    · obtain ⟨leaf, hin, hsame⟩ := h.records other hold
      exact ⟨leaf, hleaves.mem_iff.mpr (List.mem_cons_of_mem _ hin), hsame⟩
    · obtain rfl := List.mem_singleton.mp hnew
      exact ⟨_, hleaves.mem_iff.mpr List.mem_cons_self, rfl, rfl, rfl, rfl⟩
  · intro key templateId templateVersion hlookup
    obtain ⟨leaf, hin, hsame⟩ := h.treeBacked key templateId templateVersion hlookup
    exact ⟨leaf, hleaves.mem_iff.mpr (List.mem_cons_of_mem _ hin), hsame⟩

theorem Rebuilt.structuredStep {record : StructuredTemplateRecord}
    (h : Rebuilt config ⟨leaves, structured, adopted⟩ before)
    (hstep : restoreStructured before record = .ok after) :
    Rebuilt config ⟨leaves, structured ++ [record], adopted⟩ after := by
  obtain ⟨marked, hsee, hrest⟩ := bind_eq_ok_iff.mp hstep
  obtain ⟨hseen, rfl⟩ := Rebuild.see_ok hsee
  dsimp only at hrest
  split at hrest
  · cases hrest
  · rename_i hkey
    cases hrest
    have hids := before.tenant.structuredIds_internStructured record.templateId
      (AList.lookup_eq_none.mpr hkey)
    refine ⟨h.config, List.nodup_cons.mpr ⟨hseen, h.nodup⟩, ?_, ?_, h.leaf, h.leaves, ?_, h.owned,
      h.ownedRecords, h.canonicals, h.records, h.treeBacked⟩
    · refine List.Perm.trans ?_ (h.held.cons _)
      change (before.tenant.leafIds ++ ((before.tenant.internStructured _ _).structuredIds ++
        before.tenant.ownedIds)).Perm _
      rw [hids]
      exact List.perm_middle
    · intro id hid
      rcases List.mem_cons.mp hid with rfl | hold
      · simp [SnapshotState.ids]
      · have := h.known id hold
        simp only [SnapshotState.ids, List.map_append, List.mem_append] at this ⊢
        tauto
    · change ((before.tenant.internStructured _ _).structuredIds).Perm _
      rw [hids, List.map_append]
      exact (h.structured.cons _).trans (List.perm_append_singleton _ _).symm

variable {record : AdoptedTemplateRecord}

theorem validateTreeBackedAdoption_ok (h : validateTreeBackedAdoption record leaves = .ok ()) :
    ∃ leaf ∈ leaves,
      leaf.templateId = record.templateId ∧ leaf.severityNumber = record.severityNumber ∧
      leaf.scopeName = record.scopeName ∧ record.templateVersion ≤ leaf.templateVersion := by
  unfold validateTreeBackedAdoption at h
  split at h
  · cases h
  · rename_i leaf hfind
    split at h
    · cases h
    · rename_i hkey
      split at h
      · cases h
      · rename_i hversion
        push Not at hkey
        exact ⟨leaf, List.mem_of_find?_eq_some hfind, by simpa using List.find?_some hfind,
          hkey.1, hkey.2, not_lt.mp hversion⟩

/-- The ids seen after one adopted record are those seen before and the one it
owns. -/
theorem checkAdopted_ok (h : checkAdopted leaves before record = .ok after) :
    (∀ id ∈ (restoreAdoptedEntry record).ownedIds,
      id = record.templateId ∧ id ∉ before.seenIds) ∧
    after = { seenIds := (restoreAdoptedEntry record).ownedIds ++ before.seenIds
              tenant := { before.tenant with
                ownedAdoptedCount := before.tenant.ownedAdoptedCount +
                  (restoreAdoptedEntry record).ownedIds.length } } ∧
    (record.owned = false → validateTreeBackedAdoption record leaves = .ok ()) := by
  unfold checkAdopted at h
  unfold restoreAdoptedEntry
  cases howned : record.owned with
  | true =>
    rw [howned, if_pos rfl] at h
    obtain ⟨marked, hsee, heq⟩ := bind_eq_ok_iff.mp h
    obtain ⟨hseen, rfl⟩ := Rebuild.see_ok hsee
    cases heq
    simp [AdoptedEntry.ownedIds, hseen]
  | false =>
    rw [howned, if_neg Bool.false_ne_true] at h
    obtain ⟨checked, hvalid, heq⟩ := bind_eq_ok_iff.mp h
    cases heq
    exact ⟨by simp [AdoptedEntry.ownedIds], by simp [AdoptedEntry.ownedIds], fun _ => hvalid⟩

theorem Rebuilt.adoptedStep (h : Rebuilt config ⟨leaves, structured, adopted⟩ before)
    (hstep : restoreAdopted leaves before record = .ok after) :
    Rebuilt config ⟨leaves, structured, adopted ++ [record]⟩ after := by
  obtain ⟨marked, hcheck, hrest⟩ := bind_eq_ok_iff.mp hstep
  obtain ⟨hfresh, rfl, hbacked⟩ := checkAdopted_ok hcheck
  dsimp only at hrest
  split at hrest
  · cases hrest
  · rename_i hkey
    cases hrest
    -- The map had no entry at the key, so the ids it owns gain exactly the new one's.
    have hids : ((before.tenant.adoptedTemplates.insert
          (record.canonical, record.severityNumber, record.scopeName)
          (restoreAdoptedEntry record)).entries.flatMap fun entry => entry.2.ownedIds) =
        (restoreAdoptedEntry record).ownedIds ++ before.tenant.ownedIds :=
      congrArg ((restoreAdoptedEntry record).ownedIds ++ ·)
        (before.tenant.ownedIds_of_lookup_none (AList.lookup_eq_none.mpr hkey))
    have hnodup : (restoreAdoptedEntry record).ownedIds.Nodup := by
      unfold restoreAdoptedEntry
      split <;> simp [AdoptedEntry.ownedIds]
    refine ⟨h.config, ?_, ?_, ?_, h.leaf, h.leaves, h.structured, ?_, ?_, h.canonicals, h.records,
      ?_⟩
    · refine List.Nodup.append hnodup h.nodup ?_
      intro id hnew hold
      exact (hfresh id hnew).2 hold
    · refine List.Perm.trans ?_ (h.held.append_left _)
      change (before.tenant.leafIds ++ (before.tenant.structuredIds ++
        (AList.insert _ _ before.tenant.adoptedTemplates).entries.flatMap _)).Perm _
      rw [hids]
      refine List.Perm.trans ?_ (List.perm_append_comm_assoc _ _ _)
      exact (List.perm_append_comm_assoc _ _ _).append_left _
    · intro id hid
      rcases List.mem_append.mp hid with hnew | hold
      · rw [(hfresh id hnew).1]
        simp [SnapshotState.ids]
      · have := h.known id hold
        simp only [SnapshotState.ids, List.map_append, List.mem_append] at this ⊢
        tauto
    · change before.tenant.ownedAdoptedCount + (restoreAdoptedEntry record).ownedIds.length =
        ((AList.insert _ _ before.tenant.adoptedTemplates).entries.flatMap _).length
      rw [hids, List.length_append, ← h.owned, Nat.add_comm]
    · rw [h.ownedRecords, List.countP_append]
      unfold restoreAdoptedEntry
      cases howned : record.owned <;> simp [AdoptedEntry.ownedIds, howned]
    · intro key templateId templateVersion hlookup
      rw [lookup_insert_ite] at hlookup
      split at hlookup
      · rename_i hsame
        unfold restoreAdoptedEntry at hlookup
        split at hlookup
        · cases hlookup
        · rename_i howned
          cases hlookup
          obtain ⟨leafRecord, hin, hid, hseverity, hscope, hversion⟩ :=
            validateTreeBackedAdoption_ok (hbacked (by simpa using howned))
          obtain ⟨leaf, hleaf, hid', hseverity', hscope', hversion'⟩ := h.records leafRecord hin
          rw [hsame]
          exact ⟨leaf, hleaf, hid'.trans hid, hseverity'.trans hseverity, hscope'.trans hscope,
            hversion' ▸ hversion⟩
      · exact h.treeBacked key templateId templateVersion hlookup

end Steps

def SnapshotState.ceilingCount (state : SnapshotState) : Nat :=
  state.leaves.length + state.adoptedTemplates.countP (·.owned)

/-- Whatever a restore accepts, the tenant it builds is well formed if it fits
under the ceiling, and it holds ids of the snapshot only. -/
theorem rebuildTenant_ok {config : MinerConfig} {tenant : TenantState}
    (h : rebuildTenant config state = .ok tenant) :
    tenant.config = config ∧ (∀ id ∈ tenant.holderIds, id ∈ state.ids) ∧
      (state.ceilingCount ≤ config.maxTemplates → tenant.WellFormed) := by
  obtain ⟨first, hleaves, hrest⟩ := bind_eq_ok_iff.mp h
  obtain ⟨second, hstructured, hrest⟩ := bind_eq_ok_iff.mp hrest
  obtain ⟨third, hadopted, heq⟩ := bind_eq_ok_iff.mp hrest
  have hfirst : Rebuilt config ⟨state.leaves, [], []⟩ first :=
    foldlM_invariant (fun done rebuild => Rebuilt config ⟨done, [], []⟩ rebuild)
      (fun _ _ _ _ hbefore hstep => hbefore.leafStep hstep) (rebuilt_new config) hleaves
  have hsecond : Rebuilt config ⟨state.leaves, state.structuredTemplates, []⟩ second :=
    foldlM_invariant (fun done rebuild => Rebuilt config ⟨state.leaves, done, []⟩ rebuild)
      (fun _ _ _ _ hbefore hstep => hbefore.structuredStep hstep) hfirst hstructured
  have hthird : Rebuilt config state third :=
    foldlM_invariant
      (fun done rebuild => Rebuilt config ⟨state.leaves, state.structuredTemplates, done⟩ rebuild)
      (fun _ _ _ _ hbefore hstep => hbefore.adoptedStep hstep) hsecond hadopted
  cases heq
  refine ⟨hthird.config, ?_, fun hroom => ⟨hthird.leaf, ?_, ⟨?_, hthird.owned, ?_, ?_⟩,
    hthird.canonicals, hthird.treeBacked⟩⟩
  · intro id hid
    exact hthird.known id (hthird.held.mem_iff.mp hid)
  · exact hthird.held.nodup_iff.mpr hthird.nodup
  · have hlength := hthird.leaves.length_eq
    rw [List.length_map] at hlength
    exact hlength.symm
  · have hlength := hthird.structured.length_eq
    rw [List.length_map] at hlength
    change _ = _ + _ + third.tenant.structuredIds.length
    dsimp only
    omega
  · rw [SnapshotState.ceilingCount, ← hthird.ownedRecords, ← hthird.config] at hroom
    exact hroom

/-! ### The cluster -/

theorem allocatePast_ok {ids after : IdRange} (h : allocatePast ids state = .ok after) :
    ids.next ≤ after.next ∧ ∀ id ∈ state.ids, id < after.next := by
  unfold allocatePast at h
  cases hmax : state.ids.max? with
  | none =>
    rw [hmax] at h
    cases h
    rw [List.max?_eq_none_iff.mp hmax]
    simp
  | some issued =>
    rw [hmax] at h
    dsimp only at h
    cases hallocate : ids.allocatePast issued with
    | none =>
      rw [hallocate] at h
      cases h
    | some seated =>
      rw [hallocate] at h
      cases h
      unfold IdRange.allocatePast at hallocate
      split at hallocate
      · cases hallocate
      · cases hallocate
        refine ⟨le_max_left _ _, fun id hid => ?_⟩
        have hle : id ≤ issued := (List.max?_le_iff hmax).mp le_rfl id hid
        exact lt_of_lt_of_le (Nat.lt_succ_of_le hle) (le_max_right _ _)

/-- A restore that is accepted opens a new tenant, which holds ids of the snapshot
only, and changes nothing else but the allocator. -/
theorem MinerCluster.restoreTenant_ok {before after : MinerCluster}
    (h : before.restoreTenant tenantId state = .ok after) :
    before.tenants.lookup tenantId = none ∧ ∃ tenant ids,
      rebuildTenant (before.effectiveConfig tenantId) state = .ok tenant ∧
      allocatePast before.ids state = .ok ids ∧
      after = { before with ids }.setTenant tenantId tenant := by
  unfold restoreTenant at h
  split at h
  · cases h
  · rename_i hunseen
    obtain ⟨tenant, htenant, hrest⟩ := bind_eq_ok_iff.mp h
    obtain ⟨ids, hids, heq⟩ := bind_eq_ok_iff.mp hrest
    cases heq
    exact ⟨AList.lookup_eq_none.mpr hunseen, tenant, ids, htenant, hids, rfl⟩

/-- A restore keeps the cluster well formed if the cluster held none of the
snapshot's ids and the snapshot fits under the ceiling. -/
theorem MinerCluster.WellFormed.restore {before after : MinerCluster} (hwf : before.WellFormed)
    (h : before.restoreTenant tenantId state = .ok after)
    (hids : ∀ id ∈ state.ids, 0 < id ∧ id ∉ before.holderIds)
    (hroom : state.ceilingCount ≤ (before.effectiveConfig tenantId).maxTemplates) :
    after.WellFormed := by
  obtain ⟨hunseen, tenant, ids, htenant, hseated, rfl⟩ := restoreTenant_ok h
  obtain ⟨-, hheld, hwell⟩ := rebuildTenant_ok htenant
  obtain ⟨hnext, hpast⟩ := allocatePast_ok hseated
  have hholders : ({ before with ids }.setTenant tenantId tenant).holderIds =
      tenant.holderIds ++ before.holderIds := by
    unfold holderIds setTenant
    rw [entries_insert_eq, List.flatMap_cons, entries_erase_of_lookup_none hunseen]
  refine ⟨?_, ?_, ?_⟩
  · intro other held hlookup
    change (before.tenants.insert tenantId tenant).lookup other = some held at hlookup
    rw [lookup_insert_ite] at hlookup
    split at hlookup
    · cases hlookup
      exact hwell hroom
    · exact hwf.tenant other held hlookup
  · rw [hholders]
    refine List.Nodup.append (hwell hroom).ids_nodup hwf.ids_nodup ?_
    intro id hnew hold
    exact (hids id (hheld id hnew)).2 hold
  · intro id hid
    rw [hholders] at hid
    rcases List.mem_append.mp hid with hnew | hold
    · exact ⟨(hids id (hheld id hnew)).1, hpast id (hheld id hnew)⟩
    · obtain ⟨hpos, hlt⟩ := hwf.ids_lt id hold
      exact ⟨hpos, hlt.trans_le hnext⟩

/-! ### Reachable clusters -/

/-- Every id a snapshot mentions is one its tenant holds. -/
theorem TenantState.WellFormed.mem_holderIds_of_snapshot {state : TenantState}
    (h : state.WellFormed) {id : Nat} (hid : id ∈ state.snapshot.ids) : id ∈ state.holderIds := by
  rcases List.mem_append.mp hid with hleaf | hrest
  · obtain ⟨record, hrecord, rfl⟩ := List.mem_map.mp hleaf
    obtain ⟨routed, hrouted, rfl⟩ := List.mem_map.mp ((mem_sortByKey _).mp hrecord)
    obtain ⟨entry, hentry, rfl⟩ := List.mem_map.mp hrouted
    exact leaf_held (List.mem_map.mpr ⟨entry, hentry, rfl⟩)
  · rcases List.mem_append.mp hrest with hstructured | hadopted
    · obtain ⟨record, hrecord, rfl⟩ := List.mem_map.mp hstructured
      obtain ⟨entry, hentry, rfl⟩ := List.mem_map.mp ((mem_sortByKey _).mp hrecord)
      refine List.mem_append_right _ (List.mem_append_left _ ?_)
      exact List.mem_flatMap.mpr ⟨entry, hentry, by simp [structuredRecord]⟩
    · obtain ⟨record, hrecord, rfl⟩ := List.mem_map.mp hadopted
      obtain ⟨⟨key, entry⟩, hentry, rfl⟩ := List.mem_map.mp ((mem_sortByKey _).mp hrecord)
      have hlookup := AList.mem_lookup_iff.mpr hentry
      cases entry with
      | treeBacked templateId templateVersion =>
        obtain ⟨leaf, hleaf, hsame, -⟩ := h.treeBacked key templateId templateVersion hlookup
        have hheld := leaf_held hleaf
        rwa [hsame] at hheld
      | owned owned => exact owned_held hlookup

theorem MinerCluster.WellFormed.snapshot_ids_pos {cluster : MinerCluster} (h : cluster.WellFormed)
    {id : Nat} (hid : id ∈ (cluster.snapshotState tenantId).ids) :
    0 < id := by
  unfold snapshotState at hid
  cases hlookup : cluster.tenants.lookup tenantId with
  | none => simp [hlookup, SnapshotState.ids] at hid
  | some state =>
    rw [hlookup] at hid
    have hheld := (h.tenant tenantId state hlookup).mem_holderIds_of_snapshot hid
    exact (h.ids_lt id (mem_holderIds_of_lookup hlookup hheld)).1

/-- What ingests and restores can reach. A snapshot of a reachable cluster may be
restored into an unseen tenant of another one that holds none of its ids and has
room for its templates. -/
inductive MinerCluster.Reachable : Environment → MinerCluster → Prop
  | new (env : Environment) (config : MinerConfig)
      (tenantOverrides : AList fun _ : TenantId => MinerConfig) (ids : IdRange) :
      Reachable env (MinerCluster.new config tenantOverrides ids)
  | ingest {env : Environment} {cluster : MinerCluster} (h : Reachable env cluster)
      (record : OtlpLogRecord) : Reachable env (cluster.ingest env record).cluster
  | restore {env other : Environment} {cluster source after : MinerCluster}
      (h : Reachable env cluster) (hsource : Reachable other source)
      (tenantId sourceTenant : TenantId)
      (hids : ∀ id ∈ (source.snapshotState sourceTenant).ids, id ∉ cluster.holderIds)
      (hroom : (source.snapshotState sourceTenant).ceilingCount ≤
        (cluster.effectiveConfig tenantId).maxTemplates)
      (hrestored : cluster.restoreTenant tenantId (source.snapshotState sourceTenant) =
        .ok after) : Reachable env after

theorem MinerCluster.Reachable.wellFormed {env : Environment} {cluster : MinerCluster}
    (h : Reachable env cluster) : cluster.WellFormed := by
  induction h with
  | new env config tenantOverrides ids => exact wellFormed_new config tenantOverrides ids
  | ingest _ record ih => exact wellFormed_ingest ih record
  | restore _ _ tenantId sourceTenant hids hroom hrestored ih ihsource =>
    refine ih.restore hrestored (fun id hid => ⟨?_, hids id hid⟩) hroom
    exact ihsource.snapshot_ids_pos hid

/-- In every reachable cluster no id is held twice, every counter counts what it
stands for, the index of mined shapes counts the leaves, every leaf has one slot
per wildcard, every tree-backed entry names a leaf, and no tenant is past its
ceiling. -/
theorem MinerCluster.identities_and_bookkeeping {env : Environment} {cluster : MinerCluster}
    (h : Reachable env cluster) :
    (cluster.holderIds.Nodup ∧ ∀ id ∈ cluster.holderIds, 1 ≤ id) ∧
    ∀ tenant state, cluster.tenants.lookup tenant = some state →
      (state.leafCount = state.tree.collectLeaves.length ∧
        state.ownedAdoptedCount = state.ownedIds.length ∧
        state.templateCount = state.leafCount + state.ownedAdoptedCount +
          state.structuredTemplates.entries.length) ∧
      (∀ key, state.minedCanonicals.lookup key =
        if (state.tree.collectLeaves.map Leaf.key).count key = 0 then none
        else some ((state.tree.collectLeaves.map Leaf.key).count key)) ∧
      (∀ leaf ∈ state.tree.collectLeaves,
        leaf.slotTypes.length = wildcardCount leaf.template) ∧
      (∀ key templateId templateVersion,
        state.adoptedTemplates.lookup key = some (.treeBacked templateId templateVersion) →
        ∃ leaf ∈ state.tree.collectLeaves, leaf.templateId = templateId ∧
          leaf.severityNumber = key.2.1 ∧ leaf.scopeName = key.2.2 ∧
          templateVersion ≤ leaf.templateVersion) ∧
      state.leafCount + state.ownedAdoptedCount ≤ state.config.maxTemplates := by
  have hwf := h.wellFormed
  refine ⟨⟨hwf.ids_nodup, fun id hid => (hwf.ids_lt id hid).1⟩, ?_⟩
  intro tenant state hlookup
  have hstate := hwf.tenant tenant state hlookup
  refine ⟨⟨?_, hstate.counted.ownedCount, ?_⟩, hstate.canonicals, ?_, hstate.treeBacked,
    hstate.counted.room⟩
  · rw [hstate.counted.leafCount, TenantState.leafIds, List.length_map]
  · rw [hstate.counted.templateCount, TenantState.structuredIds]
    simp
  · intro leaf hleaf
    obtain ⟨entry, hentry, rfl⟩ := List.mem_map.mp hleaf
    exact (hstate.leaf entry hentry).2

def MinerCluster.mining (cluster : MinerCluster) (tenant : TenantId) : MinerCluster :=
  (cluster.ingest standInEnvironment (plainRecord tenant "disk sda1 nearly full".toList)).cluster

/-- A tenant mined second in one cluster is restored into another one beside the tenant
that was mined first there too. -/
theorem MinerCluster.identities_and_bookkeeping_restored :
    ∃ after, ((new { } ∅ IdRange.new).mining ['u']).restoreTenant ['t']
        ((((new { } ∅ IdRange.new).mining ['u']).mining ['t']).snapshotState ['t']) = .ok after ∧
      after.holderIds.Nodup ∧ 1 ∈ after.holderIds ∧ 2 ∈ after.holderIds := by
  have hfirst : Reachable standInEnvironment ((new { } ∅ IdRange.new).mining ['u']) :=
    .ingest (.new standInEnvironment { } ∅ IdRange.new) _
  generalize hrestored : ((new { } ∅ IdRange.new).mining ['u']).restoreTenant ['t']
    ((((new { } ∅ IdRange.new).mining ['u']).mining ['t']).snapshotState ['t']) = restored
  have hok : restored.toOption.any
      (fun after => decide (1 ∈ after.holderIds ∧ 2 ∈ after.holderIds)) = true := by
    rw [← hrestored]
    decide +kernel
  cases restored with
  | error reason => cases hok
  | ok after =>
    have hreachable : Reachable standInEnvironment after :=
      .restore hfirst (.ingest hfirst _) ['t'] ['t'] (by decide +kernel) (by decide +kernel)
        hrestored
    exact ⟨after, rfl, (identities_and_bookkeeping hreachable).1.1, of_decide_eq_true hok⟩

/-- A cluster that minted an id of its own accepts a snapshot with the same id for
another tenant, and then holds it twice; and a tenant restored under a lower
ceiling than it was mined under is past it. -/
theorem MinerCluster.restore_beside_minted_id :
    (((MinerCluster.new { } ∅ IdRange.new).ingest standInEnvironment
        (plainRecord ['u'] "disk sda1 nearly full".toList)).cluster.restoreTenant ['t']
      (((MinerCluster.new { } ∅ IdRange.new).ingest standInEnvironment
        (plainRecord ['t'] "user logged in".toList)).cluster.snapshotState ['t'])).toOption.any
      (fun after => decide (after.holderIds = [1, 1])) = true ∧
    ((MinerCluster.new { maxTemplates := 1 } ∅ IdRange.new).restoreTenant ['t']
      (((MinerCluster.new { } ∅ IdRange.new).after standInEnvironment
        [plainRecord ['t'] "user logged in".toList,
          plainRecord ['t'] "disk sda1 full".toList]).snapshotState ['t'])).toOption.any
      (fun after => (after.tenants.lookup ['t']).any fun state =>
        decide (state.config.maxTemplates < state.leafCount)) = true := by
  decide +kernel

end Ourios.Miner
