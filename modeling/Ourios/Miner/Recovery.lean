/-
# Restoring what was mined

The snapshot of a recoverable tenant is accepted and builds a twin of the tenant;
restoring every tenant of a recoverable cluster, in any order, builds a twin of
the cluster. Twins have equal snapshots and ingest alike, so from then on nothing
tells the restored cluster from the one that never stopped.
-/

import Ourios.Miner.Congruence
import Ourios.Miner.Recoverable

namespace Ourios.Miner

open Ourios.Foundation

/-! ### Snapshots -/

def placedRecord (entry : (Nat × List Text) × Leaf) : LeafRecord :=
  leafRecord entry.2 (wildcardRoutes entry.1.2)

theorem leafRecords_eq (tree : Tree) :
    leafRecords tree = sortByKey LeafRecord.templateId (tree.placedLeaves.map placedRecord) := by
  unfold leafRecords Tree.collectRoutedLeaves
  rw [List.map_map]
  rfl

/-- The ids a snapshot's records hold, once for each holder. -/
def SnapshotState.heldIds (state : SnapshotState) : List Nat :=
  state.leaves.map LeafRecord.templateId ++
    (state.structuredTemplates.map StructuredTemplateRecord.templateId ++
      (state.adoptedTemplates.filter (·.owned)).map AdoptedTemplateRecord.templateId)

variable (state : TenantState)

theorem placed_ids_eq : (state.tree.placedLeaves.map placedRecord).map LeafRecord.templateId =
    state.leafIds := by
  simp [TenantState.leafIds, Tree.collectLeaves, List.map_map, Function.comp_def, placedRecord,
    leafRecord]

theorem structured_ids_eq :
    (state.structuredTemplates.entries.map fun entry => structuredRecord entry.1 entry.2).map
      StructuredTemplateRecord.templateId = state.structuredIds := by
  unfold TenantState.structuredIds
  rw [← List.map_eq_flatMap, List.map_map]
  rfl

theorem leaves_ids_perm : (state.snapshot.leaves.map LeafRecord.templateId).Perm state.leafIds := by
  change ((leafRecords state.tree).map LeafRecord.templateId).Perm _
  rw [leafRecords_eq, ← placed_ids_eq]
  exact (sortByKey_perm _ _).map _

theorem structured_ids_perm :
    (state.snapshot.structuredTemplates.map StructuredTemplateRecord.templateId).Perm
      state.structuredIds := by
  rw [← structured_ids_eq]
  exact (sortByKey_perm _ _).map _

theorem owned_ids_perm :
    ((state.snapshot.adoptedTemplates.filter (·.owned)).map AdoptedTemplateRecord.templateId).Perm
      state.ownedIds := by
  have hperm := ((sortByKey_perm AdoptedTemplateRecord.order
    (state.adoptedTemplates.entries.map fun entry => adoptedRecord entry.1 entry.2)).filter
    (·.owned)).map AdoptedTemplateRecord.templateId
  refine hperm.trans (List.Perm.of_eq ?_)
  unfold TenantState.ownedIds
  generalize state.adoptedTemplates.entries = entries
  induction entries with
  | nil => rfl
  | cons entry entries ih =>
    obtain ⟨key, value⟩ := entry
    cases value with
    | treeBacked templateId templateVersion => exact ih
    | owned owned => exact congrArg (owned.templateId :: ·) ih

/-- A snapshot's records hold the ids the tenant holds. -/
theorem heldIds_perm : state.snapshot.heldIds.Perm state.holderIds :=
  (leaves_ids_perm state).append ((structured_ids_perm state).append (owned_ids_perm state))

variable {state : TenantState}

/-- Adopted entries are told apart by what their records are sorted by. -/
theorem TenantState.WellFormed.adopted_key_eq (h : state.WellFormed) {key other : CanonicalKey}
    {entry entry' : AdoptedEntry} (hentry : state.adoptedTemplates.lookup key = some entry)
    (hentry' : state.adoptedTemplates.lookup other = some entry')
    (hid : entry.templateId = entry'.templateId) (hcanonical : key.1 = other.1) : key = other := by
  cases entry with
  | treeBacked templateId templateVersion =>
    obtain ⟨leaf, hleaf, hleafId, hseverity, hscope, -⟩ := h.treeBacked _ _ _ hentry
    cases entry' with
    | treeBacked templateId' templateVersion' =>
      -- Both name one leaf, which has the severity and the scope of either key.
      obtain ⟨leaf', hleaf', hleafId', hseverity', hscope', -⟩ := h.treeBacked _ _ _ hentry'
      obtain rfl := h.leaf_eq hleaf hleaf' ((hleafId.trans hid).trans hleafId'.symm)
      exact Prod.ext hcanonical (Prod.ext (hseverity.symm.trans hseverity')
        (hscope.symm.trans hscope'))
    | owned owned => exact absurd (hleafId.trans hid) (h.leaf_ne_owned hleaf hentry')
  | owned owned =>
    cases entry' with
    | treeBacked templateId' templateVersion' =>
      obtain ⟨leaf', hleaf', hleafId', -⟩ := h.treeBacked _ _ _ hentry'
      exact absurd (hleafId'.trans hid.symm) (h.leaf_ne_owned hleaf' hentry)
    | owned owned' =>
      by_contra hne
      -- Two owners of one id would hold it twice.
      have hperm := state.ownedIds_perm key
      rw [hentry] at hperm
      have hnodup := hperm.nodup_iff.mp h.ids_nodup.of_append_right.of_append_right
      have hlater : owned'.templateId ∈ (state.adoptedTemplates.erase key).entries.flatMap
          fun entry => entry.2.ownedIds := by
        refine List.mem_flatMap.mpr ⟨⟨other, .owned owned'⟩, ?_, List.mem_singleton.mpr rfl⟩
        apply AList.mem_lookup_iff.mp
        rw [AList.lookup_erase_ne (Ne.symm hne)]
        exact hentry'
      have hsame : owned.templateId = owned'.templateId := hid
      rw [← hsame] at hlater
      exact (List.nodup_cons.mp hnodup).1 hlater

theorem TenantState.WellFormed.adopted_order_nodup (h : state.WellFormed) :
    ((state.adoptedTemplates.entries.map fun entry => adoptedRecord entry.1 entry.2).map
      AdoptedTemplateRecord.order).Nodup := by
  rw [List.map_map]
  refine List.Nodup.map_on ?_ state.adoptedTemplates.nodupKeys.nodup
  rintro ⟨key, entry⟩ hentry ⟨other, entry'⟩ hentry' horder
  have hread : ∀ (key : CanonicalKey) (entry : AdoptedEntry),
      (adoptedRecord key entry).order = toLex (entry.templateId, key.1) := by
    intro key entry
    cases entry <;> rfl
  simp only [Function.comp_apply, hread, toLex_inj, Prod.mk.injEq] at horder
  have hlookup := AList.mem_lookup_iff.mpr hentry
  have hlookup' := AList.mem_lookup_iff.mpr hentry'
  obtain rfl := h.adopted_key_eq hlookup hlookup' horder.1 horder.2
  rw [Option.mem_def] at hlookup hlookup'
  rw [hlookup, Option.some_inj] at hlookup'
  rw [hlookup']

/-- Twins have the same snapshot. -/
theorem Twin.snapshot_eq {left right : TenantState} (h : Twin left right)
    (hleft : left.WellFormed) (hright : right.WellFormed) : left.snapshot = right.snapshot := by
  have hleaves : left.snapshot.leaves = right.snapshot.leaves := by
    change leafRecords left.tree = leafRecords right.tree
    rw [leafRecords_eq, leafRecords_eq]
    have hnodup : ∀ {state : TenantState}, state.WellFormed →
        ((state.tree.placedLeaves.map placedRecord).map LeafRecord.templateId).Nodup := by
      intro state hstate
      rw [placed_ids_eq]
      exact hstate.ids_nodup.of_append_left
    refine sortByKey_eq_of_mem (hnodup hleft) (hnodup hright) fun record => ?_
    simp only [List.mem_map, h.placed]
  have hstructured : left.snapshot.structuredTemplates = right.snapshot.structuredTemplates := by
    have hperm := entries_perm_of_lookup_eq h.structured
    have hnodup : ∀ {state : TenantState}, state.WellFormed →
        ((state.structuredTemplates.entries.map fun entry =>
          structuredRecord entry.1 entry.2).map StructuredTemplateRecord.templateId).Nodup := by
      intro state hstate
      rw [structured_ids_eq]
      exact hstate.ids_nodup.of_append_right.of_append_left
    refine sortByKey_eq_of_mem (hnodup hleft) (hnodup hright) fun record => ?_
    simp only [List.mem_map, hperm.mem_iff]
  have hadopted : left.snapshot.adoptedTemplates = right.snapshot.adoptedTemplates := by
    have hperm := entries_perm_of_lookup_eq h.adopted
    refine sortByKey_eq_of_mem hleft.adopted_order_nodup hright.adopted_order_nodup fun record => ?_
    simp only [List.mem_map, hperm.mem_iff]
  calc left.snapshot
      = ⟨left.snapshot.leaves, left.snapshot.structuredTemplates,
          left.snapshot.adoptedTemplates⟩ := rfl
    _ = right.snapshot := by rw [hleaves, hstructured, hadopted]

theorem structuredRecord_inj {key other : StructuredKey} {id id' : Nat}
    (h : structuredRecord key id = structuredRecord other id') : key = other ∧ id = id' := by
  simp only [structuredRecord, StructuredTemplateRecord.mk.injEq] at h
  exact ⟨Prod.ext h.1 (Prod.ext h.2.1 h.2.2.1), h.2.2.2⟩

/-! ### Rebuilding a recoverable tenant -/

/-- Placed leaves are told apart by their ids. -/
theorem TenantState.WellFormed.placed_eq (h : state.WellFormed)
    {entry other : (Nat × List Text) × Leaf} (hentry : entry ∈ state.tree.placedLeaves)
    (hother : other ∈ state.tree.placedLeaves) (hid : entry.2.templateId = other.2.templateId) :
    entry = other := by
  have hnodup : (state.tree.placedLeaves.map fun entry => entry.2.templateId).Nodup := by
    have hids : state.leafIds.Nodup := h.ids_nodup.of_append_left
    rwa [← placed_ids_eq, List.map_map] at hids
  exact List.inj_on_of_nodup_map hnodup hentry hother hid

/-- A tenant rebuilt from some records of a snapshot: it has exactly what those
records stand for. -/
structure Restoring (state : TenantState) (done : SnapshotState) (rebuild : Rebuild) : Prop where
  config : rebuild.tenant.config = state.config
  seen : ∀ id ∈ rebuild.seenIds, id ∈ done.heldIds
  sound : rebuild.tenant.tree.Sound state.config.maxNodeChildren
  placed : ∀ entry, entry ∈ rebuild.tenant.tree.placedLeaves ↔
    entry ∈ state.tree.placedLeaves ∧ placedRecord entry ∈ done.leaves
  structured : ∀ key id, rebuild.tenant.structuredTemplates.lookup key = some id ↔
    structuredRecord key id ∈ done.structuredTemplates
  adopted : ∀ key entry, rebuild.tenant.adoptedTemplates.lookup key = some entry ↔
    state.adoptedTemplates.lookup key = some entry ∧ adoptedRecord key entry ∈ done.adoptedTemplates

theorem restoring_new (state : TenantState) :
    Restoring state ⟨[], [], []⟩ ⟨[], TenantState.new state.config⟩ where
  config := rfl
  seen := by simp
  sound := Tree.sound_empty
  placed := by simp [TenantState.new]
  structured := by simp [TenantState.new]
  adopted := by simp [TenantState.new]

/-- With one record more, all at the front of the snapshot: its id is held by no earlier one,
so it has not been seen. -/
theorem Restoring.see {done next : SnapshotState} {rebuild : Rebuild}
    (h : Restoring state done rebuild) (hwf : state.WellFormed) (templateId : Nat)
    (hnext : next.heldIds = done.heldIds ++ [templateId])
    (hfront : next.heldIds <+: state.snapshot.heldIds) :
    templateId ∉ done.heldIds ∧
      rebuild.see templateId = .ok { rebuild with seenIds := templateId :: rebuild.seenIds } ∧
      ∀ id ∈ templateId :: rebuild.seenIds, id ∈ next.heldIds := by
  have hnodup := hfront.sublist.nodup ((heldIds_perm state).nodup_iff.mpr hwf.ids_nodup)
  rw [hnext] at hnodup
  have hfresh : templateId ∉ done.heldIds := fun hheld =>
    List.disjoint_of_nodup_append hnodup hheld (List.mem_singleton_self _)
  refine ⟨hfresh, ?_, ?_⟩
  · rw [Rebuild.see, if_neg]
    exact fun hseen => hfresh (h.seen templateId hseen)
  · intro id hid
    rw [hnext]
    rcases List.mem_cons.mp hid with rfl | hold
    · exact List.mem_append_right _ (List.mem_singleton_self _)
    · exact List.mem_append_left _ (h.seen id hold)

/-- The sorted records of a map are those of its entries. -/
theorem mem_sortByKey_entries {α γ : Type} {β δ : Type} [DecidableEq α] [LinearOrder δ]
    {key : γ → δ} {build : α → β → γ} {map : AList fun _ : α => β} {record : γ} :
    record ∈ sortByKey key (map.entries.map fun entry => build entry.1 entry.2) ↔
      ∃ a b, map.lookup a = some b ∧ build a b = record := by
  rw [mem_sortByKey, List.mem_map]
  constructor
  · rintro ⟨⟨a, b⟩, hentry, rfl⟩
    exact ⟨a, b, AList.mem_lookup_iff.mpr hentry, rfl⟩
  · rintro ⟨a, b, hlookup, rfl⟩
    exact ⟨⟨a, b⟩, AList.mem_lookup_iff.mp hlookup, rfl⟩

theorem mem_snapshot_leaves {record : LeafRecord} :
    record ∈ state.snapshot.leaves ↔ ∃ entry ∈ state.tree.placedLeaves,
      placedRecord entry = record := by
  change record ∈ leafRecords state.tree ↔ _
  rw [leafRecords_eq, mem_sortByKey, List.mem_map]

theorem validateTreeBackedAdoption_of_find {record : AdoptedTemplateRecord}
    {leaves : List LeafRecord} {leaf : LeafRecord}
    (hfind : leaves.find? (·.templateId == record.templateId) = some leaf)
    (hseverity : leaf.severityNumber = record.severityNumber)
    (hscope : leaf.scopeName = record.scopeName)
    (hversion : record.templateVersion ≤ leaf.templateVersion)
    (hspelled : record.templateVersion = leaf.templateVersion →
      formatTemplate leaf.template = record.canonical) :
    validateTreeBackedAdoption record leaves = .ok () := by
  unfold validateTreeBackedAdoption
  rw [hfind]
  dsimp only
  rw [if_neg (by simp [hseverity, hscope]), if_neg (Nat.not_lt.mpr hversion), if_neg]
  rintro ⟨hsame, hdiffers⟩
  exact hdiffers (hspelled hsame)

section Steps

variable {state : TenantState} (hstate : state.Recoverable)

include hstate

variable {rebuild : Rebuild} {key : CanonicalKey}

theorem Restoring.leafStep {done later : List LeafRecord} {record : LeafRecord}
    (hsplit : state.snapshot.leaves = done ++ record :: later)
    (h : Restoring state ⟨done, [], []⟩ rebuild) :
    ∃ after, restoreLeaf state.config.prefixDepth state.config.maxNodeChildren rebuild record =
        .ok after ∧ Restoring state ⟨done ++ [record], [], []⟩ after := by
  have hwf := hstate.sturdy.wellFormed
  have hfront : (⟨done ++ [record], [], []⟩ : SnapshotState).heldIds <+:
      state.snapshot.heldIds := by
    simp [SnapshotState.heldIds, hsplit]
  obtain ⟨-, hsee, hseen⟩ := h.see hwf record.templateId (by simp [SnapshotState.heldIds]) hfront
  obtain ⟨⟨place, leaf⟩, hplaced, rfl⟩ := mem_snapshot_leaves.mp
    (show record ∈ state.snapshot.leaves by simp [hsplit])
  obtain ⟨masked, hplace, hrestored⟩ := (hstate.retraceable _ hplaced).restoreLeafInto_ok
    rebuild.tenant state.config.maxNodeChildren
  have hleaf : ((masked.length, walkPath masked state.config.prefixDepth), leaf) ∈
      state.tree.placedLeaves := by
    rw [hplace]
    exact hplaced
  have hroute : rebuild.tenant.tree.placeOf masked state.config.prefixDepth
      state.config.maxNodeChildren = place := by
    rw [h.sound.placeOf_of_part hstate.sturdy.sound
      (fun entry hentry => ((h.placed entry).mp hentry).1) hleaf]
    exact hplace
  have hpushed := rebuild.tenant.tree.placedLeaves_descendMut_push masked
    state.config.prefixDepth state.config.maxNodeChildren leaf
  rw [hroute] at hpushed
  refine ⟨_, bind_eq_ok_iff.mpr ⟨_, hsee, bind_eq_ok_iff.mpr ⟨_, hrestored, rfl⟩⟩,
    h.config, hseen, h.sound.descendMut (by simp), ?_, h.structured, h.adopted⟩
  intro entry
  rw [hpushed.mem_iff, List.mem_cons, h.placed, List.mem_append, List.mem_singleton]
  constructor
  · rintro (rfl | ⟨hin, hdone⟩)
    · exact ⟨hplaced, .inr rfl⟩
    · exact ⟨hin, .inl hdone⟩
  · rintro ⟨hin, hdone | hnew⟩
    · exact .inr ⟨hin, hdone⟩
    · exact .inl (hwf.placed_eq hin hplaced (congrArg LeafRecord.templateId hnew))

theorem Restoring.structuredStep {done later : List StructuredTemplateRecord}
    {record : StructuredTemplateRecord}
    (hsplit : state.snapshot.structuredTemplates = done ++ record :: later)
    (h : Restoring state ⟨state.snapshot.leaves, done, []⟩ rebuild) :
    ∃ after, restoreStructured rebuild record = .ok after ∧
      Restoring state ⟨state.snapshot.leaves, done ++ [record], []⟩ after := by
  have hwf := hstate.sturdy.wellFormed
  have hfront : (⟨state.snapshot.leaves, done ++ [record], []⟩ : SnapshotState).heldIds <+:
      state.snapshot.heldIds := by
    simp [SnapshotState.heldIds, hsplit]
  obtain ⟨hfresh, hsee, hseen⟩ := h.see hwf record.templateId (by simp [SnapshotState.heldIds])
    hfront
  obtain ⟨key, templateId, hheld, rfl⟩ := mem_sortByKey_entries.mp
    (show record ∈ state.snapshot.structuredTemplates by simp [hsplit])
  have hunseen : key ∉ rebuild.tenant.structuredTemplates := by
    intro hin
    obtain ⟨other, hother⟩ := Option.isSome_iff_exists.mp (AList.lookup_isSome.mpr hin)
    have hdone := (h.structured key other).mp hother
    -- The key has one record in the snapshot, and it is still to come.
    have hrecorded : structuredRecord key other ∈ state.snapshot.structuredTemplates := by
      rw [hsplit]
      exact List.mem_append_left _ hdone
    obtain ⟨key', other', hheld', heq⟩ := mem_sortByKey_entries.mp hrecorded
    obtain ⟨rfl, rfl⟩ := structuredRecord_inj heq
    rw [hheld, Option.some_inj] at hheld'
    subst hheld'
    exact hfresh (List.mem_append_right _ (List.mem_append_left _
      (List.mem_map.mpr ⟨_, hdone, rfl⟩)))
  refine ⟨_, bind_eq_ok_iff.mpr ⟨_, hsee, if_neg hunseen⟩, h.config, hseen, h.sound, h.placed,
    ?_, h.adopted⟩
  intro other id
  change (rebuild.tenant.structuredTemplates.insert key templateId).lookup other = some id ↔ _
  rw [lookup_insert_ite, List.mem_append, List.mem_singleton]
  split
  · rename_i hother
    subst hother
    constructor
    · intro hsome
      cases hsome
      exact .inr rfl
    · rintro (hdone | hnew)
      · exact absurd (AList.lookup_isSome.mp (Option.isSome_iff_exists.mpr
          ⟨id, (h.structured other id).mpr hdone⟩)) hunseen
      · rw [(structuredRecord_inj hnew).2]
  · rename_i hother
    rw [h.structured]
    constructor
    · exact .inl
    · rintro (hdone | hnew)
      · exact hdone
      · exact absurd (structuredRecord_inj hnew).1 hother

/-- A tree-backed entry passes its check beside the leaf it names. -/
theorem validateTreeBackedAdoption_recorded {templateId templateVersion : Nat}
    (hlookup : state.adoptedTemplates.lookup key = some (.treeBacked templateId templateVersion)) :
    validateTreeBackedAdoption (adoptedRecord key (.treeBacked templateId templateVersion))
      state.snapshot.leaves = .ok () := by
  have hwf := hstate.sturdy.wellFormed
  obtain ⟨leaf, hleaf, hid, hseverity, hscope, hversion⟩ := hwf.treeBacked _ _ _ hlookup
  obtain ⟨entry, hentry, rfl⟩ := List.mem_map.mp hleaf
  cases hfind : state.snapshot.leaves.find? (·.templateId == templateId) with
  | none =>
    have hnone := List.find?_eq_none.mp hfind _ (mem_snapshot_leaves.mpr ⟨entry, hentry, rfl⟩)
    exact absurd (by simpa [placedRecord, leafRecord] using hid) hnone
  | some record =>
    obtain ⟨other, hother, rfl⟩ := mem_snapshot_leaves.mp (List.mem_of_find?_eq_some hfind)
    have hfound : other.2.templateId = templateId := by
      simpa [placedRecord, leafRecord] using List.find?_some hfind
    obtain rfl := hwf.placed_eq hentry hother (hid.trans hfound.symm)
    refine validateTreeBackedAdoption_of_find hfind hseverity hscope hversion fun hsame => ?_
    exact hstate.spelled _ _ _ hlookup _ hleaf hid hsame.symm

/-- A recorded entry comes back as it was. -/
theorem restoreAdoptedEntry_recorded {entry : AdoptedEntry}
    (hlookup : state.adoptedTemplates.lookup key = some entry) :
    restoreAdoptedEntry (adoptedRecord key entry) = entry := by
  cases entry with
  | treeBacked templateId templateVersion => rfl
  | owned owned =>
    simp [restoreAdoptedEntry, adoptedRecord,
      provenanceSetOr_toRecord (hstate.vouched key owned hlookup)]

theorem Restoring.checkAdopted {done later : List AdoptedTemplateRecord} {entry : AdoptedEntry}
    (hlookup : state.adoptedTemplates.lookup key = some entry)
    (hsplit : state.snapshot.adoptedTemplates = done ++ adoptedRecord key entry :: later)
    (h : Restoring state { state.snapshot with adoptedTemplates := done } rebuild) :
    ∃ checked, Miner.checkAdopted state.snapshot.leaves rebuild (adoptedRecord key entry) =
        .ok checked ∧
      checked.tenant =
        { rebuild.tenant with ownedAdoptedCount := checked.tenant.ownedAdoptedCount } ∧
      ∀ id ∈ checked.seenIds, id ∈ { state.snapshot with
        adoptedTemplates := done ++ [adoptedRecord key entry] }.heldIds := by
  cases entry with
  | treeBacked templateId templateVersion =>
    refine ⟨rebuild, ?_, rfl, ?_⟩
    · exact bind_eq_ok_iff.mpr ⟨(), validateTreeBackedAdoption_recorded hstate hlookup, rfl⟩
    · intro id hid
      simpa [SnapshotState.heldIds, adoptedRecord] using h.seen id hid
  | owned owned =>
    have hfront : { state.snapshot with
        adoptedTemplates := done ++ [adoptedRecord key (.owned owned)] }.heldIds <+:
        state.snapshot.heldIds := by
      simp [SnapshotState.heldIds, hsplit, adoptedRecord]
    obtain ⟨-, hsee, hseen⟩ := h.see hstate.sturdy.wellFormed owned.templateId
      (by simp [SnapshotState.heldIds, adoptedRecord]) hfront
    exact ⟨_, bind_eq_ok_iff.mpr ⟨_, hsee, rfl⟩, rfl, hseen⟩

theorem Restoring.adoptedStep {done later : List AdoptedTemplateRecord}
    {record : AdoptedTemplateRecord}
    (hsplit : state.snapshot.adoptedTemplates = done ++ record :: later)
    (h : Restoring state { state.snapshot with adoptedTemplates := done } rebuild) :
    ∃ after, restoreAdopted state.snapshot.leaves rebuild record = .ok after ∧
      Restoring state { state.snapshot with adoptedTemplates := done ++ [record] } after := by
  have hwf := hstate.sturdy.wellFormed
  obtain ⟨key, entry, hlookup, rfl⟩ := mem_sortByKey_entries.mp
    (show record ∈ state.snapshot.adoptedTemplates by simp [hsplit])
  have hunseen : rebuild.tenant.adoptedTemplates.lookup key = none := by
    cases hother : rebuild.tenant.adoptedTemplates.lookup key with
    | none => rfl
    | some other =>
      obtain ⟨hsame, hdone⟩ := (h.adopted key other).mp hother
      rw [hlookup, Option.some_inj] at hsame
      subst hsame
      -- No record of the snapshot occurs twice.
      have hnodup : state.snapshot.adoptedTemplates.Nodup :=
        (sortByKey_perm _ _).nodup_iff.mpr hwf.adopted_order_nodup.of_map
      rw [hsplit] at hnodup
      exact absurd hdone fun hin =>
        (List.nodup_cons.mp (List.nodup_middle.mp hnodup)).1 (List.mem_append_left _ hin)
  obtain ⟨checked, hchecked, htenant, hseen⟩ := h.checkAdopted hstate hlookup hsplit
  have hkey : key ∉ checked.tenant.adoptedTemplates := by
    rw [htenant, ← AList.lookup_eq_none]
    exact hunseen
  have hrecordKey : ∀ (key : CanonicalKey) (entry : AdoptedEntry),
      ((adoptedRecord key entry).canonical, (adoptedRecord key entry).severityNumber,
        (adoptedRecord key entry).scopeName) = key := by
    intro key entry
    cases entry <;> rfl
  have hrestored : restoreAdopted state.snapshot.leaves rebuild (adoptedRecord key entry) =
      .ok { checked with
        tenant := { checked.tenant with
          adoptedTemplates := checked.tenant.adoptedTemplates.insert key entry } } := by
    rw [restoreAdopted, bind_eq_ok_iff]
    refine ⟨checked, hchecked, ?_⟩
    rw [hrecordKey, if_neg hkey, restoreAdoptedEntry_recorded hstate hlookup]
  refine ⟨_, hrestored, ?_⟩
  constructor
  · rw [htenant]
    exact h.config
  · exact hseen
  · rw [htenant]
    exact h.sound
  · rw [htenant]
    exact h.placed
  · rw [htenant]
    exact h.structured
  · intro other found
    rw [htenant, lookup_insert_ite, List.mem_append, List.mem_singleton]
    split
    · rename_i hother
      subst hother
      constructor
      · intro hsome
        cases hsome
        exact ⟨hlookup, .inr rfl⟩
      · rintro ⟨hsame, -⟩
        rw [← hsame, hlookup]
    · rename_i hother
      rw [h.adopted]
      constructor
      · rintro ⟨hsame, hdone⟩
        exact ⟨hsame, .inl hdone⟩
      · rintro ⟨hsame, hdone | hnew⟩
        · exact ⟨hsame, hdone⟩
        · refine absurd ?_ hother
          rw [← hrecordKey other found, hnew, hrecordKey]

end Steps

theorem ceilingCount_snapshot (h : state.WellFormed) :
    state.snapshot.ceilingCount ≤ state.config.maxTemplates := by
  have hleaves := (leaves_ids_perm state).length_eq
  have howned := (owned_ids_perm state).length_eq
  rw [List.length_map] at hleaves howned
  have hroom := h.counted.room
  rw [h.counted.leafCount, h.counted.ownedCount] at hroom
  rw [SnapshotState.ceilingCount, List.countP_eq_length_filter, hleaves, howned]
  exact hroom

/-- What every record of the snapshot built is a twin of the tenant. -/
theorem Restoring.twin {rebuild : Rebuild} (h : Restoring state state.snapshot rebuild) :
    Twin state rebuild.tenant where
  config := h.config.symm
  placed := by
    intro entry
    rw [h.placed]
    constructor
    · intro hentry
      exact ⟨hentry, mem_snapshot_leaves.mpr ⟨entry, hentry, rfl⟩⟩
    · exact fun hboth => hboth.1
  structured := by
    intro key
    apply Option.ext
    intro id
    rw [h.structured]
    constructor
    · intro hlookup
      exact mem_sortByKey_entries.mpr ⟨key, id, hlookup, rfl⟩
    · intro hrecorded
      obtain ⟨key', id', hlookup, heq⟩ := mem_sortByKey_entries.mp hrecorded
      obtain ⟨rfl, rfl⟩ := structuredRecord_inj heq
      exact hlookup
  adopted := by
    intro key
    apply Option.ext
    intro entry
    rw [h.adopted]
    constructor
    · intro hlookup
      exact ⟨hlookup, mem_sortByKey_entries.mpr ⟨key, entry, hlookup, rfl⟩⟩
    · exact fun hboth => hboth.1

/-- The snapshot of a recoverable tenant is accepted, and builds its twin. -/
theorem TenantState.Recoverable.rebuild (h : state.Recoverable) :
    ∃ rebuilt, rebuildTenant state.config state.snapshot = .ok rebuilt ∧ rebuilt.Sturdy ∧
      Twin state rebuilt := by
  obtain ⟨first, hfirst, hleaves⟩ := foldlM_succeeds
    (fun done rebuild => Restoring state ⟨done, [], []⟩ rebuild)
    (fun _ _ _ _ hsplit hbefore => hbefore.leafStep h hsplit) (restoring_new state)
  obtain ⟨second, hsecond, hstructured⟩ := foldlM_succeeds
    (fun done rebuild => Restoring state ⟨state.snapshot.leaves, done, []⟩ rebuild)
    (fun _ _ _ _ hsplit hbefore => hbefore.structuredStep h hsplit) hleaves
  obtain ⟨third, hthird, hadopted⟩ := foldlM_succeeds
    (fun done rebuild => Restoring state { state.snapshot with adoptedTemplates := done } rebuild)
    (fun _ _ _ _ hsplit hbefore => hbefore.adoptedStep h hsplit) hstructured
  have hrebuilt : rebuildTenant state.config state.snapshot = .ok { third.tenant with
      templateCount := state.snapshot.leaves.length +
        state.snapshot.structuredTemplates.length + third.tenant.ownedAdoptedCount
      leafCount := state.snapshot.leaves.length } :=
    bind_eq_ok_iff.mpr ⟨first, hfirst, bind_eq_ok_iff.mpr ⟨second, hsecond,
      bind_eq_ok_iff.mpr ⟨third, hthird, rfl⟩⟩⟩
  have htwin := hadopted.twin
  refine ⟨_, hrebuilt, ⟨?_, ?_⟩, htwin.config, htwin.placed, htwin.structured, htwin.adopted⟩
  · exact (rebuildTenant_ok hrebuilt).2.2 (ceilingCount_snapshot h.sturdy.wellFormed)
  · rw [hadopted.config]
    exact hadopted.sound

end Ourios.Miner
