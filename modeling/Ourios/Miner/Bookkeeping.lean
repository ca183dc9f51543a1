/-
# Bookkeeping of the miner

Six structures of a tenant describe the same templates: the tree, the structured
map, the adoption map, the index of mined shapes and the counters. `WellFormed`
says how they agree, and every move keeps it. At the level of the cluster no id
is ever held twice, because a move only adds an id the allocator has just moved
past.
-/

import Ourios.Miner.Step

namespace Ourios.Miner

open Ourios.Foundation

/-- The shape, severity and scope a leaf is indexed under. -/
def Leaf.key (leaf : Leaf) : CanonicalKey :=
  (formatTemplate leaf.template, leaf.severityNumber, leaf.scopeName)

/-- The id an entry owns; a tree-backed entry owns none. -/
def AdoptedEntry.ownedIds : AdoptedEntry → List Nat
  | .treeBacked .. => []
  | .owned entry => [entry.templateId]

namespace TenantState

variable (state : TenantState)

def leafIds : List Nat := state.tree.collectLeaves.map Leaf.templateId

def structuredIds : List Nat := state.structuredTemplates.entries.flatMap fun entry => [entry.2]

def ownedIds : List Nat := state.adoptedTemplates.entries.flatMap fun entry => entry.2.ownedIds

/-- Every id the tenant holds, once for each holder. -/
def holderIds : List Nat := state.leafIds ++ (state.structuredIds ++ state.ownedIds)

/-- How many leaves have a shape. -/
def shapeCount (key : CanonicalKey) : Nat := (state.tree.collectLeaves.map Leaf.key).count key

/-- The counters count what they stand for, and stay below the ceiling. -/
structure Counted : Prop where
  leafCount : state.leafCount = state.leafIds.length
  ownedCount : state.ownedAdoptedCount = state.ownedIds.length
  templateCount : state.templateCount =
    state.leafCount + state.ownedAdoptedCount + state.structuredIds.length
  room : state.leafCount + state.ownedAdoptedCount ≤ state.config.maxTemplates

/-- The structures of a tenant agree. -/
structure WellFormed : Prop where
  leaf : ∀ entry ∈ state.tree.placedLeaves,
    entry.2.template.length = entry.1.1 ∧ entry.2.SlotsAligned
  ids_nodup : state.holderIds.Nodup
  counted : state.Counted
  canonicals : state.minedCanonicals.Counts state.shapeCount
  treeBacked : ∀ key templateId templateVersion,
    state.adoptedTemplates.lookup key = some (.treeBacked templateId templateVersion) →
    ∃ leaf ∈ state.tree.collectLeaves, leaf.templateId = templateId ∧
      leaf.severityNumber = key.2.1 ∧ leaf.scopeName = key.2.2 ∧
      templateVersion ≤ leaf.templateVersion

end TenantState

/-! ### Leaves across a move -/

section Leaves

variable {record : OtlpLogRecord} {tokens : List Text} {fresh : Option Nat}
  {before after : TenantState} {changes : List (Nat × TemplateChange)}

theorem TenantState.moveCanonical_eq (state : TenantState) (record : OtlpLogRecord)
    (changes : List TemplateChange) : ∃ canonicals,
      state.moveCanonical record changes = { state with minedCanonicals := canonicals } := by
  unfold TenantState.moveCanonical
  split
  · exact ⟨_, rfl⟩
  · exact ⟨state.minedCanonicals, rfl⟩

theorem TenantState.tree_moveCanonical (state : TenantState) (record : OtlpLogRecord)
    (changes : List TemplateChange) : (state.moveCanonical record changes).tree = state.tree := by
  obtain ⟨canonicals, hmoved⟩ := state.moveCanonical_eq record changes
  rw [hmoved]

theorem TenantState.adoptedTemplates_moveCanonical (state : TenantState) (record : OtlpLogRecord)
    (changes : List TemplateChange) :
    (state.moveCanonical record changes).adoptedTemplates = state.adoptedTemplates := by
  obtain ⟨canonicals, hmoved⟩ := state.moveCanonical_eq record changes
  rw [hmoved]

/-- A property of placed leaves that minting establishes, attaching keeps and
marking keeps, holds of every leaf after a move. -/
theorem TenantMove.forall_placed (holds : Nat × List Text → Leaf → Prop)
    (hmint : ∀ templateId provenance associations observed bound, LineTokens tokens →
      Provenance.mined ∈ provenance →
      (templateId, .created (formatTemplate (leafTemplate (mask tokens)))) ∈ changes →
      holds (before.placeFor (mask tokens))
        ((Leaf.fresh record (mask tokens) templateId provenance associations).associateUpstream
          observed bound))
    (hattach : ∀ (leaf : Leaf) (steps : List TemplateChange) observed bound, LineTokens tokens →
      Evolves leaf.templateVersion leaf.template steps
        (leaf.attached tokens steps.length).templateVersion
        (leaf.attached tokens steps.length).template →
      holds (before.placeFor (mask tokens)) leaf →
      holds (before.placeFor (mask tokens))
        ((leaf.attached tokens steps.length).associateUpstream observed bound))
    (hmark : ∀ place leaf, holds place leaf →
      holds place { leaf with provenance := insert .upstreamDerived leaf.provenance })
    (h : TenantMove record tokens fresh before changes after)
    (hbefore : ∀ entry ∈ before.tree.placedLeaves, holds entry.1 entry.2) :
    ∀ entry ∈ after.tree.placedLeaves, holds entry.1 entry.2 := by
  cases h with
  | opened | observeOwned | intern | structured => exact hbefore
  | mint _ observed htokens | converge _ observed htokens =>
    intro entry hentry
    rw [TenantState.pushLeaf, (TenantState.placedLeaves_push _ (mask tokens) _).mem_iff,
      List.mem_cons] at hentry
    rcases hentry with rfl | hentry
    · exact hmint _ _ _ _ _ htokens (by simp) (by simp)
    · exact hbefore entry hentry
  | attach steps observed htokens hleaf hseverity hscope hevolves =>
    obtain ⟨rest, hsplit, hset⟩ := before.placedLeaves_set (mask tokens) hleaf
    intro entry hentry
    rw [TenantState.attachLeaf, TenantState.tree_moveCanonical, (hset _).mem_iff,
      List.mem_cons] at hentry
    rcases hentry with rfl | hentry
    · refine hattach _ steps observed _ htokens hevolves ?_
      exact hbefore (before.placeFor (mask tokens), _)
        (hsplit.mem_iff.mpr List.mem_cons_self)
    · exact hbefore entry (hsplit.mem_iff.mpr (List.mem_cons_of_mem _ hentry))
  | reject wouldBeTemplate wouldBePositions hleaf =>
    obtain ⟨rest, hsplit, hset⟩ := before.placedLeaves_set (mask tokens) hleaf
    intro entry hentry
    exact hbefore entry (hsplit.mem_iff.mpr ((hset _).mem_iff.mp hentry))
  | adoptLeaf template hadopted hexact =>
    intro entry hentry
    rw [TenantState.adoptLeaf, (before.tree.placedLeaves_updateLeaf _ _ _).mem_iff] at hentry
    obtain ⟨source, hsource, rfl⟩ := List.mem_map.mp hentry
    split
    · exact hmark _ _ (hbefore source hsource)
    · exact hbefore source hsource

/-- A move keeps every leaf in the bucket of its length, with one slot per
wildcard. -/
theorem TenantMove.aligned (h : TenantMove record tokens fresh before changes after)
    (hbefore : ∀ entry ∈ before.tree.placedLeaves,
      entry.2.template.length = entry.1.1 ∧ entry.2.SlotsAligned) :
    ∀ entry ∈ after.tree.placedLeaves,
      entry.2.template.length = entry.1.1 ∧ entry.2.SlotsAligned := by
  have hplace : (before.placeFor (mask tokens)).1 = tokens.length := by
    simp [TenantState.placeFor, Tree.placeOf]
  refine h.forall_placed (fun place leaf => leaf.template.length = place.1 ∧ leaf.SlotsAligned)
    ?_ ?_ ?_ hbefore
  · intro templateId provenance associations observed bound _ _ _
    have hfills := (fills_leafTemplate tokens).length_values
    refine ⟨?_, ?_⟩
    · rw [hplace, Leaf.template_associateUpstream, Leaf.fresh, leafTemplate_mask, List.length_map]
    · unfold Leaf.SlotsAligned
      simpa [Leaf.fresh] using hfills
  · rintro leaf steps observed bound - - ⟨hlen, hslots⟩
    rw [hplace] at hlen ⊢
    refine ⟨?_, ?_⟩
    · rw [Leaf.template_associateUpstream]
      exact (length_widenTemplate hlen).trans hlen
    · have := hslots.attached hlen steps.length
      simpa [Leaf.SlotsAligned] using this
  · intro place leaf hleaf
    exact hleaf

/-- A leaf that a tree-backed entry of the key can name. -/
def TenantState.Backs (state : TenantState) (key : CanonicalKey)
    (templateId templateVersion : Nat) : Prop :=
  ∃ leaf ∈ state.tree.collectLeaves, leaf.templateId = templateId ∧
    leaf.severityNumber = key.2.1 ∧ leaf.scopeName = key.2.2 ∧
    templateVersion ≤ leaf.templateVersion

/-- A leaf outlives every move, and its version never goes down. -/
theorem TenantMove.leaf_persists (h : TenantMove record tokens fresh before changes after)
    {leaf : Leaf} (hleaf : leaf ∈ before.tree.collectLeaves) :
    after.Backs leaf.key leaf.templateId leaf.templateVersion := by
  obtain ⟨⟨place, _⟩, hplaced, rfl⟩ := List.mem_map.mp hleaf
  cases h with
  | opened | observeOwned | intern | structured => exact ⟨_, hleaf, rfl, rfl, rfl, le_rfl⟩
  | mint | converge =>
    refine ⟨_, List.mem_map.mpr ⟨_, ?_, rfl⟩, rfl, rfl, rfl, le_rfl⟩
    exact (TenantState.placedLeaves_push _ (mask tokens) _).mem_iff.mpr
      (List.mem_cons_of_mem _ hplaced)
  | @attach _ old _ steps observed htokens hold hseverity hscope hevolves =>
    obtain ⟨rest, hsplit, hset⟩ := before.placedLeaves_set (mask tokens) hold
    rw [TenantState.attachLeaf, TenantState.Backs, TenantState.tree_moveCanonical]
    rcases List.mem_cons.mp (hsplit.mem_iff.mp hplaced) with heq | hrest
    · cases heq
      refine ⟨_, List.mem_map.mpr ⟨_, (hset _).mem_iff.mpr List.mem_cons_self, rfl⟩, ?_⟩
      simp [Leaf.attached, Leaf.key]
    · exact ⟨_, List.mem_map.mpr ⟨_, (hset _).mem_iff.mpr (List.mem_cons_of_mem _ hrest), rfl⟩,
        rfl, rfl, rfl, le_rfl⟩
  | reject wouldBeTemplate wouldBePositions hold =>
    obtain ⟨rest, hsplit, hset⟩ := before.placedLeaves_set (mask tokens) hold
    exact ⟨_, List.mem_map.mpr ⟨_, (hset _).mem_iff.mpr (hsplit.mem_iff.mp hplaced), rfl⟩,
      rfl, rfl, rfl, le_rfl⟩
  | adoptLeaf template hadopted hexact =>
    refine ⟨_, List.mem_map.mpr ⟨_, (before.tree.placedLeaves_updateLeaf _ _ _).mem_iff.mpr
      (List.mem_map.mpr ⟨_, hplaced, rfl⟩), rfl⟩, ?_⟩
    split <;> exact ⟨rfl, rfl, rfl, le_rfl⟩

end Leaves

/-! ### Counting across a move -/

namespace TenantState

variable (state : TenantState) (masked : Masked)

theorem collectLeaves_push (leaf : Leaf) :
    (state.withLeavesFor masked fun leaves => leaves ++ [leaf]).tree.collectLeaves.Perm
      (leaf :: state.tree.collectLeaves) :=
  (state.placedLeaves_push masked leaf).map Prod.snd

theorem collectLeaves_set {leafIdx : Nat} {old : Leaf}
    (h : (state.leavesFor masked)[leafIdx]? = some old) :
    ∃ rest, state.tree.collectLeaves.Perm (old :: rest) ∧
      ∀ new, (state.withLeavesFor masked (·.set leafIdx new)).tree.collectLeaves.Perm
        (new :: rest) := by
  obtain ⟨rest, hbefore, hset⟩ := state.placedLeaves_set masked h
  exact ⟨rest.map Prod.snd, hbefore.map Prod.snd, fun new => (hset new).map Prod.snd⟩

/-- Marking leaves keeps every reading of a leaf that does not look at its
provenance. -/
theorem map_collectLeaves_updateLeaf {α : Type} (read : Leaf → α) (length templateId : Nat)
    (hread : ∀ leaf : Leaf,
      read { leaf with provenance := insert .upstreamDerived leaf.provenance } = read leaf) :
    ((state.tree.updateLeaf length templateId fun leaf =>
        { leaf with provenance := insert .upstreamDerived leaf.provenance }).collectLeaves.map
      read).Perm (state.tree.collectLeaves.map read) := by
  unfold Tree.collectLeaves
  rw [List.map_map, List.map_map]
  refine ((state.tree.placedLeaves_updateLeaf length templateId _).map _).trans ?_
  rw [List.map_map]
  refine List.Perm.of_eq (List.map_congr_left fun entry _ => ?_)
  dsimp only [Function.comp_apply]
  split
  · exact hread entry.2
  · rfl

/-- The owned ids, one key's entry apart. -/
theorem ownedIds_perm (key : CanonicalKey) :
    state.ownedIds.Perm ((state.adoptedTemplates.lookup key).elim [] AdoptedEntry.ownedIds ++
      (state.adoptedTemplates.erase key).entries.flatMap fun entry => entry.2.ownedIds) :=
  flatMap_entries_perm (fun _ entry => AdoptedEntry.ownedIds entry) key state.adoptedTemplates

variable {key : CanonicalKey}

theorem ownedIds_of_lookup_none (h : state.adoptedTemplates.lookup key = none) :
    ((state.adoptedTemplates.erase key).entries.flatMap fun entry => entry.2.ownedIds) =
      state.ownedIds := by
  rw [entries_erase_of_lookup_none h]
  rfl

section PushLeaf

variable (leaf : Leaf) (observed : Option Text) (key : CanonicalKey) (isFresh : Bool)

theorem collectLeaves_pushLeaf :
    (state.pushLeaf masked leaf observed key isFresh).tree.collectLeaves.Perm
      (leaf.associateUpstream observed state.config.upstreamAssociationLimit ::
        state.tree.collectLeaves) :=
  state.collectLeaves_push masked _

variable {leaf observed key isFresh} in
theorem mem_collectLeaves_pushLeaf {held : Leaf}
    (h : held ∈ (state.pushLeaf masked leaf observed key isFresh).tree.collectLeaves) :
    held = leaf.associateUpstream observed state.config.upstreamAssociationLimit ∨
      held ∈ state.tree.collectLeaves :=
  List.mem_cons.mp ((state.collectLeaves_pushLeaf masked leaf observed key isFresh).mem_iff.mp h)

variable {leaf observed key isFresh} in
theorem mem_pushLeaf_self :
    leaf.associateUpstream observed state.config.upstreamAssociationLimit ∈
      (state.pushLeaf masked leaf observed key isFresh).tree.collectLeaves :=
  (state.collectLeaves_pushLeaf masked leaf observed key isFresh).mem_iff.mpr List.mem_cons_self

theorem leafIds_pushLeaf :
    (state.pushLeaf masked leaf observed key isFresh).leafIds.Perm
      (leaf.templateId :: state.leafIds) := by
  have := (state.collectLeaves_pushLeaf masked leaf observed key isFresh).map Leaf.templateId
  rwa [List.map_cons, Leaf.templateId_associateUpstream] at this

@[simp] theorem ownedIds_pushLeaf :
    (state.pushLeaf masked leaf observed key isFresh).ownedIds = state.ownedIds := rfl

end PushLeaf

theorem ownedIds_yieldOwned {owned : OwnedAdopted}
    (h : state.adoptedTemplates.lookup key = some (.owned owned)) :
    state.ownedIds.Perm (owned.templateId :: (state.yieldOwned key owned).ownedIds) := by
  have := state.ownedIds_perm key
  rwa [h] at this

theorem leafIds_set {leafIdx : Nat} {old new : Leaf}
    (h : (state.leavesFor masked)[leafIdx]? = some old) (hid : new.templateId = old.templateId) :
    (state.withLeavesFor masked (·.set leafIdx new)).leafIds.Perm state.leafIds := by
  obtain ⟨rest, hsplit, hset⟩ := state.collectLeaves_set masked h
  have hbefore := hsplit.map Leaf.templateId
  have hafter := (hset new).map Leaf.templateId
  rw [List.map_cons] at hbefore hafter
  rw [hid] at hafter
  exact hafter.trans hbefore.symm

theorem leafIds_adoptLeaf (record : OtlpLogRecord) (template : List OwnedToken) (leaf : Leaf) :
    (state.adoptLeaf record template leaf).leafIds.Perm state.leafIds :=
  state.map_collectLeaves_updateLeaf Leaf.templateId template.length leaf.templateId
    (fun _ => rfl)

/-- A leaf of an adopting tenant has the id, version and shape it had before. -/
theorem mem_collectLeaves_adoptLeaf {record : OtlpLogRecord} {template : List OwnedToken}
    {leaf kept : Leaf} (h : kept ∈ (state.adoptLeaf record template leaf).tree.collectLeaves) :
    ∃ old ∈ state.tree.collectLeaves, old.templateId = kept.templateId ∧
      old.templateVersion = kept.templateVersion ∧ old.template = kept.template := by
  have hperm := state.map_collectLeaves_updateLeaf
    (fun leaf => (leaf.templateId, leaf.templateVersion, leaf.template)) template.length
    leaf.templateId (fun _ => rfl)
  obtain ⟨old, hold, heq⟩ := List.mem_map.mp (hperm.mem_iff.mp (List.mem_map_of_mem h))
  simp only [Prod.mk.injEq] at heq
  exact ⟨old, hold, heq⟩

theorem ownedIds_adoptLeaf {record : OtlpLogRecord} {template : List OwnedToken} (leaf : Leaf)
    (h : state.adoptedTemplates.lookup (canonicalKey record template) = none) :
    (state.adoptLeaf record template leaf).ownedIds = state.ownedIds :=
  state.ownedIds_of_lookup_none h

theorem ownedIds_internOwned {record : OtlpLogRecord} {template : List OwnedToken}
    (templateId : Nat) (upstream : Text)
    (h : state.adoptedTemplates.lookup (canonicalKey record template) = none) :
    (state.internOwned record template templateId upstream).ownedIds =
      templateId :: state.ownedIds :=
  congrArg (templateId :: ·) (state.ownedIds_of_lookup_none h)

theorem ownedIds_observeOwned {owned : OwnedAdopted} (upstream : Text)
    (h : state.adoptedTemplates.lookup key = some (.owned owned)) :
    (state.observeOwned key owned upstream).ownedIds.Perm state.ownedIds := by
  have := state.ownedIds_perm key
  rw [h] at this
  exact this.symm

theorem structuredIds_internStructured {key : StructuredKey} (templateId : Nat)
    (h : state.structuredTemplates.lookup key = none) :
    (state.internStructured key templateId).structuredIds = templateId :: state.structuredIds := by
  unfold structuredIds
  rw [← entries_erase_of_lookup_none h]
  rfl

end TenantState

section Counting

variable {record : OtlpLogRecord} {tokens : List Text} {fresh : Option Nat}
  {before after : TenantState} {changes : List (Nat × TemplateChange)}

/-- A move adds the id it took and moves ids between holders, no more. -/
theorem TenantMove.holderIds_perm (h : TenantMove record tokens fresh before changes after) :
    after.holderIds.Perm (fresh.toList ++ before.holderIds) := by
  cases h with
  | opened => exact List.Perm.refl _
  | mint templateId observed htokens hroom hfresh =>
    exact (before.leafIds_pushLeaf (mask tokens) _ observed _ true).append_right _
  | @converge _ owned observed htokens hroom howned =>
    -- The leaf gains exactly the id the adoption map gives up.
    have howns := before.ownedIds_yieldOwned howned
    refine ((TenantState.leafIds_pushLeaf _ (mask tokens) _ observed _ false).append_right _).trans
      ?_
    refine List.Perm.trans ?_ ((howns.append_left before.structuredIds).append_left _).symm
    refine List.Perm.trans ?_ ((List.perm_middle.symm).append_left before.leafIds)
    exact List.perm_middle.symm
  | attach steps observed htokens hleaf hseverity hscope hevolves =>
    have hleaves := before.leafIds_set (mask tokens) hleaf
      (Leaf.templateId_associateUpstream (Leaf.attached _ tokens steps.length) observed
        before.config.upstreamAssociationLimit)
    obtain ⟨canonicals, hmoved⟩ := TenantState.moveCanonical_eq _ record steps
    rw [TenantState.attachLeaf, hmoved]
    exact hleaves.append_right _
  | reject wouldBeTemplate wouldBePositions hleaf =>
    exact (before.leafIds_set (mask tokens) hleaf rfl).append_right _
  | observeOwned upstream hadopted =>
    exact ((before.ownedIds_observeOwned upstream hadopted).append_left _).append_left _
  | @adoptLeaf _ leaf template hadopted hexact =>
    unfold TenantState.holderIds
    rw [before.ownedIds_adoptLeaf leaf hadopted]
    exact (before.leafIds_adoptLeaf record template leaf).append_right _
  | intern templateId template upstream hadopted hroom =>
    unfold TenantState.holderIds
    rw [before.ownedIds_internOwned templateId upstream hadopted, ← List.append_assoc,
      ← List.append_assoc before.leafIds]
    exact List.perm_middle
  | structured templateId hnone =>
    unfold TenantState.holderIds
    rw [before.structuredIds_internStructured templateId hnone]
    exact List.perm_middle

theorem TenantMove.held_of_held (h : TenantMove record tokens fresh before changes after) :
    ∀ held ∈ before.holderIds, held ∈ after.holderIds :=
  fun _ hheld => h.holderIds_perm.mem_iff.mpr (List.mem_append_right _ hheld)

theorem TenantMove.fresh_held {id : Nat}
    (h : TenantMove record tokens (some id) before changes after) : id ∈ after.holderIds :=
  h.holderIds_perm.mem_iff.mpr (List.mem_append_left _ (by simp))

/-- A structured id stays one. -/
theorem TenantMove.structuredIds_subset (h : TenantMove record tokens fresh before changes after)
    {id : Nat} (hid : id ∈ before.structuredIds) : id ∈ after.structuredIds := by
  cases h with
  | attach steps observed htokens hleaf hseverity hscope hevolves =>
    obtain ⟨canonicals, hmoved⟩ := TenantState.moveCanonical_eq _ record steps
    rwa [TenantState.attachLeaf, hmoved]
  | structured templateId hnone =>
    rw [before.structuredIds_internStructured templateId hnone]
    exact List.mem_cons_of_mem _ hid
  | _ => exact hid

/-- Every move keeps the counters right. -/
theorem TenantMove.counted (h : TenantMove record tokens fresh before changes after)
    (hbefore : before.Counted) : after.Counted := by
  obtain ⟨hleaf, howned, htemplate, hroom⟩ := hbefore
  cases h with
  | opened => exact ⟨hleaf, howned, htemplate, hroom⟩
  | mint templateId observed htokens hceiling hfresh =>
    simp only [TenantState.atCeiling, decide_eq_false_iff_not, not_le] at hceiling
    refine ⟨?_, howned, ?_, ?_⟩
    · exact (congrArg Nat.succ hleaf).trans
        (before.leafIds_pushLeaf (mask tokens) _ observed _ true).length_eq.symm
    · change before.templateCount + 1 = before.leafCount + 1 + before.ownedAdoptedCount +
        before.structuredIds.length
      omega
    · change before.leafCount + 1 + before.ownedAdoptedCount ≤ before.config.maxTemplates
      omega
  | @converge _ owned observed htokens hceiling hlookup =>
    have hyield := (before.ownedIds_yieldOwned hlookup).length_eq
    rw [List.length_cons] at hyield
    refine ⟨?_, ?_, ?_, ?_⟩
    · exact (congrArg Nat.succ hleaf).trans
        (TenantState.leafIds_pushLeaf _ (mask tokens) _ observed
          (canonicalKey record (leafTemplate (mask tokens))) false).length_eq.symm
    · rw [TenantState.ownedIds_pushLeaf]
      change before.ownedAdoptedCount - 1 = _
      omega
    · change before.templateCount = before.leafCount + 1 + (before.ownedAdoptedCount - 1) +
        before.structuredIds.length
      omega
    · change before.leafCount + 1 + (before.ownedAdoptedCount - 1) ≤ before.config.maxTemplates
      omega
  | attach steps observed htokens hat hseverity hscope hevolves =>
    have hlen := (before.leafIds_set (mask tokens) hat
      (Leaf.templateId_associateUpstream (Leaf.attached _ tokens steps.length) observed
        before.config.upstreamAssociationLimit)).length_eq
    obtain ⟨canonicals, hmoved⟩ := TenantState.moveCanonical_eq _ record steps
    rw [TenantState.attachLeaf, hmoved]
    exact ⟨hleaf.trans hlen.symm, howned, htemplate, hroom⟩
  | reject wouldBeTemplate wouldBePositions hat =>
    have hlen := (before.leafIds_set (mask tokens) hat rfl).length_eq
    exact ⟨hleaf.trans hlen.symm, howned, htemplate, hroom⟩
  | observeOwned upstream hadopted =>
    have hlen := (before.ownedIds_observeOwned upstream hadopted).length_eq
    exact ⟨hleaf, howned.trans hlen.symm, htemplate, hroom⟩
  | @adoptLeaf _ leaf template hadopted hexact =>
    have hlen := (before.leafIds_adoptLeaf record template leaf).length_eq
    have hsame := before.ownedIds_adoptLeaf leaf hadopted
    exact ⟨hleaf.trans hlen.symm, howned.trans (by rw [hsame]), htemplate, hroom⟩
  | intern templateId template upstream hadopted hceiling =>
    have hcons := before.ownedIds_internOwned templateId upstream hadopted
    simp only [TenantState.atCeiling, decide_eq_false_iff_not, not_le] at hceiling
    refine ⟨hleaf, ?_, ?_, ?_⟩
    · rw [hcons, List.length_cons, ← howned]
      rfl
    · change before.templateCount + 1 = before.leafCount + (before.ownedAdoptedCount + 1) +
        before.structuredIds.length
      omega
    · change before.leafCount + (before.ownedAdoptedCount + 1) ≤ before.config.maxTemplates
      omega
  | structured templateId hnone =>
    have hcons := before.structuredIds_internStructured templateId hnone
    refine ⟨hleaf, howned, ?_, hroom⟩
    rw [hcons, List.length_cons]
    change before.templateCount + 1 = before.leafCount + before.ownedAdoptedCount +
      (before.structuredIds.length + 1)
    omega

/-- A history is indexed by where it started and where it ended, and not at all
when it widened nothing. -/
theorem Evolves.widenedMove_eq {version final : Nat} {template result : List OwnedToken}
    {steps : List TemplateChange} (h : Evolves version template steps final result) :
    (MinerCluster.widenedMove steps = none ∧ result = template) ∨
      MinerCluster.widenedMove steps = some (formatTemplate template, formatTemplate result) := by
  -- The fold keeps the first old text; `held` is what it has kept so far.
  have key : ∀ held : Option (Text × Text),
      (steps.foldl MinerCluster.widenedFold held = held ∧ result = template) ∨
        steps.foldl MinerCluster.widenedFold held =
          some ((held.map Prod.fst).getD (formatTemplate template), formatTemplate result) := by
    induction h with
    | refl version template => exact fun held => .inl ⟨rfl, rfl⟩
    | @widened version final template result steps positions hfixed later ih =>
      intro held
      right
      rcases ih (some ((held.map Prod.fst).getD (formatTemplate template),
        formatTemplate (applyWidening template positions))) with ⟨hfold, hsame⟩ | hfold
      · rw [List.foldl_cons, hsame]
        exact hfold
      · exact hfold
    | typeExpanded expansions later ih => exact ih
  exact key none

theorem count_keys_cons (leaf : Leaf) (rest : List Leaf) (key : CanonicalKey) :
    ((leaf :: rest).map Leaf.key).count key =
      (rest.map Leaf.key).count key + if key = leaf.key then 1 else 0 := by
  rw [List.map_cons]
  by_cases hkey : key = leaf.key
  · rw [← hkey, List.count_cons_self, if_pos rfl]
  · rw [List.count_cons_of_ne (Ne.symm hkey), if_neg hkey, Nat.add_zero]

theorem counts_attachLeaf {leaf : Leaf} {leafIdx : Nat} {steps : List TemplateChange}
    (observed : Option Text) (hat : (before.leavesFor (mask tokens))[leafIdx]? = some leaf)
    (hseverity : leaf.severityNumber = record.severityNumber)
    (hscope : leaf.scopeName = record.scopeName)
    (hevolves : Evolves leaf.templateVersion leaf.template steps
      (leaf.attached tokens steps.length).templateVersion
      (leaf.attached tokens steps.length).template)
    (hbefore : before.minedCanonicals.Counts before.shapeCount) :
    (before.attachLeaf record tokens leafIdx leaf steps observed).minedCanonicals.Counts
      (before.attachLeaf record tokens leafIdx leaf steps observed).shapeCount := by
  obtain ⟨rest, hsplit, hset⟩ := before.collectLeaves_set (mask tokens) hat
  let attached := (leaf.attached tokens steps.length).associateUpstream observed
    before.config.upstreamAssociationLimit
  have hcount : ∀ key, before.shapeCount key = (rest.map Leaf.key).count key +
      if key = leaf.key then 1 else 0 := by
    intro key
    rw [← count_keys_cons]
    exact (hsplit.map Leaf.key).count_eq key
  have hafter : ∀ key,
      (before.attachLeaf record tokens leafIdx leaf steps observed).shapeCount key =
        (rest.map Leaf.key).count key + if key = attached.key then 1 else 0 := by
    intro key
    rw [← count_keys_cons]
    unfold TenantState.shapeCount TenantState.attachLeaf
    rw [TenantState.tree_moveCanonical]
    exact ((hset attached).map Leaf.key).count_eq key
  have hkey : attached.key =
      canonicalKey record (leaf.attached tokens steps.length).template := by
    simp [attached, Leaf.key, canonicalKey, Leaf.attached, hseverity, hscope]
  have hold : leaf.key = canonicalKey record leaf.template := by
    simp [Leaf.key, canonicalKey, hseverity, hscope]
  rcases hevolves.widenedMove_eq with ⟨hnone, hsame⟩ | hsome
  · have hstay : (before.attachLeaf record tokens leafIdx leaf steps observed).minedCanonicals =
        before.minedCanonicals := by
      unfold TenantState.attachLeaf TenantState.moveCanonical
      rw [hnone]
      rfl
    rw [hstay]
    refine hbefore.congr fun key => ?_
    rw [hafter, hkey, hsame, ← hold, ← hcount]
  · have hmoved : (before.attachLeaf record tokens leafIdx leaf steps observed).minedCanonicals =
        before.minedCanonicals.replace leaf.key attached.key := by
      unfold TenantState.attachLeaf TenantState.moveCanonical
      rw [hsome, hold, hkey]
      rfl
    rw [hmoved]
    have hpos : 0 < before.shapeCount leaf.key := by
      rw [hcount, if_pos rfl]
      omega
    refine (MinedCanonicals.counts_replace hbefore hpos attached.key).congr fun key => ?_
    rw [hafter, hcount, Nat.add_sub_cancel]

/-- Pushing a leaf counts its shape. -/
theorem counts_pushLeaf (state : TenantState) {leaf : Leaf} (masked : Masked)
    (observed : Option Text) {key : CanonicalKey} (isFresh : Bool) (hkey : leaf.key = key)
    (hbefore : state.minedCanonicals.Counts state.shapeCount) :
    (state.pushLeaf masked leaf observed key isFresh).minedCanonicals.Counts
      (state.pushLeaf masked leaf observed key isFresh).shapeCount := by
  have hpushed := (state.collectLeaves_pushLeaf masked leaf observed key isFresh).map Leaf.key
  have hshape : (leaf.associateUpstream observed state.config.upstreamAssociationLimit).key =
      key := by
    rw [← hkey]
    simp [Leaf.key]
  refine (MinedCanonicals.counts_insert hbefore key).congr fun k => ?_
  rw [← hshape]
  exact (hpushed.count_eq k).trans (count_keys_cons _ _ k)

variable (h : TenantMove record tokens fresh before changes after)
include h

/-- Every move keeps the index of mined shapes. -/
theorem TenantMove.canonicals (hbefore : before.minedCanonicals.Counts before.shapeCount) :
    after.minedCanonicals.Counts after.shapeCount := by
  cases h with
  | opened | observeOwned | intern | structured => exact hbefore
  | mint templateId observed htokens hroom hfresh =>
    exact counts_pushLeaf before (mask tokens) observed true rfl hbefore
  | converge owned observed htokens hroom howned =>
    exact counts_pushLeaf _ (mask tokens) observed false rfl hbefore
  | attach steps observed htokens hat hseverity hscope hevolves =>
    exact counts_attachLeaf observed hat hseverity hscope hevolves hbefore
  | reject wouldBeTemplate wouldBePositions hat =>
    obtain ⟨rest, hsplit, hset⟩ := before.collectLeaves_set (mask tokens) hat
    exact hbefore.congr (((hset _).trans hsplit.symm).map Leaf.key).count_eq
  | @adoptLeaf _ leaf template hadopted hexact =>
    exact hbefore.congr (before.map_collectLeaves_updateLeaf Leaf.key template.length
      leaf.templateId (fun _ => rfl)).count_eq

/-- Every tree-backed entry keeps naming a leaf it is not ahead of. -/
theorem TenantMove.treeBacked (hbefore : ∀ key templateId templateVersion,
      before.adoptedTemplates.lookup key = some (.treeBacked templateId templateVersion) →
      before.Backs key templateId templateVersion)
    (key : CanonicalKey) (templateId templateVersion : Nat)
    (hlookup : after.adoptedTemplates.lookup key =
      some (.treeBacked templateId templateVersion)) :
    after.Backs key templateId templateVersion := by
  have hkept : before.adoptedTemplates.lookup key = some (.treeBacked templateId templateVersion) →
      after.Backs key templateId templateVersion := by
    intro hold
    obtain ⟨leaf, hleaf, rfl, hseverity, hscope, hversion⟩ := hbefore _ _ _ hold
    obtain ⟨kept, hin, hid, hseverity', hscope', hversion'⟩ := h.leaf_persists hleaf
    exact ⟨kept, hin, hid, hseverity'.trans hseverity, hscope'.trans hscope,
      hversion.trans hversion'⟩
  cases h with
  | opened | mint | reject | structured => exact hkept hlookup
  | attach steps observed htokens hat hseverity hscope hevolves =>
    rw [TenantState.attachLeaf, TenantState.adoptedTemplates_moveCanonical] at hlookup
    exact hkept hlookup
  | @converge _ owned observed htokens hroom howned =>
    rcases lookup_insert_cases hlookup with ⟨rfl, hnew⟩ | ⟨-, hold⟩
    · cases hnew
      refine ⟨_, TenantState.mem_pushLeaf_self _ _, ?_⟩
      simp [Leaf.fresh, canonicalKey]
    · exact hkept hold
  | observeOwned | intern =>
    rcases lookup_insert_cases hlookup with ⟨-, hnew⟩ | ⟨-, hold⟩
    · cases hnew
    · exact hkept hold
  | @adoptLeaf _ leaf template hadopted hexact hmode =>
    rcases lookup_insert_cases hlookup with ⟨rfl, hnew⟩ | ⟨-, hold⟩
    · cases hnew
      obtain ⟨path, hplaced, -, hseverity, hscope⟩ := before.findExact_some hexact
      have hmove : TenantMove record tokens none before _ _ :=
        .adoptLeaf template hadopted hexact hmode
      obtain ⟨kept, hin, hid, hseverity', hscope', hversion⟩ :=
        hmove.leaf_persists (List.mem_map.mpr ⟨_, hplaced, rfl⟩)
      exact ⟨kept, hin, hid, hseverity'.trans hseverity, hscope'.trans hscope, hversion⟩
    · exact hkept hold

/-- Every move that takes a new id keeps the structures of the tenant in
agreement. -/
theorem TenantMove.wellFormed (hfresh : ∀ id, fresh = some id → id ∉ before.holderIds)
    (hbefore : before.WellFormed) : after.WellFormed := by
  refine ⟨h.aligned hbefore.leaf, ?_, h.counted hbefore.counted, h.canonicals hbefore.canonicals,
    h.treeBacked hbefore.treeBacked⟩
  rw [h.holderIds_perm.nodup_iff]
  cases fresh with
  | none => exact hbefore.ids_nodup
  | some id => exact List.nodup_cons.mpr ⟨hfresh id rfl, hbefore.ids_nodup⟩

end Counting

namespace TenantState.WellFormed

variable {state : TenantState} (h : state.WellFormed)

variable {leaf : Leaf} {key : CanonicalKey} {owned : OwnedAdopted}

theorem leaf_held (hleaf : leaf ∈ state.tree.collectLeaves) :
    leaf.templateId ∈ state.holderIds :=
  List.mem_append_left _ (List.mem_map.mpr ⟨leaf, hleaf, rfl⟩)

theorem mem_ownedIds (howned : state.adoptedTemplates.lookup key = some (.owned owned)) :
    owned.templateId ∈ state.ownedIds :=
  List.mem_flatMap.mpr ⟨⟨key, .owned owned⟩, AList.mem_lookup_iff.mp howned,
    List.mem_singleton.mpr rfl⟩

theorem owned_held (howned : state.adoptedTemplates.lookup key = some (.owned owned)) :
    owned.templateId ∈ state.holderIds :=
  List.mem_append_right _ (List.mem_append_right _ (mem_ownedIds howned))

include h

/-- The leaves beside a leaf have other ids. -/
theorem ne_of_split {other : Leaf} {rest : List Leaf}
    (hsplit : state.tree.collectLeaves.Perm (leaf :: rest)) (hother : other ∈ rest) :
    other.templateId ≠ leaf.templateId := by
  intro heq
  have hnodup := (hsplit.map Leaf.templateId).nodup_iff.mp h.ids_nodup.of_append_left
  rw [List.map_cons, List.nodup_cons] at hnodup
  exact hnodup.1 (List.mem_map.mpr ⟨other, hother, heq⟩)

variable (hleaf : leaf ∈ state.tree.collectLeaves)
include hleaf

/-- Two leaves with one id are the same leaf. -/
theorem leaf_eq {other : Leaf} (hother : other ∈ state.tree.collectLeaves)
    (hid : leaf.templateId = other.templateId) : leaf = other :=
  List.inj_on_of_nodup_map h.ids_nodup.of_append_left hleaf hother hid

/-- A leaf's id is not one adoption owns. -/
theorem leaf_ne_owned (howned : state.adoptedTemplates.lookup key = some (.owned owned)) :
    leaf.templateId ≠ owned.templateId := by
  intro heq
  have hdisjoint := List.disjoint_of_nodup_append h.ids_nodup
  refine hdisjoint (List.mem_map.mpr ⟨leaf, hleaf, rfl⟩) ?_
  rw [heq]
  exact List.mem_append_right _ (mem_ownedIds howned)

/-- A leaf's id is not a structured one. -/
theorem leaf_ne_structured {id : Nat} (hid : id ∈ state.structuredIds) : leaf.templateId ≠ id := by
  rintro rfl
  have hdisjoint := List.disjoint_of_nodup_append h.ids_nodup
  exact hdisjoint (List.mem_map.mpr ⟨leaf, hleaf, rfl⟩) (List.mem_append_left _ hid)

end TenantState.WellFormed

theorem TenantState.wellFormed_new (config : MinerConfig) :
    (TenantState.new config).WellFormed where
  leaf := by simp [TenantState.new]
  ids_nodup := List.nodup_nil
  counted := ⟨rfl, rfl, rfl, Nat.zero_le _⟩
  canonicals := fun _ => rfl
  treeBacked := by
    intro key templateId templateVersion hlookup
    cases hlookup

/-! ### The cluster -/

namespace MinerCluster

/-- Every id held by any tenant, once for each holder. -/
def holderIds (cluster : MinerCluster) : List Nat :=
  cluster.tenants.entries.flatMap fun entry => entry.2.holderIds

/-- Every tenant is well formed, no id is held twice, and the allocator is past
every held id. -/
structure WellFormed (cluster : MinerCluster) : Prop where
  tenant : ∀ tenant state, cluster.tenants.lookup tenant = some state → state.WellFormed
  ids_nodup : cluster.holderIds.Nodup
  ids_lt : ∀ id ∈ cluster.holderIds, 0 < id ∧ id < cluster.ids.next

variable {before after : MinerCluster}

theorem holderIds_tenantOrNew (tenant : TenantId) :
    (before.tenants.lookup tenant).elim [] TenantState.holderIds =
      (before.tenantOrNew tenant).holderIds := by
  unfold tenantOrNew
  cases before.tenants.lookup tenant with
  | none => rfl
  | some state => rfl

variable {tenant : TenantId}

/-- Storing a tenant replaces what it held and nothing else. -/
theorem holderIds_of_stored {fresh : Option Nat} {state : TenantState} {merges : Nat}
    (h : Stored before tenant fresh state merges after) :
    ∃ rest, before.holderIds.Perm ((before.tenantOrNew tenant).holderIds ++ rest) ∧
      after.holderIds.Perm (state.holderIds ++ rest) := by
  refine ⟨(before.tenants.erase tenant).entries.flatMap fun entry => entry.2.holderIds, ?_, ?_⟩
  · rw [← holderIds_tenantOrNew]
    exact flatMap_entries_perm (fun _ state => TenantState.holderIds state) tenant before.tenants
  · have hsame : ∀ other, after.tenants.lookup other =
        (before.tenants.insert tenant state).lookup other := by
      intro other
      rw [h.lookup, lookup_insert_ite]
    exact (entries_perm_of_lookup_eq hsame).flatMap_right _

theorem wellFormed_tenantOrNew (h : before.WellFormed) (tenant : TenantId) :
    (before.tenantOrNew tenant).WellFormed := by
  unfold tenantOrNew
  cases hlookup : before.tenants.lookup tenant with
  | none => exact TenantState.wellFormed_new _
  | some state => exact h.tenant tenant state hlookup

theorem mem_holderIds_tenantOrNew {id : Nat} (h : id ∈ (before.tenantOrNew tenant).holderIds) :
    id ∈ before.holderIds := by
  have hperm := flatMap_entries_perm (fun _ state => TenantState.holderIds state) tenant
    before.tenants
  rw [holderIds_tenantOrNew] at hperm
  exact hperm.mem_iff.mpr (List.mem_append_left _ h)

theorem mem_holderIds_of_lookup {state : TenantState}
    (h : before.tenants.lookup tenant = some state) {id : Nat} (hid : id ∈ state.holderIds) :
    id ∈ before.holderIds :=
  mem_holderIds_tenantOrNew (tenantOrNew_of_lookup h ▸ hid)

end MinerCluster

theorem Takes.next_le {before after : IdRange} {fresh : Option Nat}
    (h : Takes before fresh after) : before.next ≤ after.next := by
  cases h with
  | nothing => exact le_rfl
  | failed htake => exact IdRange.take_none htake
  | taken htake =>
    obtain ⟨hle, hnext⟩ := IdRange.take_some htake
    omega

section ClusterMove

variable {record : OtlpLogRecord} {tokens : List Text} {before after : MinerCluster}
  {events : List AuditEvent}

/-- Every move keeps the cluster well formed. -/
theorem ClusterMove.wellFormed (h : ClusterMove record tokens before events after)
    (hbefore : before.WellFormed) : after.WellFormed := by
  cases h with
  | quiet hconfig hoverrides htenants hids hmerges =>
    refine ⟨?_, ?_, ?_⟩
    · rw [htenants]
      exact hbefore.tenant
    · rw [MinerCluster.holderIds, htenants]
      exact hbefore.ids_nodup
    · intro id hid
      rw [MinerCluster.holderIds, htenants] at hid
      obtain ⟨hpos, hlt⟩ := hbefore.ids_lt id hid
      exact ⟨hpos, hlt.trans_le hids.next_le⟩
  | @commit _ fresh changes state _ hmove hstored hevents =>
    -- A taken id is at the allocator's old position or past it, so nobody holds it.
    have hfresh : ∀ id, fresh = some id → 0 < id ∧ id ∉ before.holderIds ∧
        id < after.ids.next := by
      rintro id rfl
      have hids := hstored.ids
      cases hids with
      | taken htake =>
        obtain ⟨hle, hnext⟩ := IdRange.take_some htake
        have hpos := before.ids.next_pos
        refine ⟨by omega, fun hheld => ?_, by omega⟩
        have := (hbefore.ids_lt id hheld).2
        omega
    obtain ⟨rest, hrest, hafter⟩ := MinerCluster.holderIds_of_stored hstored
    have hperm : after.holderIds.Perm (fresh.toList ++ before.holderIds) := by
      refine hafter.trans ((hmove.holderIds_perm.append_right rest).trans ?_)
      rw [List.append_assoc]
      exact hrest.symm.append_left _
    refine ⟨?_, ?_, ?_⟩
    · intro tenant other hlookup
      rw [hstored.lookup] at hlookup
      split at hlookup
      · cases hlookup
        refine hmove.wellFormed (fun id hid hheld => ?_)
          (MinerCluster.wellFormed_tenantOrNew hbefore record.tenantId)
        exact (hfresh id hid).2.1 (MinerCluster.mem_holderIds_tenantOrNew hheld)
      · exact hbefore.tenant tenant other hlookup
    · rw [hperm.nodup_iff]
      cases fresh with
      | none => exact hbefore.ids_nodup
      | some id => exact List.nodup_cons.mpr ⟨(hfresh id rfl).2.1, hbefore.ids_nodup⟩
    · intro id hid
      rcases List.mem_append.mp (hperm.mem_iff.mp hid) with hnew | hold
      · have := hfresh id (by simpa using hnew)
        exact ⟨this.1, this.2.2⟩
      · obtain ⟨hpos, hlt⟩ := hbefore.ids_lt id hold
        exact ⟨hpos, hlt.trans_le hstored.ids.next_le⟩

theorem wellFormed_of_moves (h : Moves (ClusterMove record tokens) before events after)
    (hbefore : before.WellFormed) : after.WellFormed :=
  h.preserves MinerCluster.WellFormed (fun hmove => hmove.wellFormed) hbefore

end ClusterMove

theorem MinerCluster.wellFormed_new (config : MinerConfig)
    (tenantOverrides : AList fun _ : TenantId => MinerConfig) (ids : IdRange) :
    (MinerCluster.new config tenantOverrides ids).WellFormed where
  tenant := by
    intro tenant state hlookup
    cases hlookup
  ids_nodup := List.nodup_nil
  ids_lt := by
    intro id hid
    cases hid

end Ourios.Miner
