/-
# Tenants that cannot be told apart

Two tenants are twins when they run under the same tunables, hold the same leaves
at the same places, and agree on their two maps. The order in which the leaves of
a node were pushed is not part of it, nor are the counters, which follow from the
rest. Everything an ingest reads is the same on twins, and everything it writes
keeps them twins.
-/

import Ourios.Foundation.Sorting
import Ourios.Miner.Ingest
import Ourios.Miner.Placement

namespace Ourios.Miner

open Ourios.Foundation

/-- A well-formed tenant whose tree ingests could have built. -/
structure TenantState.Sturdy (state : TenantState) : Prop where
  wellFormed : state.WellFormed
  sound : state.tree.Sound state.config.maxNodeChildren

theorem TenantState.sturdy_new (config : MinerConfig) : (TenantState.new config).Sturdy :=
  ⟨TenantState.wellFormed_new config, Tree.sound_empty⟩

/-- No leaf is placed twice. -/
theorem TenantState.WellFormed.nodup_placedLeaves {state : TenantState} (h : state.WellFormed) :
    state.tree.placedLeaves.Nodup := by
  have hids : ((state.tree.placedLeaves.map Prod.snd).map Leaf.templateId).Nodup :=
    h.ids_nodup.of_append_left
  exact hids.of_map.of_map

variable {masked : Masked} {a b : Candidate}

/-- Where the leaves are after one leaf of a line's place was rewritten. -/
theorem TenantState.WellFormed.mem_placedLeaves_set {state : TenantState} (h : state.WellFormed)
    {leafIdx : Nat} {old : Leaf} (hat : (state.leavesFor masked)[leafIdx]? = some old) (new : Leaf)
    (entry : (Nat × List Text) × Leaf) :
    entry ∈ (state.withLeavesFor masked (·.set leafIdx new)).tree.placedLeaves ↔
      entry = (state.placeFor masked, new) ∨
        entry ≠ (state.placeFor masked, old) ∧ entry ∈ state.tree.placedLeaves := by
  obtain ⟨rest, hsplit, hset⟩ := state.placedLeaves_set masked hat
  have hnodup := hsplit.nodup_iff.mp h.nodup_placedLeaves
  have hnotin : (state.placeFor masked, old) ∉ rest := (List.nodup_cons.mp hnodup).1
  rw [(hset new).mem_iff, hsplit.mem_iff, List.mem_cons, List.mem_cons]
  constructor
  · rintro (hnew | hrest)
    · exact .inl hnew
    · exact .inr ⟨fun heq => hnotin (heq ▸ hrest), .inr hrest⟩
  · rintro (hnew | ⟨hne, hold | hrest⟩)
    · exact .inl hnew
    · exact absurd hold hne
    · exact .inr hrest

/-! ### The best candidate -/

/-- Candidates by similarity, and among equals the older template first. -/
def Candidate.rank (candidate : Candidate) : ℚ ×ₗ ℕᵒᵈ :=
  toLex (candidate.similarity, OrderDual.toDual candidate.templateId)

theorem Candidate.worse_iff : a.worse b = true ↔ a.rank < b.rank := by
  unfold Candidate.worse Candidate.rank
  simp [Prod.Lex.toLex_lt_toLex]

/-- The better of two is no worse than either. -/
theorem pickBetter_some (held candidate : Candidate) : ∃ best,
    pickBetter (some held) candidate = some best ∧ held.rank ≤ best.rank ∧
      candidate.rank ≤ best.rank := by
  unfold pickBetter
  by_cases hworse : candidate.worse held = true
  · exact ⟨held, by simp [hworse], le_rfl, (Candidate.worse_iff.mp hworse).le⟩
  · exact ⟨candidate, by simp [hworse], not_lt.mp (mt Candidate.worse_iff.mpr hworse), le_rfl⟩

/-- No candidate beats the one picked. -/
theorem pickBest_unbeaten {candidates : List Candidate} (hne : candidates ≠ []) :
    ∃ best, pickBest candidates = some best ∧
      ∀ candidate ∈ candidates, candidate.rank ≤ best.rank := by
  have key : ∀ (rest : List Candidate) (held : Candidate), ∃ best,
      rest.foldl pickBetter (some held) = some best ∧
        ∀ candidate ∈ held :: rest, candidate.rank ≤ best.rank := by
    intro rest
    induction rest with
    | nil =>
      intro held
      exact ⟨held, rfl, by simp⟩
    | cons candidate rest ih =>
      intro held
      obtain ⟨better, hbetter, hheld, hcandidate⟩ := pickBetter_some held candidate
      obtain ⟨best, hbest, hall⟩ := ih better
      obtain ⟨hbetterLe, hrest⟩ := List.forall_mem_cons.mp hall
      refine ⟨best, by rw [List.foldl_cons, hbetter, hbest], ?_⟩
      exact List.forall_mem_cons.mpr ⟨hheld.trans hbetterLe,
        List.forall_mem_cons.mpr ⟨hcandidate.trans hbetterLe, hrest⟩⟩
  cases candidates with
  | nil => exact absurd rfl hne
  | cons first rest => exact key rest first

theorem mem_candidatesIn {leaves : List Leaf} {record : OtlpLogRecord} {candidate : Candidate} :
    candidate ∈ candidatesIn leaves record masked ↔
      ∃ leaf, leaves[candidate.leafIdx]? = some leaf ∧
        (leaf.severityNumber = record.severityNumber ∧ leaf.scopeName = record.scopeName) ∧
        candidate.similarity =
          simSeqOwned masked.tokens leaf.template masked.wildcardPositions ∧
        candidate.templateId = leaf.templateId := by
  unfold candidatesIn
  simp only [List.mem_map, List.mem_filter, Bool.and_eq_true, beq_iff_eq, Prod.exists,
    List.mem_zipIdx_iff_getElem?]
  constructor
  · rintro ⟨leaf, leafIdx, ⟨hat, hmatch⟩, rfl⟩
    exact ⟨leaf, hat, hmatch, rfl, rfl⟩
  · rintro ⟨leaf, hat, hmatch, hsimilarity, hid⟩
    refine ⟨leaf, candidate.leafIdx, ⟨hat, hmatch⟩, ?_⟩
    rw [← hsimilarity, ← hid]

/-- A candidate among some leaves has its like wherever those leaves are. -/
theorem exists_candidate_of_mem {first second : List Leaf} {record : OtlpLogRecord}
    (hsub : ∀ leaf ∈ first, leaf ∈ second) {candidate : Candidate}
    (h : candidate ∈ candidatesIn first record masked) :
    ∃ other ∈ candidatesIn second record masked, other.rank = candidate.rank := by
  obtain ⟨leaf, hat, hmatch, hsimilarity, hid⟩ := mem_candidatesIn.mp h
  obtain ⟨leafIdx, hidx⟩ := List.mem_iff_getElem?.mp (hsub leaf (List.mem_of_getElem? hat))
  refine ⟨⟨leafIdx, candidate.similarity, candidate.templateId⟩, ?_, rfl⟩
  exact mem_candidatesIn.mpr ⟨leaf, hidx, hmatch, hsimilarity, hid⟩

/-- The search is over the leaves at the line's place. -/
theorem TenantState.findBestCandidate_eq (state : TenantState) (record : OtlpLogRecord)
    (masked : Masked) : state.findBestCandidate record masked =
      pickBest (candidatesIn (state.leavesFor masked) record masked) := by
  unfold TenantState.findBestCandidate
  cases hdescend : state.tree.descend masked.tokens state.config.prefixDepth
      state.config.maxNodeChildren with
  | some node =>
    rw [Option.bind_some, Tree.bucket_of_descend hdescend]
    rfl
  | none =>
    have hnone : state.leavesFor masked = [] := Tree.leavesAt_of_descend_none hdescend
    rw [hnone]
    rfl

/-! ### Twins -/

/-- Two tenants with the same leaves at the same places and the same maps. -/
structure Twin (left right : TenantState) : Prop where
  config : left.config = right.config
  placed : ∀ entry, entry ∈ left.tree.placedLeaves ↔ entry ∈ right.tree.placedLeaves
  structured : ∀ key, left.structuredTemplates.lookup key = right.structuredTemplates.lookup key
  adopted : ∀ key, left.adoptedTemplates.lookup key = right.adoptedTemplates.lookup key

namespace Twin

theorem refl (state : TenantState) : Twin state state :=
  ⟨rfl, fun _ => Iff.rfl, fun _ => rfl, fun _ => rfl⟩

variable {left right : TenantState}

/-! ### Counters -/

section Counters

variable (h : Twin left right) (hleft : left.WellFormed) (hright : right.WellFormed)

include h hleft hright

theorem placed_perm : left.tree.placedLeaves.Perm right.tree.placedLeaves :=
  (List.perm_ext_iff_of_nodup hleft.nodup_placedLeaves hright.nodup_placedLeaves).mpr h.placed

theorem leafCount_eq : left.leafCount = right.leafCount := by
  rw [hleft.counted.leafCount, hright.counted.leafCount]
  unfold TenantState.leafIds Tree.collectLeaves
  simpa using (h.placed_perm hleft hright).length_eq

omit hleft hright in
theorem ownedIds_perm : left.ownedIds.Perm right.ownedIds :=
  (entries_perm_of_lookup_eq h.adopted).flatMap_right _

theorem ownedAdoptedCount_eq : left.ownedAdoptedCount = right.ownedAdoptedCount := by
  rw [hleft.counted.ownedCount, hright.counted.ownedCount, h.ownedIds_perm.length_eq]

theorem atCeiling_eq (maxTemplates : Nat) :
    left.atCeiling maxTemplates = right.atCeiling maxTemplates := by
  unfold TenantState.atCeiling
  rw [h.leafCount_eq hleft hright, h.ownedAdoptedCount_eq hleft hright]

theorem contains_eq (key : CanonicalKey) :
    left.minedCanonicals.contains key = right.minedCanonicals.contains key := by
  have hshape : left.shapeCount key = right.shapeCount key :=
    (((h.placed_perm hleft hright).map Prod.snd).map Leaf.key).count_eq key
  unfold MinedCanonicals.contains
  rw [hleft.canonicals key, hright.canonicals key, hshape]

end Counters

/-! ### Reads -/

section Reads

theorem placeFor_eq (h : Twin left right)
    (hleft : left.tree.Sound left.config.maxNodeChildren)
    (hright : right.tree.Sound right.config.maxNodeChildren) (masked : Masked) :
    left.placeFor masked = right.placeFor masked := by
  rw [← h.config] at hright
  unfold TenantState.placeFor
  rw [← h.config]
  exact hleft.placeOf_eq hright h.placed masked.tokens left.config.prefixDepth

variable (h : Twin left right) (hleft : left.Sturdy) (hright : right.Sturdy)

include h hleft hright

theorem mem_leavesFor_iff (masked : Masked) (leaf : Leaf) :
    leaf ∈ left.leavesFor masked ↔ leaf ∈ right.leavesFor masked := by
  have hplace := h.placeFor_eq hleft.sound hright.sound masked
  calc leaf ∈ left.leavesFor masked
      ↔ (left.placeFor masked, leaf) ∈ left.tree.placedLeaves := hleft.sound.mem_leavesAt_iff
    _ ↔ (right.placeFor masked, leaf) ∈ right.tree.placedLeaves := by rw [h.placed, hplace]
    _ ↔ leaf ∈ right.leavesFor masked := hright.sound.mem_leavesAt_iff.symm

/-- Twins pick the same leaf, wherever in the node it stands. -/
theorem findBestCandidate (record : OtlpLogRecord) (masked : Masked) :
    (left.findBestCandidate record masked = none ∧
      right.findBestCandidate record masked = none) ∨
    ∃ mine yours leaf, left.findBestCandidate record masked = some mine ∧
      right.findBestCandidate record masked = some yours ∧
      mine.similarity = yours.similarity ∧
      (left.leavesFor masked)[mine.leafIdx]? = some leaf ∧
      (right.leavesFor masked)[yours.leafIdx]? = some leaf := by
  have hleaves := h.mem_leavesFor_iff hleft hright masked
  rw [left.findBestCandidate_eq, right.findBestCandidate_eq]
  by_cases hmine : candidatesIn (left.leavesFor masked) record masked = []
  · left
    have hyours : candidatesIn (right.leavesFor masked) record masked = [] := by
      apply List.eq_nil_iff_forall_not_mem.mpr
      intro candidate hin
      obtain ⟨other, hother, -⟩ := exists_candidate_of_mem
        (fun leaf hleaf => (hleaves leaf).mpr hleaf) hin
      rw [hmine] at hother
      cases hother
    rw [hmine, hyours]
    exact ⟨rfl, rfl⟩
  · right
    obtain ⟨mine, hpick, hunbeaten⟩ := pickBest_unbeaten hmine
    have hin := MinerCluster.mem_of_pickBest hpick
    obtain ⟨like, hlike, hsame⟩ := exists_candidate_of_mem (fun leaf => (hleaves leaf).mp) hin
    obtain ⟨yours, hpick', hunbeaten'⟩ := pickBest_unbeaten (List.ne_nil_of_mem hlike)
    have hin' := MinerCluster.mem_of_pickBest hpick'
    obtain ⟨like', hlike', hsame'⟩ := exists_candidate_of_mem (fun leaf => (hleaves leaf).mpr) hin'
    -- Neither is worse than the other, so they agree in similarity and id.
    have hrank : mine.rank = yours.rank :=
      le_antisymm (hsame ▸ hunbeaten' like hlike) (hsame' ▸ hunbeaten like' hlike')
    obtain ⟨hsimilarity, hid⟩ := Prod.mk.inj (toLex.injective hrank)
    obtain ⟨leaf, hat, -, -, hleafId⟩ := mem_candidatesIn.mp hin
    obtain ⟨other, hat', -, -, hotherId⟩ := mem_candidatesIn.mp hin'
    have hcollected : ∀ {leaf : Leaf}, leaf ∈ left.leavesFor masked →
        leaf ∈ left.tree.collectLeaves := fun hleaf =>
      List.mem_map.mpr ⟨_, left.placed_of_mem_leavesFor masked hleaf, rfl⟩
    have heq : leaf = other := by
      refine hleft.wellFormed.leaf_eq (hcollected (List.mem_of_getElem? hat))
        (hcollected ((hleaves other).mpr (List.mem_of_getElem? hat'))) ?_
      rw [← hleafId, ← hotherId]
      exact hid
    exact ⟨mine, yours, leaf, hpick, hpick', hsimilarity, hat, heq ▸ hat'⟩

omit hright in
theorem findExact_eq (template : List OwnedToken) (severityNumber : Nat)
    (scopeName : Option Text) : left.tree.findExact template severityNumber scopeName =
      right.tree.findExact template severityNumber scopeName := by
  have hmem : ∀ (tree : Tree) (leaf : Leaf),
      leaf ∈ (tree.rootAt template.length).items.map Prod.snd ↔
        ∃ path, ((template.length, path), leaf) ∈ tree.placedLeaves := by
    intro tree leaf
    simp only [List.mem_map, Prod.exists, exists_eq_right, Tree.mem_placedLeaves_iff]
  apply argmin_eq_of_mem
  · intro leaf
    rw [List.mem_filter, List.mem_filter, hmem, hmem]
    simp only [h.placed]
  · intro leaf hleaf other hother hid
    obtain ⟨path, hplaced⟩ := (hmem _ _).mp (List.mem_of_mem_filter hleaf)
    obtain ⟨path', hplaced'⟩ := (hmem _ _).mp (List.mem_of_mem_filter hother)
    exact hleft.wellFormed.leaf_eq (List.mem_map.mpr ⟨_, hplaced, rfl⟩)
      (List.mem_map.mpr ⟨_, hplaced', rfl⟩) hid

end Reads

/-! ### Writes -/

variable (h : Twin left right)
include h

theorem pushLeaf (hleft : left.tree.Sound left.config.maxNodeChildren)
    (hright : right.tree.Sound right.config.maxNodeChildren) (masked : Masked) (leaf : Leaf)
    (observed : Option Text) (key : CanonicalKey) (fresh : Bool) :
    Twin (left.pushLeaf masked leaf observed key fresh)
      (right.pushLeaf masked leaf observed key fresh) where
  config := h.config
  placed := by
    intro entry
    unfold TenantState.pushLeaf
    rw [(left.placedLeaves_push masked _).mem_iff, (right.placedLeaves_push masked _).mem_iff,
      List.mem_cons, List.mem_cons, h.placed, h.placeFor_eq hleft hright, h.config]
  structured := h.structured
  adopted := h.adopted

theorem setLeaf (hleft : left.Sturdy) (hright : right.Sturdy)
    {masked : Masked} {mine yours : Nat} {old : Leaf}
    (hmine : (left.leavesFor masked)[mine]? = some old)
    (hyours : (right.leavesFor masked)[yours]? = some old) (new : Leaf) :
    Twin (left.withLeavesFor masked (·.set mine new))
      (right.withLeavesFor masked (·.set yours new)) where
  config := h.config
  placed := by
    intro entry
    rw [hleft.wellFormed.mem_placedLeaves_set hmine, hright.wellFormed.mem_placedLeaves_set hyours,
      h.placed, h.placeFor_eq hleft.sound hright.sound]
  structured := h.structured
  adopted := h.adopted

theorem insertAdopted (key : CanonicalKey) (entry : AdoptedEntry) :
    ∀ other, (left.adoptedTemplates.insert key entry).lookup other =
      (right.adoptedTemplates.insert key entry).lookup other := by
  intro other
  rw [lookup_insert_ite, lookup_insert_ite, h.adopted]

theorem adoptLeaf (record : OtlpLogRecord) (template : List OwnedToken) (leaf : Leaf) :
    Twin (left.adoptLeaf record template leaf) (right.adoptLeaf record template leaf) where
  config := h.config
  placed := by
    intro entry
    unfold TenantState.adoptLeaf
    rw [(left.tree.placedLeaves_updateLeaf _ _ _).mem_iff,
      (right.tree.placedLeaves_updateLeaf _ _ _).mem_iff, List.mem_map, List.mem_map]
    simp only [h.placed]
  structured := h.structured
  adopted := h.insertAdopted _ _

theorem internStructured (key : StructuredKey) (templateId : Nat) :
    Twin (left.internStructured key templateId) (right.internStructured key templateId) where
  config := h.config
  placed := h.placed
  structured := by
    intro other
    unfold TenantState.internStructured
    rw [lookup_insert_ite, lookup_insert_ite, h.structured]
  adopted := h.adopted

end Twin

end Ourios.Miner
