/-
# The moves of an ingest

An ingest changes one tenant by a short sequence of moves: a leaf is minted or
attached to, an upstream template is adopted, a structured key takes an id.
`TenantMove` lists every such move with the state it leaves and the template
changes it announces; `ClusterMove` places it in the cluster. Every invariant of
the miner is proved per move.
-/

import Ourios.Foundation.Machine
import Ourios.Miner.Cluster
import Ourios.Miner.PlanSpec

namespace Ourios.Miner

open Ourios.Foundation

/-- The tokens of a line that can be mined: there is one, and each is a nonempty
run without whitespace. -/
structure LineTokens (tokens : List Text) : Prop where
  nonempty : tokens ≠ []
  words : ∀ token ∈ tokens, token ≠ [] ∧ ∀ c ∈ token, isWhitespace c = false

/-- The leaf a line mints. -/
def Leaf.fresh (record : OtlpLogRecord) (masked : Masked) (templateId : Nat)
    (provenance : ProvenanceSet) (associations : UpstreamAssociations) : Leaf :=
  ⟨leafTemplate masked, templateId, 1, record.severityNumber, record.scopeName,
    masked.typedParams.map fun p => SlotTypes.singleton p.typeTag, provenance, associations⟩

/-- The index key of a shape under a record's severity and scope. -/
def canonicalKey (record : OtlpLogRecord) (template : List OwnedToken) : CanonicalKey :=
  (formatTemplate template, record.severityNumber, record.scopeName)

variable (state : TenantState)

/-- Move a leaf in the index of mined shapes when some change widened it. -/
def TenantState.moveCanonical (record : OtlpLogRecord)
    (changes : List TemplateChange) : TenantState :=
  match MinerCluster.widenedMove changes with
  | some (old, new) =>
    { state with
      minedCanonicals := state.minedCanonicals.replace
        (old, record.severityNumber, record.scopeName)
        (new, record.severityNumber, record.scopeName) }
  | none => state

/-- Hand the identity an adopted shape owns to the leaf mined for that shape. -/
def TenantState.yieldOwned (key : CanonicalKey) (owned : OwnedAdopted) : TenantState :=
  { state with
    adoptedTemplates := state.adoptedTemplates.insert key (.treeBacked owned.templateId 1)
    ownedAdoptedCount := state.ownedAdoptedCount - 1 }

/-- Write an attached leaf back and move it in the index. -/
def TenantState.attachLeaf (record : OtlpLogRecord) (tokens : List Text)
    (leafIdx : Nat) (leaf : Leaf) (changes : List TemplateChange) (observed : Option Text) :
    TenantState :=
  (state.withLeavesFor (mask tokens) (·.set leafIdx
    ((leaf.attached tokens changes.length).associateUpstream observed
      state.config.upstreamAssociationLimit))).moveCanonical record changes

/-- Associate one more upstream string with an owned shape. -/
def TenantState.observeOwned (key : CanonicalKey) (owned : OwnedAdopted)
    (upstream : Text) : TenantState :=
  { state with
    adoptedTemplates := state.adoptedTemplates.insert key
      (.owned { owned with
        associations := owned.associations.observe upstream
          state.config.upstreamAssociationLimit }) }

/-- Mark a mined leaf as adopted and resolve the shape to it from now on. -/
def TenantState.adoptLeaf (record : OtlpLogRecord)
    (template : List OwnedToken) (leaf : Leaf) : TenantState :=
  { state with
    tree := state.tree.updateLeaf template.length leaf.templateId fun leaf =>
      { leaf with provenance := insert .upstreamDerived leaf.provenance }
    adoptedTemplates := state.adoptedTemplates.insert (canonicalKey record template)
      (.treeBacked leaf.templateId leaf.templateVersion) }

/-- Give an upstream shape an identity of its own. -/
def TenantState.internOwned (record : OtlpLogRecord)
    (template : List OwnedToken) (templateId : Nat) (upstream : Text) : TenantState :=
  { state with
    adoptedTemplates := state.adoptedTemplates.insert (canonicalKey record template)
      (.owned ⟨templateId, {.upstreamDerived}, UpstreamAssociations.empty.observe upstream
        state.config.upstreamAssociationLimit⟩)
    ownedAdoptedCount := state.ownedAdoptedCount + 1
    templateCount := state.templateCount + 1 }

/-- Give a structured key its id. -/
def TenantState.internStructured (key : StructuredKey) (templateId : Nat) : TenantState :=
  { state with
    structuredTemplates := state.structuredTemplates.insert key templateId
    templateCount := state.templateCount + 1 }

/-- One move of one tenant, with the id it takes and the changes it announces. -/
inductive TenantMove (record : OtlpLogRecord) (tokens : List Text) :
    Option Nat → TenantState → List (Nat × TemplateChange) → TenantState → Prop
  | opened (state : TenantState) : TenantMove record tokens none state [] state
  | mint {state : TenantState} (templateId : Nat) (observed : Option Text)
      (htokens : LineTokens tokens)
      (hroom : state.atCeiling state.config.maxTemplates = false)
      (hfresh : ∀ owned, state.adoptedTemplates.lookup
        (canonicalKey record (leafTemplate (mask tokens))) ≠ some (.owned owned)) :
      TenantMove record tokens (some templateId) state
        [(templateId, .created (formatTemplate (leafTemplate (mask tokens))))]
        (state.pushLeaf (mask tokens)
          (Leaf.fresh record (mask tokens) templateId {.mined} .empty) observed
          (canonicalKey record (leafTemplate (mask tokens))) true)
  | converge {state : TenantState} (owned : OwnedAdopted) (observed : Option Text)
      (htokens : LineTokens tokens)
      (hroom : state.atCeiling state.config.maxTemplates = false)
      (howned : state.adoptedTemplates.lookup
        (canonicalKey record (leafTemplate (mask tokens))) = some (.owned owned)) :
      TenantMove record tokens none state
        [(owned.templateId, .created (formatTemplate (leafTemplate (mask tokens))))]
        ((state.yieldOwned (canonicalKey record (leafTemplate (mask tokens))) owned).pushLeaf
          (mask tokens)
          (Leaf.fresh record (mask tokens) owned.templateId (insert .mined owned.provenance)
            owned.associations) observed
          (canonicalKey record (leafTemplate (mask tokens))) false)
  | attach {state : TenantState} {leaf : Leaf} {leafIdx : Nat} (changes : List TemplateChange)
      (observed : Option Text) (htokens : LineTokens tokens)
      (hleaf : (state.leavesFor (mask tokens))[leafIdx]? = some leaf)
      (hseverity : leaf.severityNumber = record.severityNumber)
      (hscope : leaf.scopeName = record.scopeName)
      (hevolves : Evolves leaf.templateVersion leaf.template changes
        (leaf.attached tokens changes.length).templateVersion
        (leaf.attached tokens changes.length).template) :
      TenantMove record tokens none state (changes.map fun change => (leaf.templateId, change))
        (state.attachLeaf record tokens leafIdx leaf changes observed)
  | reject {state : TenantState} {leaf : Leaf} {leafIdx : Nat} (wouldBeTemplate : Text)
      (wouldBePositions : List Nat)
      (hleaf : (state.leavesFor (mask tokens))[leafIdx]? = some leaf) :
      TenantMove record tokens none state
        [(leaf.templateId, .rejectedDegenerate leaf.templateVersion (formatTemplate leaf.template)
          wouldBeTemplate wouldBePositions)]
        (state.withLeavesFor (mask tokens) (·.set leafIdx leaf))
  | observeOwned {state : TenantState} {key : CanonicalKey} {owned : OwnedAdopted}
      (upstream : Text) (hadopted : state.adoptedTemplates.lookup key = some (.owned owned))
      (hmode : state.config.upstreamTemplates = .adopt) :
      TenantMove record tokens none state [] (state.observeOwned key owned upstream)
  | adoptLeaf {state : TenantState} {leaf : Leaf} (template : List OwnedToken)
      (hadopted : state.adoptedTemplates.lookup (canonicalKey record template) = none)
      (hexact : state.tree.findExact template record.severityNumber record.scopeName =
        some leaf)
      (hmode : state.config.upstreamTemplates = .adopt) :
      TenantMove record tokens none state
        (if Provenance.upstreamDerived ∈ leaf.provenance then []
          else [(leaf.templateId, .adopted leaf.templateVersion (formatTemplate template))])
        (state.adoptLeaf record template leaf)
  | intern {state : TenantState} (templateId : Nat) (template : List OwnedToken) (upstream : Text)
      (hadopted : state.adoptedTemplates.lookup (canonicalKey record template) = none)
      (hroom : state.atCeiling state.config.maxTemplates = false)
      (hmode : state.config.upstreamTemplates = .adopt) :
      TenantMove record tokens (some templateId) state
        [(templateId, .adopted 1 (formatTemplate template))]
        (state.internOwned record template templateId upstream)
  | structured {state : TenantState} (templateId : Nat)
      (hnone : state.structuredTemplates.lookup
        (record.severityNumber, record.scopeName, record.eventName) = none) :
      TenantMove record tokens (some templateId) state []
        (state.internStructured (record.severityNumber, record.scopeName, record.eventName)
          templateId)

/-- What a move does to the allocator. -/
inductive Takes (before : IdRange) : Option Nat → IdRange → Prop
  | nothing : Takes before none before
  | failed {after : IdRange} (h : before.take = (none, after)) : Takes before none after
  | taken {id : Nat} {after : IdRange} (h : before.take = (some id, after)) :
      Takes before (some id) after

/-- The announced changes are the events' own, all stamped for one tenant. -/
structure Announces (tenant : TenantId) (changes : List (Nat × TemplateChange))
    (events : List AuditEvent) : Prop where
  changes_eq : events.map (fun event => (event.templateId, event.change)) = changes
  tenant_eq : ∀ event ∈ events, event.tenantId = tenant

variable {events : List AuditEvent} {record : OtlpLogRecord} {tokens : List Text}

theorem Announces.templateId_eq {tenant : TenantId} {changes : List (Nat × TemplateChange)}
    (h : Announces tenant changes events) (id : Nat)
    (hchanges : ∀ change ∈ changes, change.1 = id) :
    ∀ event ∈ events, event.templateId = id := by
  intro event hmem
  refine hchanges (event.templateId, event.change) ?_
  rw [← h.changes_eq]
  exact List.mem_map.mpr ⟨event, hmem, rfl⟩

/-- The number of merges among announced changes. -/
def countMerges (changes : List (Nat × TemplateChange)) : Nat :=
  changes.countP fun entry => entry.2.countsAsMerge

/-- A cluster after one tenant's state was stored: nothing else but the allocator
and the merge counter has moved. -/
structure Stored (before : MinerCluster) (tenant : TenantId) (fresh : Option Nat)
    (state : TenantState) (merges : Nat) (after : MinerCluster) : Prop where
  config : after.config = before.config
  tenantOverrides : after.tenantOverrides = before.tenantOverrides
  lookup : ∀ other, after.tenants.lookup other =
    if other = tenant then some state else before.tenants.lookup other
  ids : Takes before.ids fresh after.ids
  mergesTotal : after.mergesTotal = before.mergesTotal + merges

/-- One move of the cluster: bookkeeping only, or one move of the record's
tenant. -/
inductive ClusterMove (record : OtlpLogRecord) (tokens : List Text) :
    MinerCluster → List AuditEvent → MinerCluster → Prop
  | quiet {before after : MinerCluster} (hconfig : after.config = before.config)
      (hoverrides : after.tenantOverrides = before.tenantOverrides)
      (htenants : after.tenants = before.tenants)
      (hids : Takes before.ids none after.ids)
      (hmerges : after.mergesTotal = before.mergesTotal) :
      ClusterMove record tokens before [] after
  | commit {before after : MinerCluster} {fresh : Option Nat}
      {changes : List (Nat × TemplateChange)} {state : TenantState} {events : List AuditEvent}
      (hmove : TenantMove record tokens fresh (before.tenantOrNew record.tenantId) changes state)
      (hstored : Stored before record.tenantId fresh state (countMerges changes) after)
      (hevents : Announces record.tenantId changes events) :
      ClusterMove record tokens before events after

/-! ### Reading the state around a move -/

theorem TenantMove.config_eq {fresh : Option Nat} {before after : TenantState}
    {changes : List (Nat × TemplateChange)}
    (h : TenantMove record tokens fresh before changes after) : after.config = before.config := by
  cases h with
  | attach changes observed htokens hleaf hseverity hscope hevolves =>
    unfold TenantState.attachLeaf TenantState.moveCanonical
    split <;> rfl
  | _ => rfl

namespace MinerCluster

variable (cluster : MinerCluster) (tenant : TenantId)

theorem tenantOrNew_config :
    (cluster.tenantOrNew tenant).config = cluster.effectiveConfig tenant := by
  unfold tenantOrNew
  cases hlookup : cluster.tenants.lookup tenant with
  | none => rfl
  | some state => simp [effectiveConfig, hlookup]

variable {cluster tenant}

theorem tenantOrNew_of_lookup {state : TenantState}
    (h : cluster.tenants.lookup tenant = some state) : cluster.tenantOrNew tenant = state := by
  simp [tenantOrNew, h]

theorem effectiveConfig_of_lookup {state : TenantState}
    (h : cluster.tenants.lookup tenant = some state) :
    cluster.effectiveConfig tenant = state.config := by
  simp [effectiveConfig, h]

end MinerCluster

/-- A move never changes the tunables a tenant runs under. -/
theorem ClusterMove.effectiveConfig_eq {before after : MinerCluster}
    (h : ClusterMove record tokens before events after) (tenant : TenantId) :
    after.effectiveConfig tenant = before.effectiveConfig tenant := by
  cases h with
  | quiet hconfig hoverrides htenants hids hmerges =>
    simp [MinerCluster.effectiveConfig, hconfig, hoverrides, htenants]
  | commit hmove hstored hevents =>
    by_cases htenant : tenant = record.tenantId
    · subst htenant
      rw [MinerCluster.effectiveConfig_of_lookup (by rw [hstored.lookup, if_pos rfl]),
        hmove.config_eq, MinerCluster.tenantOrNew_config]
    · simp [MinerCluster.effectiveConfig, hstored.config, hstored.tenantOverrides,
        hstored.lookup, htenant]

theorem effectiveConfig_of_moves {before after : MinerCluster}
    (h : Moves (ClusterMove record tokens) before events after) (tenant : TenantId) :
    after.effectiveConfig tenant = before.effectiveConfig tenant := by
  induction h with
  | refl state => rfl
  | step first _ ih => exact ih.trans (first.effectiveConfig_eq tenant)

/-! ### Leaves of a written tree -/

namespace TenantState

variable (state : TenantState) (masked : Masked)

/-- The place a line is routed to. -/
def placeFor : Nat × List Text :=
  state.tree.placeOf masked.tokens state.config.prefixDepth state.config.maxNodeChildren

variable {leaf : Leaf}

theorem placed_of_mem_leavesFor (h : leaf ∈ state.leavesFor masked) :
    (state.placeFor masked, leaf) ∈ state.tree.placedLeaves := by
  obtain ⟨rest, hbefore, -⟩ := state.tree.placedLeaves_descendMut masked.tokens
    state.config.prefixDepth state.config.maxNodeChildren
  rw [hbefore.mem_iff]
  exact List.mem_append_left _ (List.mem_map.mpr ⟨leaf, h, rfl⟩)

/-- Pushing a leaf adds it at the line's place. -/
theorem placedLeaves_push (leaf : Leaf) :
    (state.withLeavesFor masked fun leaves => leaves ++ [leaf]).tree.placedLeaves.Perm
      ((state.placeFor masked, leaf) :: state.tree.placedLeaves) := by
  obtain ⟨rest, hbefore, hafter⟩ := state.tree.placedLeaves_descendMut masked.tokens
    state.config.prefixDepth state.config.maxNodeChildren
  refine (hafter _).trans ?_
  refine List.Perm.trans ?_ (hbefore.cons _).symm
  rw [List.map_append, List.append_assoc]
  exact List.perm_middle

/-- Rewriting one leaf of the line's place changes that leaf and no other. -/
theorem placedLeaves_set {leafIdx : Nat} {old : Leaf}
    (h : (state.leavesFor masked)[leafIdx]? = some old) :
    ∃ rest, state.tree.placedLeaves.Perm ((state.placeFor masked, old) :: rest) ∧
      ∀ new, (state.withLeavesFor masked (·.set leafIdx new)).tree.placedLeaves.Perm
        ((state.placeFor masked, new) :: rest) := by
  obtain ⟨rest, hbefore, hafter⟩ := state.tree.placedLeaves_descendMut masked.tokens
    state.config.prefixDepth state.config.maxNodeChildren
  obtain ⟨hidx, hold⟩ := List.getElem?_eq_some_iff.mp h
  let leaves := state.leavesFor masked
  let place : Leaf → (Nat × List Text) × Leaf := fun leaf => (state.placeFor masked, leaf)
  refine ⟨(leaves.take leafIdx).map place ++ (leaves.drop (leafIdx + 1)).map place ++ rest, ?_,
    fun new => ?_⟩
  · have hsplit : leaves = leaves.take leafIdx ++ old :: leaves.drop (leafIdx + 1) := by
      rw [← hold, List.getElem_cons_drop, List.take_append_drop]
    refine hbefore.trans ?_
    have hmap : leaves.map place = (leaves.take leafIdx).map place ++
        place old :: (leaves.drop (leafIdx + 1)).map place := by
      conv_lhs => rw [hsplit]
      simp
    change (leaves.map place ++ rest).Perm _
    rw [hmap, List.append_assoc, List.append_assoc, List.cons_append]
    exact List.perm_middle
  · refine (hafter _).trans ?_
    change ((leaves.set leafIdx new).map place ++ rest).Perm _
    rw [List.set_eq_take_append_cons_drop, if_pos hidx, List.map_append, List.map_cons,
      List.append_assoc, List.append_assoc, List.cons_append]
    exact List.perm_middle

/-- An exact leaf is a leaf of the tree with the shape, severity and scope asked
for. -/
theorem findExact_some {template : List OwnedToken} {severityNumber : Nat} {scopeName : Option Text}
    (h : state.tree.findExact template severityNumber scopeName = some leaf) :
    ∃ path, ((template.length, path), leaf) ∈ state.tree.placedLeaves ∧ leaf.template = template ∧
      leaf.severityNumber = severityNumber ∧ leaf.scopeName = scopeName := by
  obtain ⟨hleaf, hexact⟩ := List.mem_filter.mp (List.argmin_mem h)
  obtain ⟨⟨path, found⟩, hitem, rfl⟩ := List.mem_map.mp hleaf
  simp only [Tree.isExact, Bool.and_eq_true, beq_iff_eq] at hexact
  obtain ⟨⟨htemplate, hseverity⟩, hscope⟩ := hexact
  exact ⟨path, Tree.mem_placedLeaves_iff.mpr hitem, htemplate, hseverity, hscope⟩

end TenantState

end Ourios.Miner
