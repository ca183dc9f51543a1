/-
# What a snapshot can bring back

A tenant is recoverable when nothing its snapshot leaves out is lost: every leaf
can be found a place from its record, a tree-backed entry at a leaf's own version
spells the leaf's template, and every owned entry has someone vouching for it.
Ingests keep tenants recoverable as long as no line spells a mask tag in the
tokens it is routed by, and they keep the allocator just past the last id handed
out.
-/

import Ourios.Miner.Descent
import Ourios.Miner.Twin

namespace Ourios.Miner

open Ourios.Foundation

/-- Nothing a snapshot of the tenant leaves out is lost. -/
structure TenantState.Recoverable (state : TenantState) : Prop where
  sturdy : state.Sturdy
  retraceable : ∀ entry ∈ state.tree.placedLeaves,
    Retraceable state.config.prefixDepth entry.1 entry.2
  spelled : ∀ key templateId templateVersion,
    state.adoptedTemplates.lookup key = some (.treeBacked templateId templateVersion) →
    ∀ leaf ∈ state.tree.collectLeaves, leaf.templateId = templateId →
      leaf.templateVersion = templateVersion → formatTemplate leaf.template = key.1
  vouched : ∀ key owned, state.adoptedTemplates.lookup key = some (.owned owned) →
    owned.provenance.Nonempty

theorem TenantState.recoverable_new (config : MinerConfig) :
    (TenantState.new config).Recoverable where
  sturdy := TenantState.sturdy_new config
  retraceable := by simp [TenantState.new]
  spelled := by
    intro key templateId templateVersion hlookup
    cases hlookup
  vouched := by
    intro key owned hlookup
    cases hlookup

section Moves

variable {record : OtlpLogRecord} {tokens : List Text} {fresh : Option Nat}
  {before after : TenantState} {changes : List (Nat × TemplateChange)}

variable {key : CanonicalKey}

/-- Owned entries only come to be with a provenance, and keep it. -/
theorem TenantMove.vouched (h : TenantMove record tokens fresh before changes after)
    (hbefore : ∀ key owned, before.adoptedTemplates.lookup key = some (.owned owned) →
      owned.provenance.Nonempty) {owned : OwnedAdopted}
    (hlookup : after.adoptedTemplates.lookup key = some (.owned owned)) :
    owned.provenance.Nonempty := by
  cases h with
  | opened | mint | reject | structured => exact hbefore key owned hlookup
  | attach steps observed htokens hleaf hseverity hscope hevolves =>
    rw [TenantState.attachLeaf, TenantState.adoptedTemplates_moveCanonical] at hlookup
    exact hbefore key owned hlookup
  | converge | adoptLeaf =>
    rcases lookup_insert_cases hlookup with ⟨-, hnew⟩ | ⟨-, hold⟩
    · cases hnew
    · exact hbefore key owned hold
  | @observeOwned _ _ found upstream hadopted hmode =>
    rcases lookup_insert_cases hlookup with ⟨-, hnew⟩ | ⟨-, hold⟩
    · cases hnew
      exact hbefore _ found hadopted
    · exact hbefore key owned hold
  | intern templateId template upstream hadopted hroom hmode =>
    rcases lookup_insert_cases hlookup with ⟨-, hnew⟩ | ⟨-, hold⟩
    · cases hnew
      exact ⟨.upstreamDerived, by simp⟩
    · exact hbefore key owned hold

/-- A fresh leaf does not take the id of a leaf an entry names. -/
theorem TenantState.WellFormed.treeBacked_held {state : TenantState} (h : state.WellFormed)
    {templateId templateVersion : Nat}
    (hlookup : state.adoptedTemplates.lookup key = some (.treeBacked templateId templateVersion)) :
    templateId ∈ state.leafIds := by
  obtain ⟨leaf, hleaf, rfl, -⟩ := h.treeBacked key templateId templateVersion hlookup
  exact List.mem_map.mpr ⟨leaf, hleaf, rfl⟩

/-- An entry at its leaf's version keeps spelling the leaf's template: a template
only changes together with its version. -/
theorem TenantMove.spelled (h : TenantMove record tokens fresh before changes after)
    (hwf : before.WellFormed) (hfresh : ∀ id, fresh = some id → id ∉ before.holderIds)
    (hbefore : ∀ key templateId templateVersion,
      before.adoptedTemplates.lookup key = some (.treeBacked templateId templateVersion) →
      ∀ leaf ∈ before.tree.collectLeaves, leaf.templateId = templateId →
        leaf.templateVersion = templateVersion → formatTemplate leaf.template = key.1)
    {templateId templateVersion : Nat}
    (hlookup : after.adoptedTemplates.lookup key = some (.treeBacked templateId templateVersion))
    {leaf : Leaf} (hleaf : leaf ∈ after.tree.collectLeaves) (hid : leaf.templateId = templateId)
    (hversion : leaf.templateVersion = templateVersion) :
    formatTemplate leaf.template = key.1 := by
  cases h with
  | opened | structured => exact hbefore _ _ _ hlookup leaf hleaf hid hversion
  | mint newId observed htokens hroom hunowned =>
    rcases before.mem_collectLeaves_pushLeaf _ hleaf with rfl | hold
    · have hheld := hwf.treeBacked_held hlookup
      rw [← hid, Leaf.templateId_associateUpstream] at hheld
      exact absurd (List.mem_append_left _ hheld) (hfresh newId rfl)
    · exact hbefore _ _ _ hlookup leaf hold hid hversion
  | @converge _ owned observed htokens hroom howned =>
    have hcases := TenantState.mem_collectLeaves_pushLeaf _ _ hleaf
    rcases lookup_insert_cases hlookup with ⟨rfl, hnew⟩ | ⟨-, hlookup⟩
    · cases hnew
      rcases hcases with rfl | hold
      · rw [Leaf.template_associateUpstream]
        rfl
      · exact absurd hid (hwf.leaf_ne_owned hold howned)
    · rcases hcases with rfl | hold
      · obtain ⟨named, hnamed, hsame, -⟩ := hwf.treeBacked _ _ _ hlookup
        rw [← hid, Leaf.templateId_associateUpstream] at hsame
        exact absurd hsame (hwf.leaf_ne_owned hnamed howned)
      · exact hbefore _ _ _ hlookup leaf hold hid hversion
  | @attach _ old leafIdx steps observed htokens hat hseverity hscope hevolves =>
    obtain ⟨rest, hsplit, hset⟩ := before.collectLeaves_set (mask tokens) hat
    rw [TenantState.attachLeaf, TenantState.adoptedTemplates_moveCanonical] at hlookup
    rw [TenantState.attachLeaf, TenantState.tree_moveCanonical, (hset _).mem_iff,
      List.mem_cons] at hleaf
    rcases hleaf with rfl | hold
    · -- A changed leaf is past every version an entry can name.
      have hin : old ∈ before.tree.collectLeaves := hsplit.mem_iff.mpr List.mem_cons_self
      rw [Leaf.templateId_associateUpstream] at hid
      rw [Leaf.templateVersion_associateUpstream] at hversion
      rw [Leaf.template_associateUpstream]
      obtain ⟨named, hnamed, hsame, -, -, hle⟩ := hwf.treeBacked _ _ _ hlookup
      obtain rfl : named = old := hwf.leaf_eq hnamed hin (hsame.trans hid.symm)
      have hgrown : named.templateVersion + steps.length = templateVersion := hversion
      have hnone : steps = [] := List.eq_nil_of_length_eq_zero (by omega)
      subst hnone
      rw [hevolves.template_eq_of_nil]
      exact hbefore _ _ _ hlookup named hin hid hgrown
    · exact hbefore _ _ _ hlookup leaf (hsplit.mem_iff.mpr (List.mem_cons_of_mem _ hold)) hid
        hversion
  | reject wouldBeTemplate wouldBePositions hat =>
    obtain ⟨rest, hsplit, hset⟩ := before.collectLeaves_set (mask tokens) hat
    exact hbefore _ _ _ hlookup leaf (hsplit.mem_iff.mpr ((hset _).mem_iff.mp hleaf)) hid hversion
  | observeOwned | intern =>
    rcases lookup_insert_cases hlookup with ⟨-, hnew⟩ | ⟨-, hold⟩
    · cases hnew
    · exact hbefore _ _ _ hold leaf hleaf hid hversion
  | @adoptLeaf _ found template hadopted hexact hmode =>
    obtain ⟨source, hsource, hid', hversion', htemplate⟩ :=
      before.mem_collectLeaves_adoptLeaf hleaf
    rw [← htemplate]
    rcases lookup_insert_cases hlookup with ⟨rfl, hnew⟩ | ⟨-, hold⟩
    · cases hnew
      obtain ⟨path, hplaced, hshape, -⟩ := before.findExact_some hexact
      obtain rfl : source = found :=
        hwf.leaf_eq hsource (List.mem_map.mpr ⟨_, hplaced, rfl⟩) (hid'.trans hid)
      rw [hshape]
      rfl
    · exact hbefore _ _ _ hold source hsource (hid'.trans hid) (hversion'.trans hversion)

/-- A move of a line that spells no tag keeps the tenant recoverable. -/
theorem TenantMove.recoverable (h : TenantMove record tokens fresh before changes after)
    (hfresh : ∀ id, fresh = some id → id ∉ before.holderIds)
    (htags : TagFree before.config.prefixDepth tokens) (hbefore : before.Recoverable) :
    after.Recoverable where
  sturdy := ⟨h.wellFormed hfresh hbefore.sturdy.wellFormed, h.sound hbefore.sturdy.sound⟩
  retraceable := h.retraceable htags hbefore.retraceable
  spelled := fun _ _ _ hlookup _ hleaf hid hversion =>
    h.spelled hbefore.sturdy.wellFormed hfresh hbefore.spelled hlookup hleaf hid hversion
  vouched := fun _ _ hlookup => h.vouched hbefore.vouched hlookup

end Moves

/-! ### The allocator -/

/-- A default allocator within the id domain. -/
structure IdRange.Seated (ids : IdRange) : Prop where
  reserve : ids.reserve = unreserved
  stop : ids.stop = maxTemplateId + 1
  next_le : ids.next ≤ maxTemplateId + 1

theorem IdRange.seated_new : IdRange.new.Seated := ⟨rfl, rfl, by decide⟩

/-- A seated allocator has its next id ready, or none at all. -/
theorem IdRange.Seated.ensure {ids : IdRange} (h : ids.Seated) :
    (ids.next < ids.stop ∧ ids.ensure = (true, ids)) ∨
      ids.ensure.1 = false ∧ ids.ensure.2.next = ids.next ∧ ids.ensure.2.Seated := by
  by_cases hready : ids.next < ids.stop
  · left
    exact ⟨hready, by rw [IdRange.ensure, if_pos hready]⟩
  · right
    have hnext : ids.next = maxTemplateId + 1 := by
      have := h.next_le
      rw [h.stop] at hready
      omega
    have hnone : ids.reserve ids.asked (ids.next - 1) = none := by
      rw [h.reserve, IdRange.unreserved, IdBlock.new, dif_neg]
      omega
    rw [IdRange.ensure, if_neg hready]
    dsimp only
    rw [hnone]
    exact ⟨rfl, rfl, h.reserve, h.stop, h.next_le⟩

/-- What a move takes is the next id, and the allocator stands right past it. -/
theorem Takes.seated {before after : IdRange} {fresh : Option Nat} (h : Takes before fresh after)
    (hseated : before.Seated) : after.Seated ∧ (fresh = none → after.next = before.next) ∧
      ∀ id, fresh = some id → after.next = id + 1 := by
  have htake : ∀ {result : Option Nat} {next : IdRange}, before.take = (result, next) →
      next.Seated ∧ (result = none → next.next = before.next) := by
    intro result next htake
    unfold IdRange.take at htake
    rcases hseated.ensure with ⟨hready, hensure⟩ | ⟨hfailed, hnext, hkept⟩
    · rw [hensure] at htake
      cases htake
      refine ⟨⟨hseated.reserve, hseated.stop, ?_⟩, fun hnone => (nomatch hnone)⟩
      rw [hseated.stop] at hready
      exact hready
    · cases hensure : before.ensure with
      | mk ok ready =>
        rw [hensure] at htake hfailed hnext hkept
        subst hfailed
        cases htake
        exact ⟨hkept, fun _ => hnext⟩
  cases h with
  | nothing => exact ⟨hseated, fun _ => rfl, fun id hsome => (nomatch hsome)⟩
  | failed hfailed =>
    obtain ⟨hafter, hsame⟩ := htake hfailed
    exact ⟨hafter, fun _ => hsame rfl, fun id hsome => (nomatch hsome)⟩
  | taken htaken =>
    refine ⟨(htake htaken).1, fun hnone => (nomatch hnone), ?_⟩
    intro id hsome
    cases hsome
    exact (IdRange.take_some htaken).2

/-! ### Clusters -/

/-- Every tenant is recoverable, and the allocator stands right past the last id
held. -/
structure MinerCluster.Recoverable (cluster : MinerCluster) : Prop where
  wellFormed : cluster.WellFormed
  tenant : ∀ tenant state, cluster.tenants.lookup tenant = some state → state.Recoverable
  seated : cluster.ids.Seated
  last_held : cluster.ids.next = 1 ∨ ∃ id ∈ cluster.holderIds, cluster.ids.next = id + 1

theorem MinerCluster.recoverable_new (config : MinerConfig)
    (tenantOverrides : AList fun _ : TenantId => MinerConfig) :
    (MinerCluster.new config tenantOverrides IdRange.new).Recoverable where
  wellFormed := wellFormed_new config tenantOverrides IdRange.new
  tenant := by
    intro tenant state hlookup
    cases hlookup
  seated := IdRange.seated_new
  last_held := .inl rfl

theorem MinerCluster.Recoverable.tenantOrNew {cluster : MinerCluster} (h : cluster.Recoverable)
    (tenant : TenantId) : (cluster.tenantOrNew tenant).Recoverable := by
  unfold MinerCluster.tenantOrNew
  cases hlookup : cluster.tenants.lookup tenant with
  | none => exact TenantState.recoverable_new _
  | some state => exact h.tenant tenant state hlookup

theorem ClusterMove.recoverable {record : OtlpLogRecord} {tokens : List Text}
    {before after : MinerCluster} {events : List AuditEvent}
    (h : ClusterMove record tokens before events after)
    (htags : TagFree (before.effectiveConfig record.tenantId).prefixDepth tokens)
    (hbefore : before.Recoverable) : after.Recoverable := by
  have hwf := h.wellFormed hbefore.wellFormed
  cases h with
  | quiet hconfig hoverrides htenants hids hmerges =>
    obtain ⟨hseated, hnext, -⟩ := hids.seated hbefore.seated
    refine ⟨hwf, ?_, hseated, ?_⟩
    · rw [htenants]
      exact hbefore.tenant
    · rw [hnext rfl, MinerCluster.holderIds, htenants]
      exact hbefore.last_held
  | @commit _ fresh changes state _ hmove hstored hevents =>
    obtain ⟨hseated, hkept, htaken⟩ := hstored.ids.seated hbefore.seated
    obtain ⟨rest, hheld, hheld'⟩ := MinerCluster.holderIds_of_stored hstored
    refine ⟨hwf, ?_, hseated, ?_⟩
    · intro tenant held hlookup
      rw [hstored.lookup] at hlookup
      split at hlookup
      · cases hlookup
        refine hmove.recoverable (ClusterMove.fresh_not_held hbefore.wellFormed hstored) ?_
          (hbefore.tenantOrNew record.tenantId)
        rw [MinerCluster.tenantOrNew_config]
        exact htags
      · exact hbefore.tenant tenant held hlookup
    · cases fresh with
      | some id =>
        refine .inr ⟨id, ?_, htaken id rfl⟩
        exact hheld'.mem_iff.mpr (List.mem_append_left _ hmove.fresh_held)
      | none =>
        rw [hkept rfl]
        rcases hbefore.last_held with hfirst | ⟨id, hid, hnext⟩
        · exact .inl hfirst
        · refine .inr ⟨id, hheld'.mem_iff.mpr ?_, hnext⟩
          rcases List.mem_append.mp (hheld.mem_iff.mp hid) with hmine | hother
          · exact List.mem_append_left _ (hmove.held_of_held id hmine)
          · exact List.mem_append_right _ hother

namespace MinerCluster

variable {env : Environment}

theorem recoverable_ingest {cluster : MinerCluster} (h : cluster.Recoverable)
    {record : OtlpLogRecord}
    (htags : TagFree (cluster.effectiveConfig record.tenantId).prefixDepth (lineTokens record)) :
    (cluster.ingest env record).cluster.Recoverable := by
  obtain ⟨events, row, -, hmoves, -⟩ := cluster.ingest_spec env h.wellFormed record
  have hend := hmoves.preserves (fun state => state.Recoverable ∧
    state.effectiveConfig record.tenantId = cluster.effectiveConfig record.tenantId) ?_ ⟨h, rfl⟩
  · exact hend.1
  · rintro before out after hmove ⟨hbefore, hconfig⟩
    refine ⟨hmove.recoverable (hconfig ▸ htags) hbefore, ?_⟩
    rw [hmove.effectiveConfig_eq, hconfig]

/-- Every state of a run whose lines spell no tag is recoverable. -/
theorem recoverable_after {cluster : MinerCluster} (h : cluster.Recoverable)
    {records : List OtlpLogRecord}
    (htags : ∀ record ∈ records,
      TagFree (cluster.effectiveConfig record.tenantId).prefixDepth (lineTokens record)) :
    (cluster.after env records).Recoverable := by
  induction records generalizing cluster with
  | nil => exact h
  | cons record records ih =>
    refine ih (recoverable_ingest h (htags record List.mem_cons_self)) ?_
    intro later hlater
    change TagFree ((cluster.after env [record]).effectiveConfig later.tenantId).prefixDepth _
    rw [effectiveConfig_after h.wellFormed]
    exact htags later (List.mem_cons_of_mem _ hlater)

end MinerCluster

end Ourios.Miner
