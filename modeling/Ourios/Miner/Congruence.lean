/-
# Ingesting on twin clusters

Two clusters whose tenants are twins and whose allocators hand out the same ids
ingest every record alike: the same row, the same template id, the same audit
events up to the clock, and twins again. The counters a cluster keeps for
telemetry may differ.
-/

import Ourios.Miner.Run
import Ourios.Miner.Twin

namespace Ourios.Miner

open Ourios.Foundation

/-- Two results of the same value and related states. -/
theorem exists_of_same_fst {α β : Type} {R : β → β → Prop} {left right : α × β}
    (h : left.1 = right.1 ∧ R left.2 right.2) :
    ∃ value mine yours, left = (value, mine) ∧ right = (value, yours) ∧ R mine yours :=
  ⟨left.1, left.2, right.2, rfl, Prod.ext h.1.symm rfl, h.2⟩

/-! ### Allocators -/

/-- Default allocators that hand out the same ids. They may have been asked for
more at different times. -/
structure IdRange.Alike (left right : IdRange) : Prop where
  next : left.next = right.next
  stop : left.stop = right.stop
  reserve : left.reserve = unreserved ∧ right.reserve = unreserved

theorem IdRange.Alike.ensure {left right : IdRange} (h : left.Alike right) :
    left.ensure.1 = right.ensure.1 ∧ left.ensure.2.Alike right.ensure.2 := by
  obtain ⟨next, stop, asked, reserve, hpos⟩ := left
  obtain ⟨next', stop', asked', reserve', hpos'⟩ := right
  obtain ⟨rfl, rfl, rfl, rfl⟩ := h
  unfold IdRange.ensure
  dsimp only [IdRange.unreserved]
  split
  · exact ⟨rfl, rfl, rfl, rfl, rfl⟩
  · split
    · exact ⟨rfl, rfl, rfl, rfl, rfl⟩
    · split
      · exact ⟨rfl, rfl, rfl, rfl, rfl⟩
      · split <;> exact ⟨rfl, rfl, rfl, rfl, rfl⟩

theorem IdRange.Alike.take {left right : IdRange} (h : left.Alike right) :
    left.take.1 = right.take.1 ∧ left.take.2.Alike right.take.2 := by
  obtain ⟨ok, ready, ready', hleft, hright, hready⟩ := exists_of_same_fst h.ensure
  unfold IdRange.take
  rw [hleft, hright]
  cases ok with
  | true =>
    refine ⟨congrArg some hready.next, ?_, hready.stop, hready.reserve⟩
    exact congrArg (· + 1) hready.next
  | false => exact ⟨rfl, hready⟩

/-! ### Clusters -/

/-- A well-formed cluster whose trees ingests could have built. -/
structure MinerCluster.Sturdy (cluster : MinerCluster) : Prop where
  wellFormed : cluster.WellFormed
  sound : ∀ tenant state, cluster.tenants.lookup tenant = some state →
    state.tree.Sound state.config.maxNodeChildren

variable {cluster after : MinerCluster}

theorem MinerCluster.Sturdy.tenant (h : cluster.Sturdy) {tenant : TenantId} {state : TenantState}
    (hlookup : cluster.tenants.lookup tenant = some state) :
    state.Sturdy :=
  ⟨h.wellFormed.tenant tenant state hlookup, h.sound tenant state hlookup⟩

theorem MinerCluster.Sturdy.tenantOrNew (h : cluster.Sturdy) (tenant : TenantId) :
    (cluster.tenantOrNew tenant).Sturdy := by
  unfold MinerCluster.tenantOrNew
  cases hlookup : cluster.tenants.lookup tenant with
  | none => exact TenantState.sturdy_new _
  | some state => exact h.tenant hlookup

theorem ClusterMove.sturdy {record : OtlpLogRecord} {tokens : List Text} {before : MinerCluster}
    {events : List AuditEvent} (h : ClusterMove record tokens before events after)
    (hbefore : before.Sturdy) :
    after.Sturdy := by
  refine ⟨h.wellFormed hbefore.wellFormed, ?_⟩
  intro tenant state hlookup
  cases h with
  | quiet hconfig hoverrides htenants hids hmerges =>
    rw [htenants] at hlookup
    exact hbefore.sound tenant state hlookup
  | commit hmove hstored hevents =>
    rw [hstored.lookup] at hlookup
    split at hlookup
    · cases hlookup
      exact hmove.sound (hbefore.tenantOrNew record.tenantId).sound
    · exact hbefore.sound tenant state hlookup

theorem sturdy_of_moves {record : OtlpLogRecord} {tokens : List Text} {before : MinerCluster}
    {events : List AuditEvent} (h : Moves (ClusterMove record tokens) before events after)
    (hbefore : before.Sturdy) :
    after.Sturdy :=
  h.preserves MinerCluster.Sturdy (fun hmove => hmove.sturdy) hbefore

/-- An adoption that does not take the line leaves the cluster sturdy. -/
theorem MinerCluster.Sturdy.of_tryAdopt_none {env : Environment} (h : cluster.Sturdy)
    {line : StringLine} {upstream : Text} {masked : Masked} {config : MinerConfig}
    (hconfig : cluster.effectiveConfig line.record.tenantId = config)
    (hmode : config.upstreamTemplates = .adopt)
    (htry : cluster.tryAdopt env line upstream masked config = (none, after)) : after.Sturdy := by
  have hmoves : Moves (ClusterMove line.record []) cluster [] after := by
    rcases cluster.tryAdopt_spec env line hconfig hmode htry with
      ⟨-, hmoves⟩ | ⟨templateId, emitted, parsed, hsome, -⟩
    · exact hmoves
    · cases hsome
  exact sturdy_of_moves hmoves h

/-- Two clusters with twin tenants and alike allocators. -/
structure ClusterTwin (left right : MinerCluster) : Prop where
  config : left.config = right.config
  tenantOverrides : left.tenantOverrides = right.tenantOverrides
  tenants : ∀ tenant, Option.Rel Twin (left.tenants.lookup tenant) (right.tenants.lookup tenant)
  ids : left.ids.Alike right.ids

namespace ClusterTwin

variable {left right : MinerCluster}

variable (h : ClusterTwin left right)
include h

theorem lookup_cases (tenant : TenantId) :
    (left.tenants.lookup tenant = none ∧ right.tenants.lookup tenant = none) ∨
      ∃ mine yours, left.tenants.lookup tenant = some mine ∧
        right.tenants.lookup tenant = some yours ∧ Twin mine yours := by
  have hrel := h.tenants tenant
  generalize left.tenants.lookup tenant = mine at hrel ⊢
  generalize right.tenants.lookup tenant = yours at hrel ⊢
  cases hrel with
  | none => exact .inl ⟨rfl, rfl⟩
  | some htwin => exact .inr ⟨_, _, rfl, rfl, htwin⟩

theorem effectiveConfig_eq (tenant : TenantId) :
    left.effectiveConfig tenant = right.effectiveConfig tenant := by
  unfold MinerCluster.effectiveConfig
  rcases h.lookup_cases tenant with ⟨hmine, hyours⟩ | ⟨mine, yours, hmine, hyours, htwin⟩
  · rw [hmine, hyours, h.config, h.tenantOverrides]
  · rw [hmine, hyours]
    exact htwin.config

theorem tenantOrNew (tenant : TenantId) :
    Twin (left.tenantOrNew tenant) (right.tenantOrNew tenant) := by
  unfold MinerCluster.tenantOrNew
  rcases h.lookup_cases tenant with ⟨hmine, hyours⟩ | ⟨mine, yours, hmine, hyours, htwin⟩
  · rw [hmine, hyours, h.effectiveConfig_eq]
    exact Twin.refl _
  · rw [hmine, hyours]
    exact htwin

theorem setTenant (tenant : TenantId) {mine yours : TenantState} (htwin : Twin mine yours) :
    ClusterTwin (left.setTenant tenant mine) (right.setTenant tenant yours) where
  config := h.config
  tenantOverrides := h.tenantOverrides
  tenants := by
    intro other
    unfold MinerCluster.setTenant
    rw [lookup_insert_ite, lookup_insert_ite]
    split
    · exact .some htwin
    · exact h.tenants other
  ids := h.ids

theorem withIds {mine yours : IdRange} (hids : mine.Alike yours) :
    ClusterTwin { left with ids := mine } { right with ids := yours } :=
  ⟨h.config, h.tenantOverrides, h.tenants, hids⟩

/-- Counters tell nothing. -/
theorem of_quiet {left' right' : MinerCluster} (hleft : Quiet left left')
    (hright : Quiet right right') : ClusterTwin left' right' where
  config := by rw [hleft.config, hright.config, h.config]
  tenantOverrides := by rw [hleft.tenantOverrides, hright.tenantOverrides, h.tenantOverrides]
  tenants := by
    rw [hleft.tenants, hright.tenants]
    exact h.tenants
  ids := by
    rw [hleft.ids, hright.ids]
    exact h.ids

end ClusterTwin

/-! ### Outcomes -/

/-- An emission without the time it was stamped with. -/
def Emission.untimed : Emission → Emission
  | .audit event => .audit { event with timestamp := 0 }
  | .record row => .record row

/-- The same id, the same emissions up to the clock, and twins. -/
structure SameOutcome (left right : Outcome) : Prop where
  cluster : ClusterTwin left.cluster right.cluster
  emitted : left.emitted.map Emission.untimed = right.emitted.map Emission.untimed
  templateId : left.templateId = right.templateId

/-- Emitting the same first adds nothing that differs. -/
theorem SameOutcome.prepend {left right : Outcome} (h : SameOutcome left right)
    {first first' : List Emission}
    (hfirst : first.map Emission.untimed = first'.map Emission.untimed) :
    SameOutcome { left with emitted := first ++ left.emitted }
      { right with emitted := first' ++ right.emitted } := by
  refine ⟨h.cluster, ?_, h.templateId⟩
  rw [List.map_append, List.map_append, hfirst, h.emitted]

theorem SameOutcome.prependOne {left right : Outcome} (h : SameOutcome left right)
    {event event' : Emission} (hevent : event.untimed = event'.untimed) :
    SameOutcome { left with emitted := event :: left.emitted }
      { right with emitted := event' :: right.emitted } := by
  refine ⟨h.cluster, ?_, h.templateId⟩
  rw [List.map_cons, List.map_cons, hevent, h.emitted]

/-- The same of a branch that may not take the line. -/
inductive SameAttempt :
    Option (Nat × List Emission) × MinerCluster → Option (Nat × List Emission) × MinerCluster → Prop
  | none {left right : MinerCluster} (h : ClusterTwin left right) :
      SameAttempt (none, left) (none, right)
  | some {left right : MinerCluster} {emitted emitted' : List Emission} (templateId : Nat)
      (hemitted : emitted.map Emission.untimed = emitted'.map Emission.untimed)
      (h : ClusterTwin left right) :
      SameAttempt (some (templateId, emitted), left) (some (templateId, emitted'), right)

namespace ClusterTwin

variable {left right : MinerCluster} (h : ClusterTwin left right) (env : Environment)
  (line : StringLine)

include h

theorem emitTemplateChange (templateId : Nat) (change : TemplateChange) :
    (left.emitTemplateChange env line templateId change).1.untimed =
        (right.emitTemplateChange env line templateId change).1.untimed ∧
      ClusterTwin (left.emitTemplateChange env line templateId change).2
        (right.emitTemplateChange env line templateId change).2 :=
  ⟨rfl, h.config, h.tenantOverrides, h.tenants, h.ids⟩

theorem applyOverflowRetention (row : MinedRecord) (templateId : Nat) :
    SameOutcome
      ⟨(left.applyOverflowRetention line row).2,
        [.record (left.applyOverflowRetention line row).1], templateId⟩
      ⟨(right.applyOverflowRetention line row).2,
        [.record (right.applyOverflowRetention line row).1], templateId⟩ := by
  unfold MinerCluster.applyOverflowRetention
  dsimp only
  split
  · exact ⟨⟨h.config, h.tenantOverrides, h.tenants, h.ids⟩, rfl, rfl⟩
  · exact ⟨h, rfl, rfl⟩

theorem emitBoundRecord (separators : List Text) (params : List Param)
    (templateId templateVersion : Nat) :
    SameOutcome (left.emitBoundRecord line separators params templateId templateVersion)
      (right.emitBoundRecord line separators params templateId templateVersion) :=
  h.applyOverflowRetention line _ templateId

theorem emitStringParseFailure (parts : LineParts) :
    SameOutcome (left.emitStringParseFailure line parts)
      (right.emitStringParseFailure line parts) := by
  have hrow := h.applyOverflowRetention line { recordEnvelope line.record .string with
    separators := parts.separators
    params := parts.params
    body := some line.raw
    lossyFlag := true } noTemplate
  refine ⟨hrow.cluster.of_quiet ?_ ?_, hrow.emitted, rfl⟩
  · exact MinerCluster.quiet_recordParseFailure _
  · exact MinerCluster.quiet_recordParseFailure _

theorem emitFreshLeafRecord (parts : LineParts) (newId : Nat) (zone : FreshLeafZone) :
    SameOutcome (left.emitFreshLeafRecord line parts newId zone)
      (right.emitFreshLeafRecord line parts newId zone) := by
  cases zone with
  | clean => exact h.applyOverflowRetention line _ newId
  | lossy confidence =>
    have hcounted : ClusterTwin
        { left with bodyRetentionsTotal := left.bodyRetentionsTotal + 1 }
        { right with bodyRetentionsTotal := right.bodyRetentionsTotal + 1 } :=
      ⟨h.config, h.tenantOverrides, h.tenants, h.ids⟩
    exact hcounted.applyOverflowRetention line _ newId

/-! ### Minting -/

variable (hleft : left.Sturdy) (hright : right.Sturdy)

include hleft hright

omit hleft hright in
/-- Storing twins with the same new leaf and announcing it. -/
theorem announceLeaf {mine yours : TenantState} (htwin : Twin mine yours)
    (hmine : mine.tree.Sound mine.config.maxNodeChildren)
    (hyours : yours.tree.Sound yours.config.maxNodeChildren) (masked : Masked) (leaf : Leaf)
    (observed : Option Text) (key : CanonicalKey) (fresh : Bool) (change : TemplateChange) :
    SameAttempt
      (some (leaf.templateId, [((left.setTenant line.record.tenantId
          (mine.pushLeaf masked leaf observed key fresh)).emitTemplateChange env line
            leaf.templateId change).1]),
        ((left.setTenant line.record.tenantId
          (mine.pushLeaf masked leaf observed key fresh)).emitTemplateChange env line
            leaf.templateId change).2)
      (some (leaf.templateId, [((right.setTenant line.record.tenantId
          (yours.pushLeaf masked leaf observed key fresh)).emitTemplateChange env line
            leaf.templateId change).1]),
        ((right.setTenant line.record.tenantId
          (yours.pushLeaf masked leaf observed key fresh)).emitTemplateChange env line
            leaf.templateId change).2) := by
  have hpushed := htwin.pushLeaf hmine hyours masked leaf observed key fresh
  obtain ⟨hevent, hcluster⟩ := (h.setTenant line.record.tenantId hpushed).emitTemplateChange env
    line leaf.templateId change
  refine .some leaf.templateId ?_ hcluster
  rw [List.map_singleton, List.map_singleton, hevent]

/-- Twins hand over the same owned shape, or neither owns it. -/
theorem takeConvergedAdoption (tenant : TenantId) (key : CanonicalKey) :
    (left.tenants.lookup tenant).bind (·.takeConvergedAdoption key) = none ∧
      (right.tenants.lookup tenant).bind (·.takeConvergedAdoption key) = none ∨
    ∃ owned mine yours,
      (left.tenants.lookup tenant).bind (·.takeConvergedAdoption key) = some (owned, mine) ∧
      (right.tenants.lookup tenant).bind (·.takeConvergedAdoption key) = some (owned, yours) ∧
      Twin mine yours ∧ mine.tree.Sound mine.config.maxNodeChildren ∧
      yours.tree.Sound yours.config.maxNodeChildren := by
  rcases h.lookup_cases tenant with ⟨hmine, hyours⟩ | ⟨mine, yours, hmine, hyours, htwin⟩
  · left
    rw [hmine, hyours]
    exact ⟨rfl, rfl⟩
  · rw [hmine, hyours]
    simp only [Option.bind_some, TenantState.takeConvergedAdoption, ← htwin.adopted]
    split
    · rename_i owned howned
      right
      refine ⟨owned, _, _, rfl, rfl, ?_, (hleft.tenant hmine).sound, (hright.tenant hyours).sound⟩
      exact ⟨htwin.config, htwin.placed, htwin.structured, htwin.insertAdopted _ _⟩
    · exact .inl ⟨rfl, rfl⟩

theorem createNewLeaf (masked : Masked) (observed : Option Text) :
    SameAttempt (left.createNewLeaf env line masked observed)
      (right.createNewLeaf env line masked observed) := by
  have hconverged := h.takeConvergedAdoption hleft hright line.record.tenantId
    (canonicalKey line.record (leafTemplate masked))
  unfold canonicalKey at hconverged
  unfold MinerCluster.createNewLeaf
  dsimp only
  rcases hconverged with ⟨hmine, hyours⟩ |
    ⟨owned, mine, yours, hmine, hyours, htwin, hsound, hsound'⟩
  · rw [hmine, hyours]
    obtain ⟨newId, ids, ids', hfirst, hsecond, hids⟩ := exists_of_same_fst h.ids.take
    rw [hfirst, hsecond]
    cases newId with
    | none => exact .none (h.withIds hids)
    | some newId =>
      have hsame := (h.withIds hids).announceLeaf env line
        ((h.withIds hids).tenantOrNew line.record.tenantId)
        (hleft.tenantOrNew line.record.tenantId).sound
        (hright.tenantOrNew line.record.tenantId).sound masked
        (Leaf.fresh line.record masked newId {.mined} .empty) observed
        (canonicalKey line.record (leafTemplate masked)) true
        (.created (formatTemplate (leafTemplate masked)))
      exact hsame
  · rw [hmine, hyours]
    have hsame := h.announceLeaf env line htwin hsound hsound' masked
      (Leaf.fresh line.record masked owned.templateId (insert .mined owned.provenance)
        owned.associations) observed (canonicalKey line.record (leafTemplate masked)) false
      (.created (formatTemplate (leafTemplate masked)))
    exact hsame

theorem mintFreshLeaf (masked : Masked) (parts : LineParts) (observed : Option Text)
    (zone : FreshLeafZone) (maxTemplates : Nat) :
    SameOutcome (left.mintFreshLeaf env line masked parts observed zone maxTemplates)
      (right.mintFreshLeaf env line masked parts observed zone maxTemplates) := by
  have hceiling : ((left.tenants.lookup line.record.tenantId).map
      (·.atCeiling maxTemplates)).getD false =
        ((right.tenants.lookup line.record.tenantId).map (·.atCeiling maxTemplates)).getD false
          := by
    rcases h.lookup_cases line.record.tenantId with
      ⟨hmine, hyours⟩ | ⟨mine, yours, hmine, hyours, htwin⟩
    · rw [hmine, hyours]
    · rw [hmine, hyours]
      exact htwin.atCeiling_eq (hleft.tenant hmine).wellFormed (hright.tenant hyours).wellFormed _
  unfold MinerCluster.mintFreshLeaf
  rw [hceiling]
  split
  · exact h.emitStringParseFailure line parts
  · have hleaf := h.createNewLeaf env line hleft hright masked observed
    generalize left.createNewLeaf env line masked observed = mine at hleaf ⊢
    generalize right.createNewLeaf env line masked observed = yours at hleaf ⊢
    cases hleaf with
    | none htwin => exact htwin.emitStringParseFailure line parts
    | some newId hemitted htwin =>
      exact (htwin.emitFreshLeafRecord line parts newId zone).prepend hemitted

/-! ### Attaching -/

omit hleft hright in
theorem emitChanges (templateId : Nat) (changes : List TemplateChange) :
    (MinerCluster.emitChanges env line templateId left changes).1.map Emission.untimed =
        (MinerCluster.emitChanges env line templateId right changes).1.map Emission.untimed ∧
      ClusterTwin (MinerCluster.emitChanges env line templateId left changes).2
        (MinerCluster.emitChanges env line templateId right changes).2 := by
  induction changes generalizing left right with
  | nil => exact ⟨rfl, h⟩
  | cons change changes ih =>
    obtain ⟨hevent, hstamped⟩ := h.emitTemplateChange env line templateId change
    unfold MinerCluster.emitChanges
    dsimp only
    split
    · have hcounted : ClusterTwin
          { (left.emitTemplateChange env line templateId change).2 with
            mergesTotal :=
              (left.emitTemplateChange env line templateId change).2.mergesTotal + 1 }
          { (right.emitTemplateChange env line templateId change).2 with
            mergesTotal :=
              (right.emitTemplateChange env line templateId change).2.mergesTotal + 1 } :=
        ⟨hstamped.config, hstamped.tenantOverrides, hstamped.tenants, hstamped.ids⟩
      obtain ⟨hevents, hcluster⟩ := ih hcounted
      refine ⟨?_, hcluster⟩
      rw [List.map_cons, List.map_cons, hevent, hevents]
    · obtain ⟨hevents, hcluster⟩ := ih hstamped
      refine ⟨?_, hcluster⟩
      rw [List.map_cons, List.map_cons, hevent, hevents]

variable (record : OtlpLogRecord)

omit hleft hright in
theorem moveMinedCanonical (changes : List TemplateChange) :
    ClusterTwin (left.moveMinedCanonical record changes)
      (right.moveMinedCanonical record changes) := by
  unfold MinerCluster.moveMinedCanonical
  rcases h.lookup_cases record.tenantId with
    ⟨hmine, hyours⟩ | ⟨mine, yours, hmine, hyours, htwin⟩
  · rw [hmine, hyours]
    cases MinerCluster.widenedMove changes <;> exact h
  · rw [hmine, hyours]
    cases MinerCluster.widenedMove changes with
    | none => exact h
    | some moved =>
      refine h.setTenant record.tenantId ?_
      exact ⟨htwin.config, htwin.placed, htwin.structured, htwin.adopted⟩

/-- Attaching to the same leaf, wherever in the node it stands on either side. -/
theorem attachAndMaybeWiden {masked : Masked} {mine yours : Candidate} {state state' : TenantState}
    {leaf : Leaf} (hstate : left.tenants.lookup line.record.tenantId = some state)
    (hstate' : right.tenants.lookup line.record.tenantId = some state')
    (htwin : Twin state state')
    (hmine : (state.leavesFor masked)[mine.leafIdx]? = some leaf)
    (hyours : (state'.leavesFor masked)[yours.leafIdx]? = some leaf) (byteLimit : Nat)
    (observed : Option Text) (parts : LineParts) :
    SameOutcome (left.attachAndMaybeWiden env line masked mine byteLimit observed parts)
      (right.attachAndMaybeWiden env line masked yours byteLimit observed parts) := by
  have hset : ∀ new, ClusterTwin
      (left.setTenant line.record.tenantId
        (state.withLeavesFor masked (·.set mine.leafIdx new)))
      (right.setTenant line.record.tenantId
        (state'.withLeavesFor masked (·.set yours.leafIdx new))) := fun new =>
    h.setTenant line.record.tenantId
      (htwin.setLeaf (hleft.tenant hstate) (hright.tenant hstate') hmine hyours new)
  unfold MinerCluster.attachAndMaybeWiden
  dsimp only
  rw [hstate, hstate']
  dsimp only
  rw [hmine, hyours]
  dsimp only
  rw [← htwin.config]
  cases hplan : (planAttach env leaf masked byteLimit).1 with
  | cleanReuse templateId templateVersion params =>
    exact (hset _).emitBoundRecord line parts.separators params templateId templateVersion
  | rejected templateId version currentTemplate wouldBeTemplate wouldBePositions =>
    obtain ⟨hevent, hcluster⟩ := (hset _).emitTemplateChange env line templateId
      (.rejectedDegenerate version currentTemplate wouldBeTemplate wouldBePositions)
    exact (hcluster.emitStringParseFailure line parts).prependOne hevent
  | mutated templateId events finalVersion params =>
    obtain ⟨hevents, hcluster⟩ := ((hset _).moveMinedCanonical line.record events).emitChanges env
      line templateId events
    exact (hcluster.emitBoundRecord line parts.separators params templateId finalVersion).prepend
      hevents

/-! ### Adopting -/

theorem resolveAdoption (upstream : Text) (template : List OwnedToken)
    {config : MinerConfig} (hconfig : left.effectiveConfig record.tenantId = config) :
    (left.resolveAdoption record upstream template (canonicalKey record template) config).1 =
        (right.resolveAdoption record upstream template (canonicalKey record template) config).1 ∧
      ClusterTwin
        (left.resolveAdoption record upstream template (canonicalKey record template) config).2
        (right.resolveAdoption record upstream template (canonicalKey record template) config).2
          := by
  have hheld : (left.tenants.lookup record.tenantId).getD (TenantState.new config) =
      left.tenantOrNew record.tenantId := by
    rw [MinerCluster.tenantOrNew, hconfig]
  have hheld' : (right.tenants.lookup record.tenantId).getD (TenantState.new config) =
      right.tenantOrNew record.tenantId := by
    rw [MinerCluster.tenantOrNew, ← h.effectiveConfig_eq, hconfig]
  have htwin := h.tenantOrNew record.tenantId
  have hmine := hleft.tenantOrNew record.tenantId
  have hyours := hright.tenantOrNew record.tenantId
  unfold MinerCluster.resolveAdoption
  dsimp only
  rw [hheld, hheld', ← htwin.adopted, ← htwin.contains_eq hmine.wellFormed hyours.wellFormed,
    ← htwin.findExact_eq hmine, ← htwin.atCeiling_eq hmine.wellFormed hyours.wellFormed]
  generalize left.tenantOrNew record.tenantId = mine at htwin hmine ⊢
  generalize right.tenantOrNew record.tenantId = yours at htwin hyours ⊢
  have hopened := h.setTenant record.tenantId htwin
  split
  · exact ⟨rfl, hopened⟩
  · refine ⟨rfl, hopened.setTenant record.tenantId ?_⟩
    exact ⟨htwin.config, htwin.placed, htwin.structured, htwin.insertAdopted _ _⟩
  · split
    · rename_i leaf hleaf
      exact ⟨rfl, hopened.setTenant record.tenantId (htwin.adoptLeaf record template leaf)⟩
    · split
      · exact ⟨rfl, hopened⟩
      · obtain ⟨newId, ids, ids', hfirst, hsecond, hids⟩ := exists_of_same_fst hopened.ids.take
        rw [hfirst, hsecond]
        cases newId with
        | none => exact ⟨rfl, hopened.withIds hids⟩
        | some newId =>
          refine ⟨rfl, (hopened.withIds hids).setTenant record.tenantId ?_⟩
          exact ⟨htwin.config, htwin.placed, htwin.structured, htwin.insertAdopted _ _⟩

omit hleft hright in
/-- Announcing an adoption and emitting the row it binds. -/
theorem announceAdoption (change : TemplateChange) (separators : List Text) (params : List Param)
    (templateId templateVersion : Nat) :
    SameAttempt
      (some (templateId, [(left.emitTemplateChange env line templateId change).1] ++
          ((left.emitTemplateChange env line templateId change).2.emitBoundRecord line separators
            params templateId templateVersion).emitted),
        ((left.emitTemplateChange env line templateId change).2.emitBoundRecord line separators
          params templateId templateVersion).cluster)
      (some (templateId, [(right.emitTemplateChange env line templateId change).1] ++
          ((right.emitTemplateChange env line templateId change).2.emitBoundRecord line separators
            params templateId templateVersion).emitted),
        ((right.emitTemplateChange env line templateId change).2.emitBoundRecord line separators
          params templateId templateVersion).cluster) := by
  obtain ⟨hevent, hcluster⟩ := h.emitTemplateChange env line templateId change
  have hrow := hcluster.emitBoundRecord line separators params templateId templateVersion
  exact .some templateId (hrow.prependOne hevent).emitted hrow.cluster

theorem tryAdopt (upstream : Text) (masked : Masked) {config : MinerConfig}
    (hconfig : left.effectiveConfig line.record.tenantId = config) :
    SameAttempt (left.tryAdopt env line upstream masked config)
      (right.tryAdopt env line upstream masked config) := by
  unfold MinerCluster.tryAdopt
  split
  · exact .none h
  · split
    · exact .none h
    · rename_i parsed hparsed
      split
      · exact .none h
      · rename_i alignment halign
        dsimp only
        obtain ⟨resolution, stored, stored', hfirst, hsecond, hcluster⟩ := exists_of_same_fst
          (h.resolveAdoption hleft hright line.record upstream parsed.toOwnedTokens hconfig)
        unfold canonicalKey at hfirst hsecond
        rw [hfirst, hsecond]
        cases resolution with
        | existing templateId templateVersion =>
          have hrow := hcluster.emitBoundRecord line
            (adoptedRowParts env parsed alignment masked config.paramByteLimit).2
            (adoptedRowParts env parsed alignment masked config.paramByteLimit).1 templateId
            templateVersion
          exact .some templateId hrow.emitted hrow.cluster
        | firstOnLeaf templateId templateVersion =>
          exact hcluster.announceAdoption env line _ _ _ templateId templateVersion
        | interned templateId => exact hcluster.announceAdoption env line _ _ _ templateId 1
        | ceiling | noId => exact .none hcluster

/-! ### A whole ingest -/

theorem mineLine (masked : Masked) (parts : LineParts) (config : MinerConfig) :
    SameOutcome (left.mineLine env line masked parts config)
      (right.mineLine env line masked parts config) := by
  have hmint := h.mintFreshLeaf env line hleft hright masked parts
    (MinerCluster.observedUpstream config line.record)
  unfold MinerCluster.mineLine
  rcases h.lookup_cases line.record.tenantId with
    ⟨hmine, hyours⟩ | ⟨state, state', hmine, hyours, htwin⟩
  · rw [hmine, hyours]
    exact hmint _ _
  · rw [hmine, hyours, Option.bind_some, Option.bind_some]
    rcases htwin.findBestCandidate (hleft.tenant hmine) (hright.tenant hyours) line.record masked
        with
      ⟨hnone, hnone'⟩ | ⟨mine, yours, leaf, hbest, hbest', hsimilarity, hat, hat'⟩
    · rw [hnone, hnone']
      exact hmint _ _
    · rw [hbest, hbest']
      dsimp only
      rw [← hsimilarity]
      split
      · exact h.attachAndMaybeWiden env line hleft hright hmine hyours htwin hat hat' _ _ _
      · exact hmint _ _
      · exact hmint _ _

theorem ingestTokenized (tokenized : Tokenized) :
    SameOutcome (left.ingestTokenized env line tokenized)
      (right.ingestTokenized env line tokenized) := by
  unfold MinerCluster.ingestTokenized
  dsimp only
  rw [← h.effectiveConfig_eq]
  split
  · exact ⟨h.of_quiet left.quiet_recordParseFailure right.quiet_recordParseFailure, rfl, rfl⟩
  · split
    · exact h.emitStringParseFailure line _
    · split
      · exact h.mineLine env line hleft hright _ _ _
      · rename_i upstream hoffered
        have hmode : (left.effectiveConfig line.record.tenantId).upstreamTemplates = .adopt := by
          by_contra hother
          rw [if_neg hother] at hoffered
          cases hoffered
        have hattempt := h.tryAdopt env line hleft hright upstream (mask tokenized.tokens) rfl
        cases hfirst : left.tryAdopt env line upstream (mask tokenized.tokens)
            (left.effectiveConfig line.record.tenantId) with
        | mk result after =>
        cases hsecond : right.tryAdopt env line upstream (mask tokenized.tokens)
            (left.effectiveConfig line.record.tenantId) with
        | mk result' after' =>
        rw [hfirst, hsecond] at hattempt
        cases hattempt with
        | some templateId hemitted htwin => exact ⟨htwin, hemitted, rfl⟩
        | none htwin =>
          have hafter := hleft.of_tryAdopt_none rfl hmode hfirst
          have hafter' := hright.of_tryAdopt_none (h.effectiveConfig_eq _).symm hmode hsecond
          exact htwin.mineLine env line hafter hafter' _ _ _

omit hleft hright in
theorem structuredTemplateId :
    (left.structuredTemplateId record).1 = (right.structuredTemplateId record).1 ∧
      ClusterTwin (left.structuredTemplateId record).2 (right.structuredTemplateId record).2 := by
  have hknown : (left.tenants.lookup record.tenantId).bind (·.structuredTemplates.lookup
        (record.severityNumber, record.scopeName, record.eventName)) =
      (right.tenants.lookup record.tenantId).bind (·.structuredTemplates.lookup
        (record.severityNumber, record.scopeName, record.eventName)) := by
    rcases h.lookup_cases record.tenantId with
      ⟨hmine, hyours⟩ | ⟨mine, yours, hmine, hyours, htwin⟩
    · rw [hmine, hyours]
    · rw [hmine, hyours]
      exact htwin.structured _
  unfold MinerCluster.structuredTemplateId
  dsimp only
  rw [hknown]
  cases (right.tenants.lookup record.tenantId).bind (·.structuredTemplates.lookup
      (record.severityNumber, record.scopeName, record.eventName)) with
  | some existingId => exact ⟨rfl, h⟩
  | none =>
    obtain ⟨newId, ids, ids', hfirst, hsecond, hids⟩ := exists_of_same_fst h.ids.take
    rw [hfirst, hsecond]
    cases newId with
    | none => exact ⟨rfl, h.withIds hids⟩
    | some newId =>
      refine ⟨rfl, (h.withIds hids).setTenant record.tenantId ?_⟩
      exact (h.tenantOrNew record.tenantId).internStructured _ newId

omit hleft hright in
theorem ingestStructured (value : AnyValue) : SameOutcome (left.ingestStructured env record value)
      (right.ingestStructured env record value) := by
  obtain ⟨templateId, after, after', hfirst, hsecond, hassigned⟩ :=
    exists_of_same_fst (h.structuredTemplateId record)
  unfold MinerCluster.ingestStructured
  rw [hfirst, hsecond]
  dsimp only
  refine ⟨?_, rfl, rfl⟩
  split
  · exact hassigned.of_quiet after.quiet_recordParseFailure after'.quiet_recordParseFailure
  · exact hassigned

/-- Twin clusters ingest every record alike. -/
theorem ingest : SameOutcome (left.ingest env record) (right.ingest env record) := by
  unfold MinerCluster.ingest
  split
  · exact ⟨h, rfl, rfl⟩
  · unfold MinerCluster.ingestString
    split
    · exact ⟨⟨h.config, h.tenantOverrides, h.tenants, h.ids⟩, rfl, rfl⟩
    · exact h.ingestTokenized env _ hleft hright _
  · exact h.ingestStructured env record _

end ClusterTwin

end Ourios.Miner
