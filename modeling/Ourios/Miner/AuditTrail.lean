/-
# The audit trail of a leaf

Every leaf can be followed through the events of its tenant: it is created once,
at version 1, and every later event starts from the version and the text the
event before it left. Rejected widenings stand in between without moving
anything. This holds of every run in which no tenant adopts upstream templates;
an adopted template is announced before a leaf carries its id.
-/

import Ourios.Miner.Run

namespace Ourios.Miner

open Ourios.Foundation

/-- The history of one leaf from one version and shape to another, with every
event of the leaf on the way. -/
inductive VersionChain :
    Nat → List OwnedToken → List TemplateChange → Nat → List OwnedToken → Prop
  | refl (version : Nat) (template : List OwnedToken) :
      VersionChain version template [] version template
  | widened {version final : Nat} {template next result : List OwnedToken}
      {changes : List TemplateChange} (positions : List Nat)
      (hlength : next.length = template.length)
      (hwidened : ∀ p ∈ positions, (∃ text, template[p]? = some (.fixed text)) ∧
        next[p]? = some .wildcard)
      (hkept : ∀ p, p ∉ positions → next[p]? = template[p]?)
      (later : VersionChain (version + 1) next changes final result) :
      VersionChain version template
        (.widened version (version + 1) (formatTemplate template) (formatTemplate next) positions ::
          changes) final result
  | typeExpanded {version final : Nat} {template result : List OwnedToken}
      {changes : List TemplateChange} (expansions : List SlotExpansion)
      (later : VersionChain (version + 1) template changes final result) :
      VersionChain version template
        (.typeExpanded version (version + 1) (formatTemplate template) (formatTemplate template)
          expansions :: changes) final result
  | rejected {version final : Nat} {template result : List OwnedToken}
      {changes : List TemplateChange} (wouldBeTemplate : Text) (wouldBePositions : List Nat)
      (later : VersionChain version template changes final result) :
      VersionChain version template
        (.rejectedDegenerate version (formatTemplate template) wouldBeTemplate wouldBePositions ::
          changes) final result

/-- The version a change announces; a rejection announces none. -/
def announcedVersion : TemplateChange → Option Nat
  | .created _ => some templateInitialVersion
  | .widened _ newVersion .. => some newVersion
  | .typeExpanded _ newVersion .. => some newVersion
  | .adopted templateVersion _ => some templateVersion
  | .rejectedDegenerate .. => none

def templateWords (text : Text) : List Text := text.splitOn ' '

/-- The changes a list of events tells about one template, in order. -/
def changesOf (id : Nat) (events : List AuditEvent) : List TemplateChange :=
  (events.filter (·.templateId == id)).map AuditEvent.change

@[simp] theorem changesOf_append (id : Nat) (first second : List AuditEvent) :
    changesOf id (first ++ second) = changesOf id first ++ changesOf id second := by
  simp [changesOf]

theorem changesOf_eq_nil {id : Nat} {events : List AuditEvent}
    (h : ∀ event ∈ events, event.templateId ≠ id) : changesOf id events = [] := by
  have hnone : events.filter (·.templateId == id) = [] :=
    List.filter_eq_nil_iff.mpr fun event hevent => by simpa using h event hevent
  rw [changesOf, hnone, List.map_nil]

/-- The events of an announcement tell the announced changes. -/
theorem Announces.changesOf_eq {tenant : TenantId} {changes : List (Nat × TemplateChange)}
    {events : List AuditEvent} (h : Announces tenant changes events) (id : Nat) :
    changesOf id events = (changes.filter (·.1 == id)).map Prod.snd := by
  rw [← h.changes_eq, List.filter_map, List.map_map]
  rfl

namespace VersionChain

variable {version middle final : Nat} {template between result : List OwnedToken}
  {changes later : List TemplateChange}

theorem trans (h : VersionChain version template changes middle between)
    (h' : VersionChain middle between later final result) :
    VersionChain version template (changes ++ later) final result := by
  induction h with
  | refl version template => exact h'
  | widened positions hlength hwidened hkept _ ih =>
    exact .widened positions hlength hwidened hkept (ih h')
  | typeExpanded expansions _ ih => exact .typeExpanded expansions (ih h')
  | rejected wouldBeTemplate wouldBePositions _ ih =>
    exact .rejected wouldBeTemplate wouldBePositions (ih h')

/-- The history an attach announces is one of the leaf. -/
theorem of_evolves (h : Evolves version template changes final result) :
    VersionChain version template changes final result := by
  induction h with
  | refl version template => exact .refl version template
  | widened positions hfixed _ ih =>
    refine .widened positions (length_applyWidening _ _) ?_ ?_ ih
    · intro p hp
      obtain ⟨text, htext⟩ := hfixed p hp
      refine ⟨⟨text, htext⟩, ?_⟩
      rw [getElem?_applyWidening, if_pos ⟨hp, (List.getElem?_eq_some_iff.mp htext).1⟩]
    · intro p hp
      rw [getElem?_applyWidening, if_neg fun hboth => hp hboth.1]
  | typeExpanded expansions _ ih => exact .typeExpanded expansions ih

/-- The version a history ends at was announced on the way, unless nothing moved. -/
theorem announced (h : VersionChain version template changes final result) :
    final = version ∨ ∃ change ∈ changes, announcedVersion change = some final := by
  induction h with
  | refl version template => exact .inl rfl
  | widened positions hlength hwidened hkept _ ih | typeExpanded expansions _ ih =>
    right
    rcases ih with rfl | ⟨change, hmem, hannounced⟩
    · exact ⟨_, List.mem_cons_self, rfl⟩
    · exact ⟨change, List.mem_cons_of_mem _ hmem, hannounced⟩
  | rejected wouldBeTemplate wouldBePositions _ ih =>
    rcases ih with rfl | ⟨change, hmem, hannounced⟩
    · exact .inl rfl
    · exact .inr ⟨change, List.mem_cons_of_mem _ hmem, hannounced⟩

end VersionChain

/-- A template with tokens, none of which holds a space. -/
def Worded (template : List OwnedToken) : Prop :=
  template ≠ [] ∧ ∀ token ∈ template, ' ' ∉ token.text

theorem worded_leafTemplate {tokens : List Text} (h : LineTokens tokens) :
    Worded (leafTemplate (mask tokens)) := by
  rw [leafTemplate_mask]
  refine ⟨by simpa using h.nonempty, ?_⟩
  intro slot hslot
  obtain ⟨token, htoken, rfl⟩ := List.mem_map.mp hslot
  unfold freshSlot
  split
  · decide
  · intro hspace
    have hword := (h.words token htoken).2 ' ' hspace
    rw [isWhitespace_space] at hword
    cases hword

/-- Opening slots keeps the words of the other tokens. -/
theorem Worded.widened {template next : List OwnedToken} {positions : List Nat}
    (h : Worded template) (hlength : next.length = template.length)
    (hwidened : ∀ p ∈ positions, next[p]? = some .wildcard)
    (hkept : ∀ p, p ∉ positions → next[p]? = template[p]?) : Worded next := by
  refine ⟨fun hnil => h.1 ?_, ?_⟩
  · rw [hnil] at hlength
    exact List.eq_nil_of_length_eq_zero hlength.symm
  · intro token htoken
    obtain ⟨p, hp⟩ := List.mem_iff_getElem?.mp htoken
    by_cases hmem : p ∈ positions
    · rw [hwidened p hmem] at hp
      cases hp
      decide
    · rw [hkept p hmem] at hp
      exact h.2 token (List.mem_of_getElem? hp)

/-- A widening rewrites the announced positions of the text to `<*>` and keeps
every other word. -/
theorem VersionChain.words_widened {version final : Nat} {template result : List OwnedToken}
    {changes : List TemplateChange} (h : VersionChain version template changes final result)
    (hworded : Worded template) {oldVersion newVersion : Nat} {oldTemplate newTemplate : Text}
    {positions : List Nat}
    (hmem : TemplateChange.widened oldVersion newVersion oldTemplate newTemplate positions ∈
      changes) (p : Nat) :
    (templateWords newTemplate)[p]? =
      if p ∈ positions then some wildcardText else (templateWords oldTemplate)[p]? := by
  induction h with
  | refl => cases hmem
  | widened positions' hlength hwidened hkept _ ih =>
    have hnext := hworded.widened hlength (fun p hp => (hwidened p hp).2) hkept
    rcases List.mem_cons.mp hmem with heq | hlater
    · cases heq
      unfold templateWords
      rw [splitOn_formatTemplate hnext.1 hnext.2, splitOn_formatTemplate hworded.1 hworded.2,
        List.getElem?_map, List.getElem?_map]
      split
      · rename_i hp
        rw [(hwidened p hp).2]
        rfl
      · rename_i hp
        rw [hkept p hp]
    · exact ih hnext hlater
  | typeExpanded expansions _ ih | rejected wouldBeTemplate wouldBePositions _ ih =>
    rcases List.mem_cons.mp hmem with heq | hlater
    · cases heq
    · exact ih hworded hlater

/-! ### Every move extends the trail -/

/-- What the events of a tenant tell about its leaves, where nothing is adopted. -/
structure Trailed (state : TenantState) (events : List AuditEvent) : Prop where
  adopted : state.adoptedTemplates = ∅
  held : ∀ event ∈ events, event.templateId ∈ state.holderIds
  leaf : ∀ leaf ∈ state.tree.collectLeaves, ∃ first changes, Worded first ∧
    changesOf leaf.templateId events = .created (formatTemplate first) :: changes ∧
    VersionChain templateInitialVersion first changes leaf.templateVersion leaf.template

section Move

variable {record : OtlpLogRecord} {tokens : List Text} {fresh : Option Nat}
  {before after : TenantState} {changes : List (Nat × TemplateChange)}
  {events new : List AuditEvent} {tenant : TenantId}

theorem Trailed.changesOf_fresh (h : Trailed before events) {id : Nat}
    (hid : id ∉ before.holderIds) : changesOf id events = [] :=
  changesOf_eq_nil fun event hevent heq => hid (heq ▸ h.held event hevent)

variable {leaf : Leaf}

/-- A leaf that new events move along a history keeps its trail. -/
theorem Trailed.leaf_extend (h : Trailed before events) (hleaf : leaf ∈ before.tree.collectLeaves)
    {steps : List TemplateChange} {version : Nat} {template : List OwnedToken}
    (hchain : VersionChain leaf.templateVersion leaf.template steps version template)
    (hnew : changesOf leaf.templateId new = steps) :
    ∃ first changes, Worded first ∧
      changesOf leaf.templateId (events ++ new) = .created (formatTemplate first) :: changes ∧
      VersionChain templateInitialVersion first changes version template := by
  obtain ⟨first, changes, hworded, hchanges, hbefore⟩ := h.leaf leaf hleaf
  refine ⟨first, changes ++ steps, hworded, ?_, hbefore.trans hchain⟩
  rw [changesOf_append, hchanges, hnew, List.cons_append]

/-- A leaf that no new event is about keeps its trail. -/
theorem Trailed.leaf_of_ne (h : Trailed before events) {id : Nat}
    (hnew : ∀ event ∈ new, event.templateId = id) (hleaf : leaf ∈ before.tree.collectLeaves)
    (hne : leaf.templateId ≠ id) :
    ∃ first changes, Worded first ∧
      changesOf leaf.templateId (events ++ new) = .created (formatTemplate first) :: changes ∧
      VersionChain templateInitialVersion first changes leaf.templateVersion leaf.template := by
  refine h.leaf_extend hleaf (.refl _ _) (changesOf_eq_nil fun event hevent => ?_)
  rw [hnew event hevent]
  exact hne.symm

theorem held_of_append (hbefore : ∀ event ∈ events, event.templateId ∈ before.holderIds)
    (hids : ∀ held ∈ before.holderIds, held ∈ after.holderIds)
    (hnew : ∀ event ∈ new, event.templateId ∈ after.holderIds) :
    ∀ event ∈ events ++ new, event.templateId ∈ after.holderIds := by
  intro event hevent
  rcases List.mem_append.mp hevent with hold | hlater
  · exact hids _ (hbefore event hold)
  · exact hnew event hlater

/-- One leaf moves along the history its new events tell, the others stay. -/
theorem Trailed.rewrite (h : Trailed before events) (hwf : before.WellFormed) {kept : Leaf}
    {rest : List Leaf} (hsplit : before.tree.collectLeaves.Perm (leaf :: rest))
    (hset : after.tree.collectLeaves.Perm (kept :: rest))
    (hadopted : after.adoptedTemplates = before.adoptedTemplates)
    (hids : ∀ held ∈ before.holderIds, held ∈ after.holderIds)
    (hid : kept.templateId = leaf.templateId)
    (hnew : ∀ event ∈ new, event.templateId = leaf.templateId)
    (hchain : VersionChain leaf.templateVersion leaf.template (changesOf leaf.templateId new)
      kept.templateVersion kept.template) : Trailed after (events ++ new) := by
  have hleaf : leaf ∈ before.tree.collectLeaves := hsplit.mem_iff.mpr List.mem_cons_self
  refine ⟨hadopted.trans h.adopted, held_of_append h.held hids ?_, ?_⟩
  · intro event hevent
    rw [hnew event hevent]
    exact hids _ (TenantState.WellFormed.leaf_held hleaf)
  · intro other hother
    rcases List.mem_cons.mp (hset.mem_iff.mp hother) with rfl | hrest
    · rw [hid]
      exact h.leaf_extend hleaf hchain rfl
    · exact h.leaf_of_ne hnew (hsplit.mem_iff.mpr (List.mem_cons_of_mem _ hrest))
        (hwf.ne_of_split hsplit hrest)

/-- Every move of a tenant that does not adopt extends the trail of its leaves. -/
theorem Trailed.move (h : Trailed before events) (hwf : before.WellFormed)
    (hmode : before.config.upstreamTemplates ≠ .adopt)
    (hmove : TenantMove record tokens fresh before changes after)
    (hfresh : ∀ id, fresh = some id → id ∉ before.holderIds)
    (hnew : Announces tenant changes new) : Trailed after (events ++ new) := by
  have hids := hmove.held_of_held
  have hheld : ∀ id, fresh = some id → id ∈ after.holderIds := by
    rintro id rfl
    exact hmove.fresh_held
  have hquiet : changes = [] → new = [] := by
    rintro rfl
    exact List.map_eq_nil_iff.mp hnew.changes_eq
  cases hmove with
  | opened => simpa [hquiet rfl] using h
  | mint templateId observed htokens hroom hadopted =>
    have hunheld := hfresh templateId rfl
    have hnewIds := hnew.templateId_eq templateId (by simp)
    refine ⟨h.adopted, held_of_append h.held hids ?_, ?_⟩
    · intro event hevent
      rw [hnewIds event hevent]
      exact hheld templateId rfl
    · intro leaf hleaf
      rcases before.mem_collectLeaves_pushLeaf _ hleaf with rfl | hold
      · refine ⟨leafTemplate (mask tokens), [], worded_leafTemplate htokens, ?_, ?_⟩
        · rw [Leaf.templateId_associateUpstream, changesOf_append, Leaf.fresh,
            h.changesOf_fresh hunheld, hnew.changesOf_eq]
          simp
        · rw [Leaf.templateVersion_associateUpstream, Leaf.template_associateUpstream]
          exact .refl _ _
      · refine h.leaf_of_ne hnewIds hold fun heq => hunheld ?_
        rw [← heq]
        exact TenantState.WellFormed.leaf_held hold
  | converge owned observed htokens hroom howned =>
    rw [h.adopted] at howned
    cases howned
  | @attach _ leaf leafIdx steps observed htokens hleaf hseverity hscope hevolves =>
    obtain ⟨rest, hsplit, hset⟩ := before.collectLeaves_set (mask tokens) hleaf
    have hafter :
        (before.attachLeaf record tokens leafIdx leaf steps observed).tree.collectLeaves.Perm
        ((leaf.attached tokens steps.length).associateUpstream observed
          before.config.upstreamAssociationLimit :: rest) := by
      rw [TenantState.attachLeaf, TenantState.tree_moveCanonical]
      exact hset _
    have hsteps : changesOf leaf.templateId new = steps := by
      rw [hnew.changesOf_eq, List.filter_map, List.map_map]
      simp [Function.comp_def]
    apply h.rewrite hwf hsplit hafter (TenantState.adoptedTemplates_moveCanonical _ _ _) hids
      (Leaf.templateId_associateUpstream (leaf.attached tokens steps.length) _ _)
      (hnew.templateId_eq leaf.templateId (by simp))
    rw [hsteps, Leaf.templateVersion_associateUpstream, Leaf.template_associateUpstream]
    exact .of_evolves hevolves
  | @reject _ leaf leafIdx wouldBeTemplate wouldBePositions hleaf =>
    obtain ⟨rest, hsplit, hset⟩ := before.collectLeaves_set (mask tokens) hleaf
    apply h.rewrite hwf hsplit (hset leaf) rfl hids rfl
      (hnew.templateId_eq leaf.templateId (by simp))
    rw [hnew.changesOf_eq]
    simpa using VersionChain.rejected wouldBeTemplate wouldBePositions (.refl _ _)
  | observeOwned upstream hadopted hadopts | adoptLeaf template hadopted hexact hadopts
  | intern templateId template upstream hadopted hroom hadopts => exact absurd hadopts hmode
  | structured templateId hnone =>
    rw [hquiet rfl, List.append_nil]
    exact ⟨h.adopted, fun event hevent => hids _ (h.held event hevent), h.leaf⟩

end Move

/-! ### Whole runs -/

theorem trailed_new (config : MinerConfig) : Trailed (TenantState.new config) [] := by
  refine ⟨rfl, ?_, ?_⟩
  · intro event hevent
    cases hevent
  · intro leaf hleaf
    cases hleaf

namespace MinerCluster

/-- No tenant adopts upstream templates. -/
def NeverAdopts (cluster : MinerCluster) : Prop :=
  ∀ tenant, (cluster.effectiveConfig tenant).upstreamTemplates ≠ .adopt

variable {env : Environment} {config : MinerConfig}
  {tenantOverrides : AList fun _ : TenantId => MinerConfig} {ids : IdRange}

theorem trailed_after (env : Environment) (hmode : (new config tenantOverrides ids).NeverAdopts)
    (records : List OtlpLogRecord) (tenant : TenantId) :
    Trailed (((new config tenantOverrides ids).after env records).tenantOrNew tenant)
      (tenantEvents tenant (auditEvents ((new config tenantOverrides ids).emissions env records)))
      := by
  refine forall_tenant_after
    (fun state events => state.config.upstreamTemplates ≠ .adopt → Trailed state events)
    (fun _ => True) (fun config _ => trailed_new config) ?_ config tenantOverrides ids
    (fun _ _ => trivial) tenant ?_
  · intro record fresh before changes after earlier new _ hmove hwf hfresh hnew hbefore hstays
    rw [hmove.config_eq] at hstays
    exact (hbefore hstays).move hwf hstays hmove hfresh hnew
  · rw [tenantOrNew_config, effectiveConfig_after (wellFormed_new config tenantOverrides ids)]
    exact hmode tenant

theorem mergesTotal_of_move {record : OtlpLogRecord}
    {tokens : List Text} {before after : MinerCluster} {events : List AuditEvent}
    (h : ClusterMove record tokens before events after) :
    after.mergesTotal = before.mergesTotal + events.countP (·.change.countsAsMerge) := by
  cases h with
  | quiet hconfig hoverrides htenants hids hmerges => simpa using hmerges
  | commit hmove hstored hevents =>
    rw [hstored.mergesTotal, countMerges, ← hevents.changes_eq, List.countP_map]
    rfl

/-- The merge counter counts the merges announced. -/
theorem mergesTotal_after (records : List OtlpLogRecord) :
    ((new config tenantOverrides ids).after env records).mergesTotal =
      (auditEvents ((new config tenantOverrides ids).emissions env records)).countP
        (·.change.countsAsMerge) := by
  have hrun := (machine env).run_invariant (fun cluster emitted => cluster.WellFormed ∧
    cluster.mergesTotal = (auditEvents emitted).countP (·.change.countsAsMerge)) ?_
    (⟨wellFormed_new config tenantOverrides ids, rfl⟩ :
      (new config tenantOverrides ids).WellFormed ∧
        (new config tenantOverrides ids).mergesTotal = (auditEvents []).countP _)
    ((machine env).meets_of_forall _ records fun _ _ _ => trivial)
  · simpa [after, emissions] using hrun.2
  · rintro cluster emitted record ⟨hwf, hmerges⟩ _
    obtain ⟨events, row, hemitted, hmoves, -⟩ := cluster.ingest_spec env hwf record
    refine ⟨wellFormed_ingest hwf record, ?_⟩
    change (cluster.ingest env record).cluster.mergesTotal =
      (auditEvents (emitted ++ (cluster.ingest env record).emitted)).countP _
    rw [hemitted, auditEvents_append, auditEvents_ingested, List.countP_append, ← hmerges]
    have hcount := hmoves.invariant (fun state out => state.mergesTotal =
      cluster.mergesTotal + out.countP (·.change.countsAsMerge)) ?_
      (by simp : cluster.mergesTotal = cluster.mergesTotal + ([] : List AuditEvent).countP _)
    · simpa using hcount
    · intro state earlier out next hmove hbefore
      rw [mergesTotal_of_move hmove, hbefore, List.countP_append, Nat.add_assoc]

/-- Without adoption no row is bound to an upstream template. -/
theorem adoptedTemplate_eq_none {cluster : MinerCluster} (hmode : cluster.NeverAdopts)
    (record : OtlpLogRecord) : cluster.adoptedTemplate env record = none := by
  unfold adoptedTemplate
  split
  · split
    · simp [adoptedFor, hmode record.tenantId]
    · rfl
  · rfl

/-- A row that names a leaf of its tenant carries a version announced before it. -/
theorem row_announced (hmode : (new config tenantOverrides ids).NeverAdopts)
    {records : List OtlpLogRecord} {state : TenantState} {leaf : Leaf} {row : MinedRecord}
    (hstate : ((new config tenantOverrides ids).after env records).tenants.lookup row.tenantId =
      some state)
    (hleaf : leaf ∈ state.tree.collectLeaves) {before later : List Emission}
    (hsplit : (new config tenantOverrides ids).emissions env records =
      before ++ .record row :: later)
    (hid : row.templateId = leaf.templateId) :
    ∃ event ∈ auditEvents before, event.tenantId = row.tenantId ∧
      event.templateId = leaf.templateId ∧
      announcedVersion event.change = some row.templateVersion := by
  have hstart := wellFormed_new config tenantOverrides ids
  have hfinal : ((new config tenantOverrides ids).after env records).WellFormed :=
    wellFormed_after hstart records
  have hpositive : row.templateId ≠ noTemplate := by
    intro hzero
    have hheld := mem_holderIds_of_lookup hstate (TenantState.WellFormed.leaf_held hleaf)
    have := (hfinal.ids_lt _ hheld).1
    rw [← hid, hzero] at this
    exact absurd this (by decide)
  obtain ⟨earlier, record, rest, rfl, hbefore, hrow⟩ := emissions_split hstart hsplit
  have hwf : ((new config tenantOverrides ids).after env earlier).WellFormed :=
    wellFormed_after hstart earlier
  have hreached : (new config tenantOverrides ids).after env (earlier ++ [record]) =
      (((new config tenantOverrides ids).after env earlier).ingest env record).cluster := by
    rw [after_append]
    rfl
  obtain ⟨events, last, hemitted, -, henvelope, hlast⟩ := ingest_spec env _ hwf record
  obtain rfl : row = last := by
    rw [hemitted] at hrow
    simpa using hrow
  have htenant : row.tenantId = record.tenantId := congrArg Envelope.tenantId henvelope
  have hevents : auditEvents before = auditEvents
      ((new config tenantOverrides ids).emissions env (earlier ++ [record])) := by
    rw [← hbefore, auditEvents_append]
    simp [auditEvents]
  rw [hevents]
  cases hlast with
  | absent hkind hnone => exact absurd hnone hpositive
  | structured hkind hstructured =>
    rcases hstructured with hnone | ⟨held, hlookup, hmem⟩
    · exact absurd hnone hpositive
    · -- A structured id is never a leaf's, now or later.
      have hkept : row.templateId ∈ state.structuredIds := by
        have hnow : row.templateId ∈
            (((new config tenantOverrides ids).after env (earlier ++ [record])).tenantOrNew
              row.tenantId).structuredIds := by
          rw [hreached, htenant, tenantOrNew_of_lookup hlookup]
          exact hmem
        have hthen := structuredIds_after env (wellFormed_after hstart (earlier ++ [record])) hnow
          rest
        rwa [← after_append, List.append_assoc, List.singleton_append,
          tenantOrNew_of_lookup hstate] at hthen
      exact absurd hid.symm ((hfinal.tenant _ _ hstate).leaf_ne_structured hleaf hkept)
  | @string raw hbody hkind hstring =>
    cases hstring with
    | retained hnone => exact absurd hnone hpositive
    | adopted hparsed hadopted =>
      rw [adoptedTemplate_eq_none fun tenant => by
        rw [effectiveConfig_after hstart]; exact hmode tenant] at hadopted
      cases hadopted
    | mined hadopted hbound =>
      obtain ⟨held, bound, hlookup, hmem, hsame, hversion, -⟩ := hbound
      have htrailed := trailed_after env hmode (earlier ++ [record]) row.tenantId
      rw [hreached, htenant, tenantOrNew_of_lookup hlookup] at htrailed
      obtain ⟨first, changes, -, hchanges, hchain⟩ := htrailed.leaf bound hmem
      have hannounced : ∃ change ∈ changesOf bound.templateId (tenantEvents record.tenantId
          (auditEvents ((new config tenantOverrides ids).emissions env
            (earlier ++ [record])))), announcedVersion change = some row.templateVersion := by
        rw [hchanges, ← hversion]
        rcases hchain.announced with heq | ⟨change, hchange, hversion'⟩
        · exact ⟨_, List.mem_cons_self, by rw [heq]; rfl⟩
        · exact ⟨change, List.mem_cons_of_mem _ hchange, hversion'⟩
      obtain ⟨change, hchange, hversion'⟩ := hannounced
      obtain ⟨event, hevent, rfl⟩ := List.mem_map.mp hchange
      obtain ⟨hevent, heventId⟩ := List.mem_filter.mp hevent
      obtain ⟨hevent, heventTenant⟩ := List.mem_filter.mp hevent
      refine ⟨event, hevent, ?_, ?_, hversion'⟩
      · rw [htenant]
        exact beq_iff_eq.mp heventTenant
      · rw [← hid, ← hsame]
        exact beq_iff_eq.mp heventId

/-- In a run without adoption, the events of every leaf are its creation and a
gap-free chain of changes up to its current version and shape; every row that
names it carries an announced version; and the merge counter counts the
structural changes. -/
theorem audit_trail_complete (env : Environment) (config : MinerConfig)
    (tenantOverrides : AList fun _ : TenantId => MinerConfig) (ids : IdRange)
    (hmode : (new config tenantOverrides ids).NeverAdopts) (records : List OtlpLogRecord) :
    (∀ tenant state, ((new config tenantOverrides ids).after env records).tenants.lookup tenant =
        some state → ∀ leaf ∈ state.tree.collectLeaves,
      (∃ first changes,
        changesOf leaf.templateId (tenantEvents tenant (auditEvents
          ((new config tenantOverrides ids).emissions env records))) =
            .created (formatTemplate first) :: changes ∧
        VersionChain templateInitialVersion first changes leaf.templateVersion leaf.template ∧
        ∀ oldVersion newVersion oldTemplate newTemplate positions,
          .widened oldVersion newVersion oldTemplate newTemplate positions ∈ changes →
          ∀ p, (templateWords newTemplate)[p]? =
            if p ∈ positions then some wildcardText else (templateWords oldTemplate)[p]?) ∧
      ∀ before row later, (new config tenantOverrides ids).emissions env records =
          before ++ .record row :: later →
        row.tenantId = tenant → row.templateId = leaf.templateId →
        ∃ event ∈ auditEvents before, event.tenantId = tenant ∧
          event.templateId = leaf.templateId ∧
          announcedVersion event.change = some row.templateVersion) ∧
    ((new config tenantOverrides ids).after env records).mergesTotal =
      (auditEvents ((new config tenantOverrides ids).emissions env records)).countP
        (·.change.countsAsMerge) := by
  refine ⟨?_, mergesTotal_after records⟩
  intro tenant state hstate leaf hleaf
  refine ⟨?_, ?_⟩
  · have htrailed := trailed_after env hmode records tenant
    rw [tenantOrNew_of_lookup hstate] at htrailed
    obtain ⟨first, changes, hworded, hchanges, hchain⟩ := htrailed.leaf leaf hleaf
    refine ⟨first, changes, hchanges, hchain, ?_⟩
    intro oldVersion newVersion oldTemplate newTemplate positions hmem
    exact hchain.words_widened hworded hmem
  · rintro before row later hsplit rfl hid
    exact row_announced hmode hstate hleaf hsplit hid

theorem neverAdopts_new {config : MinerConfig} (h : config.upstreamTemplates ≠ .adopt)
    (ids : IdRange) : (new config ∅ ids).NeverAdopts := fun _ => h

/-- Two lines of one leaf. -/
def sharedLines : List OtlpLogRecord :=
  [plainRecord ['t'] "disk sda1 nearly full now".toList,
    plainRecord ['t'] "disk sda1 nearly empty now".toList]

/-- The trail of the leaf two lines share, one merge long. -/
theorem audit_trail_complete_two_lines :
    (new { } ∅ IdRange.new).NeverAdopts ∧
    ∃ state leaf first changes,
      ((new { } ∅ IdRange.new).after standInEnvironment sharedLines).tenants.lookup ['t'] =
        some state ∧
      leaf ∈ state.tree.collectLeaves ∧
      changesOf leaf.templateId (tenantEvents ['t'] (auditEvents
        ((new { } ∅ IdRange.new).emissions standInEnvironment sharedLines))) =
        .created (formatTemplate first) :: changes ∧
      VersionChain templateInitialVersion first changes leaf.templateVersion leaf.template ∧
      changes.length = 1 := by
  have hmode := neverAdopts_new (by decide : ({ } : MinerConfig).upstreamTemplates ≠ .adopt)
    IdRange.new
  have hexists : (((new { } ∅ IdRange.new).after standInEnvironment
      sharedLines).tenants.lookup ['t']).any
      (fun state => state.tree.collectLeaves.any fun leaf => leaf.templateVersion == 2 &&
        (changesOf leaf.templateId (tenantEvents ['t'] (auditEvents
          ((new { } ∅ IdRange.new).emissions standInEnvironment sharedLines)))).length == 2) =
      true := by
    decide +kernel
  obtain ⟨hsome, hleaves⟩ := (Option.any_eq_true_iff_get _ _).mp hexists
  obtain ⟨leaf, hleaf, hlength⟩ := List.any_eq_true.mp hleaves
  obtain ⟨htrails, -⟩ := audit_trail_complete standInEnvironment { } ∅ IdRange.new hmode
    sharedLines
  have hstate := (Option.some_get hsome).symm
  obtain ⟨⟨first, changes, hchanges, hchain, -⟩, -⟩ := htrails _ _ hstate leaf hleaf
  refine ⟨hmode, _, leaf, first, changes, hstate, hleaf, hchanges, hchain, ?_⟩
  rw [hchanges, Bool.and_eq_true] at hlength
  simpa using hlength.2

def lenient : MinerCluster :=
  new { similarityThreshold := 1 / 4, similarityFloor := 1 / 4, prefixDepth := 0 } ∅ IdRange.new

def rejectedLines : List OtlpLogRecord :=
  [plainRecord ['t'] "a b".toList, plainRecord ['t'] "a c".toList, plainRecord ['t'] "x c".toList]

/-- A widening that would leave no fixed token is rejected, and the rejection is an
event of the leaf between its others. A literal `<*>` is widened into the text it was. -/
theorem rejection_on_trail :
    ((lenient.after standInEnvironment rejectedLines).tenants.lookup ['t']).any
      (fun state => decide (1 ∈ state.leafIds)) = true ∧
    changesOf 1 (tenantEvents ['t'] (auditEvents
      (lenient.emissions standInEnvironment rejectedLines))) =
      [.created "a b".toList, .widened 1 2 "a b".toList "a <*>".toList [1],
        .rejectedDegenerate 2 "a <*>".toList "<*> <*>".toList [0]] ∧
    changesOf 1 (tenantEvents ['t'] (auditEvents (lenient.emissions standInEnvironment
      [plainRecord ['t'] "a <*>".toList, plainRecord ['t'] "a c".toList]))) =
      [.created "a <*>".toList, .widened 1 2 "a <*>".toList "a <*>".toList [1]] := by
  decide +kernel

end MinerCluster

end Ourios.Miner
