/-
# Runs of the miner

The cluster as a machine that ingests one record at a time. Every state a run
from an empty cluster reaches is well formed, so every row it emits is one of
the rows `ingest_spec` describes; a string row therefore gives its line back,
from its body or from the tokens it was bound to.
-/

import Ourios.Miner.Ingest

namespace Ourios.Miner

open Ourios.Foundation

namespace MinerCluster

variable (env : Environment)

def machine : Machine MinerCluster OtlpLogRecord Emission :=
  ⟨fun cluster record => ((cluster.ingest env record).cluster, (cluster.ingest env record).emitted)⟩

/-- The cluster after a sequence of ingests. -/
def after (cluster : MinerCluster) (records : List OtlpLogRecord) : MinerCluster :=
  ((machine env).run cluster records).1

/-- Everything a sequence of ingests hands to the sinks, in order. -/
def emissions (cluster : MinerCluster) (records : List OtlpLogRecord) : List Emission :=
  ((machine env).run cluster records).2

variable {env}

theorem after_append (cluster : MinerCluster) (first second : List OtlpLogRecord) :
    cluster.after env (first ++ second) = (cluster.after env first).after env second := by
  simp [after, Machine.run_append]

theorem emissions_append (cluster : MinerCluster) (first second : List OtlpLogRecord) :
    cluster.emissions env (first ++ second) =
      cluster.emissions env first ++ (cluster.after env first).emissions env second := by
  simp [emissions, after, Machine.run_append]

theorem wellFormed_ingest {cluster : MinerCluster} (h : cluster.WellFormed)
    (record : OtlpLogRecord) : (cluster.ingest env record).cluster.WellFormed := by
  obtain ⟨events, row, -, hmoves, -⟩ := cluster.ingest_spec env h record
  exact wellFormed_of_moves hmoves h

/-- Every state of a run is well formed. -/
theorem wellFormed_after {cluster : MinerCluster} (h : cluster.WellFormed)
    (records : List OtlpLogRecord) : (cluster.after env records).WellFormed :=
  (machine env).run_preserves WellFormed (fun _ record hstate => wellFormed_ingest hstate record)
    h records

end MinerCluster

/-! ### What holds of each tenant and its events -/

def auditEvents (emitted : List Emission) : List AuditEvent :=
  emitted.filterMap fun emission => match emission with
    | .audit event => some event
    | .record _ => none

def tenantEvents (tenant : TenantId) (events : List AuditEvent) : List AuditEvent :=
  events.filter (·.tenantId == tenant)

@[simp] theorem auditEvents_append (first second : List Emission) :
    auditEvents (first ++ second) = auditEvents first ++ auditEvents second :=
  List.filterMap_append

@[simp] theorem auditEvents_ingested (events : List AuditEvent) (row : MinedRecord) :
    auditEvents (events.map Emission.audit ++ [.record row]) = events := by
  simp [auditEvents, List.filterMap_map]

@[simp] theorem tenantEvents_append (tenant : TenantId) (first second : List AuditEvent) :
    tenantEvents tenant (first ++ second) =
      tenantEvents tenant first ++ tenantEvents tenant second :=
  List.filter_append _ _

theorem Announces.tenantEvents_eq {tenant : TenantId} {changes : List (Nat × TemplateChange)}
    {events : List AuditEvent} (h : Announces tenant changes events) (other : TenantId) :
    tenantEvents other events = if other = tenant then events else [] := by
  split
  · rename_i hother
    refine List.filter_eq_self.mpr fun event hevent => ?_
    simp [h.tenant_eq event hevent, hother]
  · rename_i hother
    refine List.filter_eq_nil_iff.mpr fun event hevent => ?_
    simp [h.tenant_eq event hevent, Ne.symm hother]

section TenantInvariant

variable {record : OtlpLogRecord} {tokens : List Text}

variable {before after : MinerCluster}

theorem ClusterMove.fresh_not_held {fresh : Option Nat} {state : TenantState} {merges : Nat}
    (hwf : before.WellFormed) (h : Stored before record.tenantId fresh state merges after) :
    ∀ id, fresh = some id → id ∉ (before.tenantOrNew record.tenantId).holderIds := by
  rintro id rfl hheld
  have hlt := (hwf.ids_lt id (MinerCluster.mem_holderIds_tenantOrNew hheld)).2
  have hids := h.ids
  cases hids with
  | taken htake =>
    have := (IdRange.take_some htake).1
    omega

theorem tenantOrNew_of_stored {fresh : Option Nat} {state : TenantState} {merges : Nat}
    {tenant : TenantId} (h : Stored before tenant fresh state merges after) (other : TenantId) :
    after.tenantOrNew other = if other = tenant then state else before.tenantOrNew other := by
  split
  · rename_i hother
    exact MinerCluster.tenantOrNew_of_lookup (by rw [h.lookup, if_pos hother])
  · rename_i hother
    simp [MinerCluster.tenantOrNew, MinerCluster.effectiveConfig, h.lookup, hother, h.config,
      h.tenantOverrides]

/-- A property of a tenant and of its events so far that every move of the tenant
keeps, as long as the events it announces are good ones, is kept by every such
move of the cluster, for all tenants at once. -/
theorem ClusterMove.forall_tenant (holds : TenantState → List AuditEvent → Prop)
    (hmove : ∀ {fresh before changes after earlier new},
      TenantMove record tokens fresh before changes after → before.WellFormed →
      (∀ id, fresh = some id → id ∉ before.holderIds) →
      Announces record.tenantId changes new → holds before earlier →
      holds after (earlier ++ new)) {earlier new : List AuditEvent}
    (h : ClusterMove record tokens before new after) (hwf : before.WellFormed)
    (hbefore : ∀ tenant, holds (before.tenantOrNew tenant) (tenantEvents tenant earlier)) :
    ∀ tenant, holds (after.tenantOrNew tenant) (tenantEvents tenant (earlier ++ new)) := by
  intro tenant
  cases h with
  | quiet hconfig hoverrides htenants hids hmerges =>
    have hsame : after.tenantOrNew tenant = before.tenantOrNew tenant := by
      simp [MinerCluster.tenantOrNew, MinerCluster.effectiveConfig, hconfig, hoverrides, htenants]
    rw [hsame, List.append_nil]
    exact hbefore tenant
  | commit hstep hstored hevents =>
    rw [tenantOrNew_of_stored hstored, tenantEvents_append, hevents.tenantEvents_eq]
    split
    · rename_i htenant
      subst htenant
      exact hmove hstep (MinerCluster.wellFormed_tenantOrNew hwf record.tenantId)
        (ClusterMove.fresh_not_held hwf hstored) hevents (hbefore record.tenantId)
    · rw [List.append_nil]
      exact hbefore tenant

end TenantInvariant

namespace MinerCluster

variable {env : Environment} {cluster : MinerCluster}

/-- A property of a tenant and of its events that every move of a good record keeps holds
of every tenant at the end of every run of good records. -/
theorem forall_tenant_after (holds : TenantState → List AuditEvent → Prop)
    (good : OtlpLogRecord → Prop) (hnew : ∀ config, holds (TenantState.new config) [])
    (hmove : ∀ {record fresh before changes after earlier new}, good record →
      TenantMove record (lineTokens record) fresh before changes after → before.WellFormed →
      (∀ id, fresh = some id → id ∉ before.holderIds) →
      Announces record.tenantId changes new → holds before earlier →
      holds after (earlier ++ new)) (config : MinerConfig)
    (tenantOverrides : AList fun _ : TenantId => MinerConfig) (ids : IdRange)
    {records : List OtlpLogRecord} (hgood : ∀ record ∈ records, good record)
    (tenant : TenantId) :
    holds (((new config tenantOverrides ids).after env records).tenantOrNew tenant)
      (tenantEvents tenant (auditEvents ((new config tenantOverrides ids).emissions env records)))
      := by
  -- The invariant of the run: the cluster is well formed and every tenant is fine.
  let fine : MinerCluster → List Emission → Prop := fun cluster emitted => cluster.WellFormed ∧
    ∀ tenant, holds (cluster.tenantOrNew tenant) (tenantEvents tenant (auditEvents emitted))
  have hstart : fine (new config tenantOverrides ids) [] :=
    ⟨wellFormed_new config tenantOverrides ids, fun tenant => hnew _⟩
  have hend := (machine env).run_invariant fine ?_ hstart
    ((machine env).meets_of_forall _ records fun record hmem _ => hgood record hmem)
  · simpa [after, emissions] using hend.2 tenant
  · rintro cluster emitted record ⟨hwf, hholds⟩ hrecord
    obtain ⟨events, row, hemitted, hmoves, -⟩ := cluster.ingest_spec env hwf record
    refine ⟨wellFormed_ingest hwf record, ?_⟩
    -- Inside one step every tenant stays fine with the events so far.
    let within : MinerCluster → List AuditEvent → Prop := fun cluster new => cluster.WellFormed ∧
      ∀ tenant, holds (cluster.tenantOrNew tenant)
        (tenantEvents tenant (auditEvents emitted ++ new))
    have hwithin : within ((cluster.ingest env record).cluster) ([] ++ events) := by
      refine hmoves.invariant within ?_ ⟨hwf, fun tenant => by simpa using hholds tenant⟩
      rintro state earlier out next hstep ⟨hstate, htenants⟩
      refine ⟨hstep.wellFormed hstate, ?_⟩
      rw [← List.append_assoc]
      exact hstep.forall_tenant holds (hmove hrecord) hstate htenants
    change ∀ tenant, holds _ (tenantEvents tenant (auditEvents (emitted ++
      (cluster.ingest env record).emitted)))
    rw [hemitted, auditEvents_append, auditEvents_ingested]
    exact hwithin.2

/-! ### Where a row stands in a run -/

/-- A row among the emissions of one ingest and of what follows it. -/
theorem split_at_record {events : List AuditEvent} {last row : MinedRecord}
    {tail before later : List Emission}
    (h : (events.map Emission.audit ++ [.record last]) ++ tail = before ++ .record row :: later) :
    (before = events.map Emission.audit ∧ row = last) ∨
      ∃ rest, before = (events.map Emission.audit ++ [.record last]) ++ rest ∧
        tail = rest ++ .record row :: later := by
  induction events generalizing before with
  | nil =>
    cases before with
    | nil =>
      simp only [List.map_nil, List.nil_append, List.cons_append, List.cons.injEq,
        Emission.record.injEq] at h
      exact .inl ⟨rfl, h.1.symm⟩
    | cons emission before =>
      simp only [List.map_nil, List.nil_append, List.cons_append, List.cons.injEq] at h
      exact .inr ⟨before, by simp [h.1], h.2⟩
  | cons event events ih =>
    cases before with
    | nil => simp at h
    | cons emission before =>
      simp only [List.map_cons, List.cons_append, List.cons.injEq] at h
      obtain ⟨rfl, hrest⟩ := h
      rcases ih hrest with ⟨rfl, rfl⟩ | ⟨rest, rfl, htail⟩
      · exact .inl ⟨by simp, rfl⟩
      · exact .inr ⟨rest, by simp, htail⟩

/-- Every row of a run is the last emission of one of its ingests. -/
theorem emissions_split (hwf : cluster.WellFormed) {records : List OtlpLogRecord}
    {before later : List Emission} {row : MinedRecord}
    (h : cluster.emissions env records = before ++ .record row :: later) :
    ∃ earlier record rest, records = earlier ++ record :: rest ∧
      before ++ [.record row] = cluster.emissions env (earlier ++ [record]) ∧
      Emission.record row ∈ ((cluster.after env earlier).ingest env record).emitted := by
  induction records generalizing cluster before with
  | nil => simp [emissions] at h
  | cons record records ih =>
    obtain ⟨events, last, hemitted, -⟩ := cluster.ingest_spec env hwf record
    have hfirst : cluster.emissions env [record] = events.map Emission.audit ++ [.record last] := by
      rw [← hemitted]
      simp [emissions, machine]
    have hsplit : cluster.emissions env (record :: records) = _ :=
      cluster.emissions_append [record] records
    rw [hsplit, hfirst] at h
    rcases split_at_record h with ⟨rfl, rfl⟩ | ⟨rest, rfl, htail⟩
    · refine ⟨[], record, records, rfl, hfirst.symm, ?_⟩
      change _ ∈ (cluster.ingest env record).emitted
      rw [hemitted]
      simp
    · obtain ⟨earlier, next, later', rfl, hbefore, hmem⟩ := ih (wellFormed_ingest hwf record) htail
      refine ⟨record :: earlier, next, later', rfl, ?_, hmem⟩
      rw [List.append_assoc, hbefore, ← hfirst]
      exact (cluster.emissions_append [record] (earlier ++ [next])).symm

/-- A step never changes the tunables a tenant runs under. -/
theorem effectiveConfig_after (hwf : cluster.WellFormed) (records : List OtlpLogRecord)
    (tenant : TenantId) :
    (cluster.after env records).effectiveConfig tenant = cluster.effectiveConfig tenant := by
  induction records generalizing cluster with
  | nil => rfl
  | cons record records ih =>
    obtain ⟨events, row, -, hmoves, -⟩ := cluster.ingest_spec env hwf record
    exact (ih (wellFormed_ingest hwf record)).trans (effectiveConfig_of_moves hmoves tenant)

/-- A structured key keeps its id. -/
theorem structuredIds_after (env : Environment) (hwf : cluster.WellFormed) {tenant : TenantId}
    {id : Nat} (h : id ∈ (cluster.tenantOrNew tenant).structuredIds)
    (records : List OtlpLogRecord) :
    id ∈ ((cluster.after env records).tenantOrNew tenant).structuredIds := by
  have hrun := (machine env).run_preserves (fun state => state.WellFormed ∧
    id ∈ (state.tenantOrNew tenant).structuredIds) ?_ ⟨hwf, h⟩ records
  · exact hrun.2
  · rintro state record ⟨hstate, hid⟩
    obtain ⟨events, row, -, hmoves, -⟩ := state.ingest_spec env hstate record
    refine ⟨wellFormed_ingest hstate record, ?_⟩
    refine hmoves.preserves (fun state => id ∈ (state.tenantOrNew tenant).structuredIds) ?_ hid
    intro before out after hmove hbefore
    cases hmove with
    | quiet hconfig hoverrides htenants hids hmerges =>
      simpa [tenantOrNew, effectiveConfig, hconfig, hoverrides, htenants] using hbefore
    | commit hstep hstored hevents =>
      rw [tenantOrNew_of_stored hstored]
      split
      · rename_i htenant
        subst htenant
        exact hstep.structuredIds_subset hbefore
      · exact hbefore

/-- An ingest leaves the other tenants and their audit trails alone. -/
theorem ingest_apart (hwf : cluster.WellFormed) {record : OtlpLogRecord} {tenant : TenantId}
    (hother : tenant ≠ record.tenantId) :
    (cluster.ingest env record).cluster.tenants.lookup tenant = cluster.tenants.lookup tenant ∧
      tenantEvents tenant (auditEvents (cluster.ingest env record).emitted) = [] := by
  obtain ⟨events, row, hemitted, hmoves, -⟩ := cluster.ingest_spec env hwf record
  rw [hemitted, auditEvents_ingested]
  refine hmoves.invariant (fun state new => state.tenants.lookup tenant =
    cluster.tenants.lookup tenant ∧ tenantEvents tenant new = []) ?_
      (show _ ∧ tenantEvents tenant [] = [] from ⟨rfl, rfl⟩)
  rintro state earlier out next hmove ⟨hlookup, hearlier⟩
  rw [tenantEvents_append, hearlier]
  cases hmove with
  | quiet hconfig hoverrides htenants => exact ⟨htenants ▸ hlookup, rfl⟩
  | commit hstep hstored hevents =>
    rw [hstored.lookup, hevents.tenantEvents_eq, if_neg hother, if_neg hother]
    exact ⟨hlookup, rfl⟩

/-- From any state of a run on, a tenant none of the records is for keeps its state and is
announced nothing, whatever the others send. -/
theorem run_keeps_tenants_apart (env : Environment) (config : MinerConfig)
    (tenantOverrides : AList fun _ : TenantId => MinerConfig) (ids : IdRange)
    (earlier later : List OtlpLogRecord) :
    let cluster := (new config tenantOverrides ids).after env earlier
    ∀ tenant ∉ later.map (·.tenantId),
      (cluster.after env later).tenants.lookup tenant = cluster.tenants.lookup tenant ∧
        tenantEvents tenant (auditEvents (cluster.emissions env later)) = [] := by
  intro cluster tenant
  have hwf : cluster.WellFormed :=
    wellFormed_after (wellFormed_new config tenantOverrides ids) earlier
  generalize cluster = cluster at hwf
  induction later generalizing cluster with
  | nil => exact fun _ => ⟨rfl, rfl⟩
  | cons record later ih =>
    intro habsent
    rw [List.map_cons, List.mem_cons, not_or] at habsent
    obtain ⟨hlookup, hnone⟩ := ingest_apart hwf habsent.1
    obtain ⟨hlookup', hnone'⟩ := ih _ (wellFormed_ingest hwf record) habsent.2
    refine ⟨hlookup'.trans hlookup, ?_⟩
    change tenantEvents tenant (auditEvents ((cluster.ingest env record).emitted ++ _)) = []
    rw [auditEvents_append, tenantEvents_append, hnone]
    exact hnone'

variable (env : Environment)

/-- The token sequence a row of the next ingest is bound to: the adopted
template's tokens, or those of the leaf the row names in the state the ingest
leaves. -/
def boundTokens (cluster : MinerCluster) (record : OtlpLogRecord) (row : MinedRecord) :
    Option (List OwnedToken) :=
  match cluster.adoptedTemplate env record with
  | some parsed => some parsed.toOwnedTokens
  | none =>
    ((cluster.ingest env record).cluster.tenants.lookup record.tenantId).bind fun state =>
      (state.tree.collectLeaves.find? (·.templateId == row.templateId)).map Leaf.template

end MinerCluster

/-- Stand-ins for the code outside the repository, for runs on concrete input. -/
def standInEnvironment : Environment where
  sha256Prefix _ := "0000000000000000".toList
  hashTriggeringLine _ := []
  encodeAnyValue _ := []
  clock reads := reads

/-- A record that carries a line for a tenant and nothing else. -/
def plainRecord (tenantId : TenantId) (raw : Text) : OtlpLogRecord where
  tenantId := tenantId
  timeUnixNano := 0
  observedTimeUnixNano := none
  severityNumber := 9
  severityText := none
  scopeName := none
  scopeVersion := none
  scopeAttributes := []
  resourceSchemaUrl := none
  scopeSchemaUrl := none
  attributes := []
  droppedAttributesCount := 0
  resourceAttributes := []
  traceId := none
  spanId := none
  flags := 0
  eventName := none
  body := some (.string raw)

/-- In a well formed tenant a leaf is found by its id. -/
theorem TenantState.WellFormed.find?_leaf {state : TenantState} (h : state.WellFormed)
    {leaf : Leaf} (hleaf : leaf ∈ state.tree.collectLeaves) :
    state.tree.collectLeaves.find? (·.templateId == leaf.templateId) = some leaf := by
  cases hfind : state.tree.collectLeaves.find? (·.templateId == leaf.templateId) with
  | none =>
    have := List.find?_eq_none.mp hfind leaf hleaf
    simp at this
  | some found =>
    have hid : found.templateId = leaf.templateId := by simpa using List.find?_some hfind
    rw [h.leaf_eq (List.mem_of_find?_eq_some hfind) hleaf hid]

/-- A bound row of an ingest is bound to `boundTokens`. -/
theorem MinerCluster.boundTokens_of_stringRow {env : Environment} {cluster : MinerCluster}
    (hwf : cluster.WellFormed) {record : OtlpLogRecord} {raw : Text} {row : MinedRecord}
    (h : StringRow record raw (cluster.adoptedTemplate env record)
      (cluster.ingest env record).cluster row) :
    (row.lossyFlag = true ∧ row.body = some raw) ∨
      ∃ template, cluster.boundTokens env record row = some template ∧
        BoundRow raw template row := by
  cases h with
  | retained hid hlossy hbody => exact .inl ⟨hlossy, hbody⟩
  | mined hadopted hleaf hbound =>
    obtain ⟨state, leaf, hstate, hmem, hid, -, rfl⟩ := hleaf
    refine .inr ⟨leaf.template, ?_, hbound⟩
    have hfound := ((wellFormed_ingest hwf record).tenant _ _ hstate).find?_leaf hmem
    rw [boundTokens, hadopted, hstate, ← hid]
    simp [hfound]
  | adopted hparsed hadopted hentry hbound =>
    refine .inr ⟨_, ?_, hbound⟩
    rw [boundTokens, hadopted]

/-- The string row of an ingest keeps its line whenever it is lossy or a parameter
overflowed, and otherwise reconstructs it from the tokens it was bound to. -/
theorem MinerCluster.string_row_reconstructs (env : Environment) (config : MinerConfig)
    (tenantOverrides : AList fun _ : TenantId => MinerConfig) (ids : IdRange)
    (records : List OtlpLogRecord) (record : OtlpLogRecord) (row : MinedRecord)
    (hrow : Emission.record row ∈
      ((MinerCluster.new config tenantOverrides ids).after env records
        |>.ingest env record).emitted)
    (hkind : row.bodyKind = .string) :
    ∃ raw, record.body = some (.string raw) ∧
      (row.lossyFlag = true ∨ row.anyOverflow = true → row.body = some raw) ∧
      (row.lossyFlag = false → row.anyOverflow = false → ∃ template,
        ((MinerCluster.new config tenantOverrides ids).after env records
          |>.boundTokens env record row) = some template ∧
        row.separators.length = template.length + 1 ∧
        row.params.length = wildcardCount template ∧
        reconstruct row template = raw) := by
  generalize hreached : (MinerCluster.new config tenantOverrides ids).after env records = cluster
    at hrow ⊢
  have hwf : cluster.WellFormed := by
    rw [← hreached]
    exact wellFormed_after (wellFormed_new config tenantOverrides ids) records
  obtain ⟨events, last, hemitted, -, -, hlast⟩ := cluster.ingest_spec env hwf record
  obtain rfl : row = last := by
    rw [hemitted] at hrow
    simpa using hrow
  cases hlast with
  | absent habsent => simp [habsent] at hkind
  | structured hstructured => simp [hstructured] at hkind
  | @string raw hbody _ hstring =>
    refine ⟨raw, hbody, ?_, ?_⟩
    · rintro hretained
      rcases boundTokens_of_stringRow hwf hstring with ⟨-, hkept⟩ | ⟨template, -, hbound⟩
      · exact hkept
      · rcases hretained with hlossy | hoverflow
        · simp [hbound.lossyFlag] at hlossy
        · exact hbound.body hoverflow
    · intro hlossy hoverflow
      rcases boundTokens_of_stringRow hwf hstring with ⟨hlossy', -⟩ | ⟨template, htokens, hbound⟩
      · simp [hlossy] at hlossy'
      · have hcaptures := hbound.captures hoverflow
        have hshape := hcaptures.shape
        simp only [templateShapeMatchesRecord, Bool.and_eq_true, beq_iff_eq] at hshape
        exact ⟨template, htokens, hshape.1, hshape.2,
          hcaptures.reconstruct_eq hkind hlossy hoverflow⟩

/-- A row among what was emitted, found by a test. -/
theorem exists_row (emitted : List Emission) (good : MinedRecord → Bool)
    (h : emitted.any (fun
      | .record row => good row
      | .audit _ => false) = true) :
    ∃ row, Emission.record row ∈ emitted ∧ good row = true := by
  obtain ⟨emission, hmem, hgood⟩ := List.any_eq_true.mp h
  cases emission with
  | audit event => cases hgood
  | record row => exact ⟨row, hmem, hgood⟩

/-- The second of two user lines is mined whole. -/
theorem exists_user_row :
    ∃ row, Emission.record row ∈
        ((MinerCluster.new { } ∅ IdRange.new).after standInEnvironment
            [plainRecord ['t'] "user 17 logged in".toList]
          |>.ingest standInEnvironment (plainRecord ['t'] "user 18 logged in".toList)).emitted ∧
      row.bodyKind = .string ∧ row.lossyFlag = false ∧ row.anyOverflow = false := by
  refine (exists_row _ (fun row => row.bodyKind == .string && !row.lossyFlag && !row.anyOverflow)
    ?_).imp fun row h => ⟨h.1, ?_⟩
  · decide +kernel
  · simpa [and_assoc] using h.2

/-- The row of a parameter-carrying line, on a leaf another line minted. -/
theorem MinerCluster.string_row_reconstructs_user_line :
    ∃ row, Emission.record row ∈
        ((MinerCluster.new { } ∅ IdRange.new).after standInEnvironment
            [plainRecord ['t'] "user 17 logged in".toList]
          |>.ingest standInEnvironment (plainRecord ['t'] "user 18 logged in".toList)).emitted ∧
      row.bodyKind = .string ∧ row.lossyFlag = false ∧ row.anyOverflow = false ∧
      ∃ template,
        ((MinerCluster.new { } ∅ IdRange.new).after standInEnvironment
            [plainRecord ['t'] "user 17 logged in".toList]
          |>.boundTokens standInEnvironment (plainRecord ['t'] "user 18 logged in".toList) row) =
            some template ∧
        reconstruct row template = "user 18 logged in".toList := by
  obtain ⟨row, hmem, hkind, hlossy, hoverflow⟩ := exists_user_row
  obtain ⟨raw, hbody, -, hbound⟩ := string_row_reconstructs standInEnvironment { } ∅
    IdRange.new _ _ row hmem hkind
  obtain ⟨template, htokens, -, -, hraw⟩ := hbound hlossy hoverflow
  cases hbody
  exact ⟨row, hmem, hkind, hlossy, hoverflow, template, htokens, hraw⟩

end Ourios.Miner
