/-
# Resuming from snapshots

Restoring every tenant of a recoverable cluster into a fresh one, in any order,
builds a twin of the cluster: the tenants are twins, and the allocator stands
where the old one stood, right past the last id held. Twins ingest alike, so
from then on nothing tells the restored cluster from the one that never stopped.

Lines that spell a mask tag among the tokens they are routed by are what can
make a tenant unrecoverable.
-/

import Ourios.Miner.Recovery

namespace Ourios.Miner

open Ourios.Foundation

/-! ### Runs of twins -/

namespace MinerCluster

/-- The ids a sequence of ingests returns. -/
def templateIds (env : Environment) : MinerCluster → List OtlpLogRecord → List Nat
  | _, [] => []
  | cluster, record :: records =>
    (cluster.ingest env record).templateId ::
      templateIds env (cluster.ingest env record).cluster records

theorem Sturdy.ingest {env : Environment} {cluster : MinerCluster} (h : cluster.Sturdy)
    (record : OtlpLogRecord) : (cluster.ingest env record).cluster.Sturdy := by
  obtain ⟨events, row, -, hmoves, -⟩ := cluster.ingest_spec env h.wellFormed record
  exact sturdy_of_moves hmoves h

theorem Recoverable.sturdy {cluster : MinerCluster} (h : cluster.Recoverable) : cluster.Sturdy :=
  ⟨h.wellFormed, fun tenant state hlookup => (h.tenant tenant state hlookup).sturdy.sound⟩

end MinerCluster

/-- Twin clusters have the same snapshots. -/
theorem ClusterTwin.snapshotState_eq {left right : MinerCluster} (h : ClusterTwin left right)
    (hleft : left.WellFormed) (hright : right.WellFormed) (tenant : TenantId) :
    left.snapshotState tenant = right.snapshotState tenant := by
  unfold MinerCluster.snapshotState
  rcases h.lookup_cases tenant with ⟨hmine, hyours⟩ | ⟨mine, yours, hmine, hyours, htwin⟩
  · rw [hmine, hyours]
  · rw [hmine, hyours]
    exact htwin.snapshot_eq (hleft.tenant tenant mine hmine) (hright.tenant tenant yours hyours)

/-- Twin clusters cannot be told apart by what they ingest. -/
theorem ClusterTwin.run {env : Environment} {left right : MinerCluster}
    (h : ClusterTwin left right) (hleft : left.Sturdy) (hright : right.Sturdy)
    (records : List OtlpLogRecord) :
    left.templateIds env records = right.templateIds env records ∧
      (left.emissions env records).map Emission.untimed =
        (right.emissions env records).map Emission.untimed ∧
      ∀ tenant, (left.after env records).snapshotState tenant =
        (right.after env records).snapshotState tenant := by
  induction records generalizing left right with
  | nil => exact ⟨rfl, rfl, h.snapshotState_eq hleft.wellFormed hright.wellFormed⟩
  | cons record records ih =>
    have hsame := h.ingest env hleft hright record
    obtain ⟨hids, hemitted, hsnapshots⟩ :=
      ih hsame.cluster (hleft.ingest record) (hright.ingest record)
    refine ⟨?_, ?_, hsnapshots⟩
    · rw [MinerCluster.templateIds, MinerCluster.templateIds, hsame.templateId, hids]
    · unfold MinerCluster.emissions at hemitted ⊢
      rw [Machine.run_cons, Machine.run_cons, List.map_append, List.map_append]
      exact congrArg₂ (· ++ ·) hsame.emitted hemitted

/-! ### Restoring a cluster -/

theorem Twin.holderIds_perm {left right : TenantState} (h : Twin left right)
    (hleft : left.WellFormed) (hright : right.WellFormed) :
    left.holderIds.Perm right.holderIds := by
  refine List.Perm.append ?_ (List.Perm.append ?_ h.ownedIds_perm)
  · exact ((h.placed_perm hleft hright).map Prod.snd).map Leaf.templateId
  · exact (entries_perm_of_lookup_eq h.structured).flatMap_right _

variable {cluster : MinerCluster}

/-- No id is held by two tenants. -/
theorem MinerCluster.WellFormed.holder_unique (h : cluster.WellFormed) {tenant other : TenantId}
    {state state' : TenantState} {id : Nat} (hlookup : cluster.tenants.lookup tenant = some state)
    (hlookup' : cluster.tenants.lookup other = some state') (hid : id ∈ state.holderIds)
    (hid' : id ∈ state'.holderIds) : tenant = other := by
  by_contra hne
  have hperm := flatMap_entries_perm (fun _ (state : TenantState) => state.holderIds) tenant
    cluster.tenants
  rw [hlookup] at hperm
  have hnodup := hperm.nodup_iff.mp h.ids_nodup
  refine List.disjoint_of_nodup_append hnodup hid (List.mem_flatMap.mpr ⟨⟨other, state'⟩, ?_, hid'⟩)
  apply AList.mem_lookup_iff.mp
  rw [AList.lookup_erase_ne (Ne.symm hne)]
  exact hlookup'

theorem MinerCluster.exists_holder {id : Nat} (hid : id ∈ cluster.holderIds) :
    ∃ tenant state, cluster.tenants.lookup tenant = some state ∧ id ∈ state.holderIds := by
  obtain ⟨⟨tenant, state⟩, hentry, hheld⟩ := List.mem_flatMap.mp hid
  exact ⟨tenant, state, AList.mem_lookup_iff.mpr hentry, hheld⟩

/-- A cluster into which some tenants of another one have been restored. -/
structure Resumed (original : MinerCluster) (done : List TenantId) (cluster : MinerCluster) :
    Prop where
  config : cluster.config = original.config
  tenantOverrides : cluster.tenantOverrides = original.tenantOverrides
  sturdy : cluster.Sturdy
  restored : ∀ tenant ∈ done, ∃ mine yours, original.tenants.lookup tenant = some mine ∧
    cluster.tenants.lookup tenant = some yours ∧ Twin mine yours
  unseen : ∀ tenant, tenant ∉ done → cluster.tenants.lookup tenant = none
  seated : cluster.ids.Seated
  next_le : cluster.ids.next ≤ original.ids.next

theorem allocatePast_within {ids : IdRange} (h : ids.Seated) {state : SnapshotState} {bound : Nat}
    (hnext : ids.next ≤ bound) (hbound : bound ≤ maxTemplateId + 1)
    (hids : ∀ id ∈ state.ids, id < bound) :
    ∃ after, allocatePast ids state = .ok after ∧ after.Seated ∧ after.next ≤ bound := by
  unfold allocatePast
  cases hmax : state.ids.max? with
  | none => exact ⟨ids, rfl, h, hnext⟩
  | some issued =>
    have hissued := hids issued (List.max?_mem hmax)
    have hle : max ids.next (issued + 1) ≤ bound := max_le hnext hissued
    dsimp only
    rw [IdRange.allocatePast, if_neg (by omega)]
    exact ⟨_, rfl, ⟨h.reserve, h.stop, hle.trans hbound⟩, hle⟩

section Cluster

-- Tenants run under what the cluster gives a tenant it has not seen.
variable {original : MinerCluster} (horiginal : original.Recoverable)
  (hconfigs : ∀ tenant state, original.tenants.lookup tenant = some state →
    state.config = (original.tenantOverrides.lookup tenant).getD original.config)

include horiginal hconfigs

/-- One more tenant can always be restored. -/
theorem Resumed.step {done : List TenantId} {before : MinerCluster}
    (h : Resumed original done before) {tenant : TenantId} (hnew : tenant ∉ done)
    (hlive : (original.tenants.lookup tenant).isSome) :
    ∃ after, before.restoreTenant tenant (original.snapshotState tenant) = .ok after ∧
      Resumed original (done ++ [tenant]) after := by
  obtain ⟨state, hlookup⟩ := Option.isSome_iff_exists.mp hlive
  have hsnapshot : original.snapshotState tenant = state.snapshot := by
    simp [MinerCluster.snapshotState, hlookup]
  have hconfig : before.effectiveConfig tenant = state.config := by
    rw [hconfigs tenant state hlookup]
    unfold MinerCluster.effectiveConfig
    rw [h.unseen tenant hnew, h.config, h.tenantOverrides]
  have hrecoverable := horiginal.tenant tenant state hlookup
  have hwf := hrecoverable.sturdy.wellFormed
  obtain ⟨rebuilt, hrebuilt, hsturdy, htwin⟩ := hrecoverable.rebuild
  have hheld : ∀ id ∈ state.snapshot.ids, id ∈ original.holderIds := fun id hid =>
    MinerCluster.mem_holderIds_of_lookup hlookup (hwf.mem_holderIds_of_snapshot hid)
  obtain ⟨ids, hids, hseated, hnext⟩ := allocatePast_within h.seated h.next_le
    horiginal.seated.next_le fun id hid => (horiginal.wellFormed.ids_lt id (hheld id hid)).2
  have hrestored : before.restoreTenant tenant (original.snapshotState tenant) =
      .ok ({ before with ids }.setTenant tenant rebuilt) := by
    rw [MinerCluster.restoreTenant, if_neg (AList.lookup_eq_none.mp (h.unseen tenant hnew)),
      hsnapshot, hconfig]
    exact bind_eq_ok_iff.mpr ⟨rebuilt, hrebuilt, bind_eq_ok_iff.mpr ⟨ids, hids, rfl⟩⟩
  have hlookups : ∀ other, ({ before with ids }.setTenant tenant rebuilt).tenants.lookup other =
      if other = tenant then some rebuilt else before.tenants.lookup other :=
    fun other => lookup_insert_ite tenant other rebuilt before.tenants
  refine ⟨_, hrestored, h.config, h.tenantOverrides, ⟨?_, ?_⟩, ?_, ?_, hseated, hnext⟩
  · refine h.sturdy.wellFormed.restore hrestored ?_ ?_
    · intro id hid
      rw [hsnapshot] at hid
      refine ⟨(horiginal.wellFormed.ids_lt id (hheld id hid)).1, ?_⟩
      -- A tenant restored earlier holds ids of its own snapshot only.
      intro hbefore
      obtain ⟨other, yours, hother, hyours⟩ := MinerCluster.exists_holder hbefore
      have hdone : other ∈ done := by
        by_contra hundone
        rw [h.unseen other hundone] at hother
        cases hother
      obtain ⟨mine, yours', hmine, hyours', htwins⟩ := h.restored other hdone
      rw [hother, Option.some_inj] at hyours'
      subst hyours'
      have hminewf := horiginal.wellFormed.tenant other mine hmine
      have hidmine := (htwins.holderIds_perm hminewf
        (h.sturdy.wellFormed.tenant other yours hother)).mem_iff.mpr hyours
      have hsame := horiginal.wellFormed.holder_unique hlookup hmine
        (hwf.mem_holderIds_of_snapshot hid) hidmine
      exact hnew (hsame ▸ hdone)
    · rw [hsnapshot, hconfig]
      exact ceilingCount_snapshot hwf
  · intro other held hheld
    rw [hlookups] at hheld
    split at hheld
    · cases hheld
      exact hsturdy.sound
    · exact h.sturdy.sound other held hheld
  · intro other hother
    rw [hlookups]
    by_cases hsame : other = tenant
    · subst hsame
      rw [if_pos rfl]
      exact ⟨state, rebuilt, hlookup, rfl, htwin⟩
    · rw [if_neg hsame]
      refine h.restored other ?_
      rcases List.mem_append.mp hother with hdone | hlast
      · exact hdone
      · exact absurd (List.mem_singleton.mp hlast) hsame
  · intro other hother
    rw [List.mem_append, List.mem_singleton, not_or] at hother
    rw [hlookups, if_neg hother.2]
    exact h.unseen other hother.1

end Cluster

/-- With every tenant restored the cluster is a twin of the original. -/
theorem Resumed.clusterTwin {original : MinerCluster} {done : List TenantId}
    (h : Resumed original done cluster) (horiginal : original.Recoverable)
    (hall : ∀ tenant, (original.tenants.lookup tenant).isSome → tenant ∈ done) :
    ClusterTwin original cluster where
  config := h.config.symm
  tenantOverrides := h.tenantOverrides.symm
  tenants := by
    intro tenant
    by_cases hdone : tenant ∈ done
    · obtain ⟨mine, yours, hmine, hyours, htwin⟩ := h.restored tenant hdone
      rw [hmine, hyours]
      exact .some htwin
    · rw [h.unseen tenant hdone, Option.not_isSome_iff_eq_none.mp fun hlive =>
        hdone (hall tenant hlive)]
      exact .none
  ids := by
    refine ⟨le_antisymm ?_ h.next_le, ?_, horiginal.seated.reserve, h.seated.reserve⟩
    · rcases horiginal.last_held with hfirst | ⟨id, hid, hnext⟩
      · rw [hfirst]
        exact cluster.ids.next_pos
      · -- The last id the original issued is held by one of the restored tenants.
        obtain ⟨tenant, state, hlookup, hheld⟩ := MinerCluster.exists_holder hid
        obtain ⟨mine, yours, hmine, hyours, htwin⟩ := h.restored tenant
          (hall tenant (Option.isSome_iff_exists.mpr ⟨state, hlookup⟩))
        rw [hlookup, Option.some_inj] at hmine
        subst hmine
        have hyourwf := h.sturdy.wellFormed.tenant tenant yours hyours
        have hthere := (htwin.holderIds_perm (horiginal.wellFormed.tenant tenant state hlookup)
          hyourwf).mem_iff.mp hheld
        rw [hnext]
        exact (h.sturdy.wellFormed.ids_lt id
          (MinerCluster.mem_holderIds_of_lookup hyours hthere)).2
    · rw [horiginal.seated.stop, h.seated.stop]

/-! ### Runs -/

namespace MinerCluster

variable {env : Environment}

theorem tunables_after {cluster : MinerCluster} (hwf : cluster.WellFormed)
    (records : List OtlpLogRecord) :
    (cluster.after env records).config = cluster.config ∧
      (cluster.after env records).tenantOverrides = cluster.tenantOverrides := by
  induction records generalizing cluster with
  | nil => exact ⟨rfl, rfl⟩
  | cons record records ih =>
    obtain ⟨events, row, -, hmoves, -⟩ := cluster.ingest_spec env hwf record
    have hstep := hmoves.preserves (fun state => state.config = cluster.config ∧
      state.tenantOverrides = cluster.tenantOverrides) ?_ ⟨rfl, rfl⟩
    · obtain ⟨hconfig, hoverrides⟩ := ih (wellFormed_ingest hwf record)
      exact ⟨hconfig.trans hstep.1, hoverrides.trans hstep.2⟩
    · rintro before out after hmove ⟨hconfig, hoverrides⟩
      cases hmove with
      | quiet hsame hkept _ _ _ => exact ⟨hsame.trans hconfig, hkept.trans hoverrides⟩
      | commit _ hstored _ =>
        exact ⟨hstored.config.trans hconfig, hstored.tenantOverrides.trans hoverrides⟩

section Fresh

variable (env) (config : MinerConfig) (tenantOverrides : AList fun _ : TenantId => MinerConfig)
  (records : List OtlpLogRecord)

/-- Nothing has been restored into a fresh cluster. -/
theorem resumed_new :
    Resumed ((new config tenantOverrides IdRange.new).after env records) []
      (new config tenantOverrides IdRange.new) where
  config := (tunables_after (wellFormed_new config tenantOverrides IdRange.new) records).1.symm
  tenantOverrides :=
    (tunables_after (wellFormed_new config tenantOverrides IdRange.new) records).2.symm
  sturdy := (recoverable_new config tenantOverrides).sturdy
  restored := by simp
  unseen := fun _ _ => rfl
  seated := IdRange.seated_new
  next_le := IdRange.next_pos _

theorem config_of_lookup_after {original : MinerCluster}
    (h : (new config tenantOverrides IdRange.new).after env records = original) (tenant : TenantId)
    (state : TenantState) (hlookup : original.tenants.lookup tenant = some state) :
    state.config = (original.tenantOverrides.lookup tenant).getD original.config := by
  have hstart := resumed_new env config tenantOverrides records
  have hsame := @effectiveConfig_after env _
    (wellFormed_new config tenantOverrides IdRange.new) records tenant
  rw [h] at hstart hsame
  rw [effectiveConfig_of_lookup hlookup] at hsame
  rw [← hstart.tenantOverrides, ← hstart.config]
  exact hsame

end Fresh

/-- After any run whose lines spell no mask tag among the tokens they are routed
by, the snapshot of every tenant is accepted by a fresh cluster and read back as
it was; and once every tenant is restored, in any order, every further run gives
the same ids, the same rows and events up to the clock, and the same snapshots. -/
theorem restore_continues (env : Environment) (config : MinerConfig)
    (tenantOverrides : AList fun _ : TenantId => MinerConfig) (records : List OtlpLogRecord)
    (htags : ∀ record ∈ records,
      TagFree ((new config tenantOverrides IdRange.new).effectiveConfig record.tenantId).prefixDepth
        (lineTokens record)) :
    (∀ tenant, ∃ restored,
      (new config tenantOverrides IdRange.new).restoreTenant tenant
        (((new config tenantOverrides IdRange.new).after env records).snapshotState tenant) =
          .ok restored ∧
      restored.snapshotState tenant =
        ((new config tenantOverrides IdRange.new).after env records).snapshotState tenant) ∧
    ∀ order : List TenantId, order.Nodup →
      (∀ tenant, tenant ∈ order ↔
        tenant ∈ ((new config tenantOverrides IdRange.new).after env records).tenants) →
      ∃ restored,
        order.foldlM (fun cluster tenant => cluster.restoreTenant tenant
          (((new config tenantOverrides IdRange.new).after env records).snapshotState tenant))
          (new config tenantOverrides IdRange.new) = .ok restored ∧
        ∀ later : List OtlpLogRecord,
          restored.templateIds env later =
            ((new config tenantOverrides IdRange.new).after env records).templateIds env later ∧
          (restored.emissions env later).map Emission.untimed =
            (((new config tenantOverrides IdRange.new).after env records).emissions env later).map
              Emission.untimed ∧
          ∀ tenant, (restored.after env later).snapshotState tenant =
            (((new config tenantOverrides IdRange.new).after env records).after env
              later).snapshotState tenant := by
  have hrecoverable := @recoverable_after env _ (recoverable_new config tenantOverrides) _ htags
  have hstart := resumed_new env config tenantOverrides records
  generalize horiginal : (new config tenantOverrides IdRange.new).after env records = original at *
  have hconfigs := config_of_lookup_after env config tenantOverrides records horiginal
  constructor
  · intro tenant
    cases hlookup : original.tenants.lookup tenant with
    | none =>
      -- A tenant never seen has an empty snapshot, which makes an empty tenant.
      have hempty : original.snapshotState tenant = ⟨[], [], []⟩ := by
        simp [snapshotState, hlookup]
      rw [hempty]
      refine ⟨_, rfl, ?_⟩
      rw [snapshotState, setTenant, AList.lookup_insert]
      rfl
    | some state =>
      obtain ⟨restored, hrestored, hresumed⟩ := hstart.step hrecoverable hconfigs
        (List.not_mem_nil) (Option.isSome_iff_exists.mpr ⟨state, hlookup⟩)
      refine ⟨restored, hrestored, ?_⟩
      obtain ⟨mine, yours, hmine, hyours, htwin⟩ := hresumed.restored tenant (by simp)
      rw [snapshotState, snapshotState, hmine, hyours]
      exact (htwin.snapshot_eq (hrecoverable.wellFormed.tenant tenant mine hmine)
        (hresumed.sturdy.wellFormed.tenant tenant yours hyours)).symm
  · intro order hnodup horder
    have hstep : ∀ done tenant later before, order = done ++ tenant :: later →
        Resumed original done before →
        ∃ after, before.restoreTenant tenant (original.snapshotState tenant) = .ok after ∧
          Resumed original (done ++ [tenant]) after := by
      intro done tenant later before hsplit hbefore
      apply hbefore.step hrecoverable hconfigs
      · intro hdone
        rw [hsplit] at hnodup
        exact (List.nodup_cons.mp (List.nodup_middle.mp hnodup)).1 (List.mem_append_left _ hdone)
      · exact AList.lookup_isSome.mpr ((horder tenant).mp (by simp [hsplit]))
    obtain ⟨restored, hrestored, hresumed⟩ := foldlM_succeeds _ hstep hstart
    refine ⟨restored, hrestored, fun later => ?_⟩
    have htwin := hresumed.clusterTwin hrecoverable fun tenant hlive =>
      (horder tenant).mpr (AList.lookup_isSome.mp hlive)
    obtain ⟨hids, hemitted, hsnapshots⟩ := htwin.run hrecoverable.sturdy hresumed.sturdy later
    exact ⟨hids.symm, hemitted.symm, fun tenant => (hsnapshots tenant).symm⟩

/-- Two tenants, one of which widens a template. -/
def plainLines : List OtlpLogRecord :=
  [plainRecord ['t'] "user alice logged in".toList, plainRecord ['u'] "disk 5 full".toList,
    plainRecord ['t'] "user bob logged in".toList]

theorem restore_continues_plainLines :
    (∀ record ∈ plainLines, TagFree ((new { } ∅ IdRange.new).effectiveConfig
      record.tenantId).prefixDepth (lineTokens record)) ∧
    ∃ restored, [['u'], ['t']].foldlM (fun cluster tenant => cluster.restoreTenant tenant
        (((new { } ∅ IdRange.new).after standInEnvironment plainLines).snapshotState tenant))
        (new { } ∅ IdRange.new) = .ok restored ∧
      ∀ later : List OtlpLogRecord, restored.templateIds standInEnvironment later =
        ((new { } ∅ IdRange.new).after standInEnvironment plainLines).templateIds
          standInEnvironment later := by
  have htags : ∀ record ∈ plainLines, TagFree ((new { } ∅ IdRange.new).effectiveConfig
      record.tenantId).prefixDepth (lineTokens record) := by
    decide +kernel
  have hlive : ∀ tenant : TenantId, tenant ∈ [['u'], ['t']] ↔
      tenant ∈ ((new { } ∅ IdRange.new).after standInEnvironment plainLines).tenants := by
    have hkeys : ((new { } ∅ IdRange.new).after standInEnvironment plainLines).tenants.keys =
        [['t'], ['u']] := by
      decide +kernel
    intro tenant
    rw [AList.mem_keys, hkeys]
    simp [or_comm]
  obtain ⟨restored, hrestored, hcontinues⟩ :=
    (restore_continues standInEnvironment { } ∅ plainLines htags).2 [['u'], ['t']] (by decide) hlive
  exact ⟨htags, restored, hrestored, fun later => (hcontinues later).1⟩

/-- A number and then the text of its tag, first on their lines: the leaf the first
made takes the second, so its slot has seen two types, and its way down the tree
can no longer be read from its record. -/
theorem restore_refuses_spelled_tag :
    ∃ detail, (new { } ∅ IdRange.new).restoreTenant ['t']
      (((new { } ∅ IdRange.new).after standInEnvironment
        [plainRecord ['t'] "5 foo bar baz".toList,
          plainRecord ['t'] "<NUM> foo bar baz".toList]).snapshotState ['t']) =
      .error (.inconsistent detail) := by
  have hrefused : (match (new { } ∅ IdRange.new).restoreTenant ['t']
      (((new { } ∅ IdRange.new).after standInEnvironment
        [plainRecord ['t'] "5 foo bar baz".toList,
          plainRecord ['t'] "<NUM> foo bar baz".toList]).snapshotState ['t']) with
      | .error (.inconsistent _) => true
      | _ => false) = true := by
    decide +kernel
  split at hrefused
  · rename_i detail heq
    exact ⟨detail, heq⟩
  · cases hrefused

end MinerCluster

end Ourios.Miner
