/-
# Applying horizons keeps the ledger exact

A tenant whose horizon regresses is rewound and holds all its segments; a step of the
walk moves one tenant's cursor past the first segment above it.
-/

import Ourios.Wal.LedgerObserve

namespace Ourios.Retain

open Ourios.Foundation

namespace SegmentLedger

section Horizons

variable {ledger after : SegmentLedger} {tenant : TenantId}

theorem touches_repossess (ledger : SegmentLedger) (tenant : TenantId) (id : Uuid) :
    ledger.Touches (ledger.repossess tenant id) id
      (Segment.withdrawn ∘ Segment.pinnedBy tenant) := by
  have ht := (touches_pin ledger tenant id).comp (touches_withdraw _ id)
  have hnot : ledger.Tallied → id ∉ ((ledger.pin tenant id).1.withdraw id).unpinned := by
    intro h hmem
    obtain ⟨segment, hlookup, hfree⟩ := ((ht.tallied h).unpinned id).mp hmem
    rcases ht.lookup_cases hlookup with ⟨-, old, -, rfl⟩ | ⟨hne, -⟩
    · have hpending := hfree.2
      rw [Function.comp_apply, Segment.pending_withdrawn] at hpending
      exact Segment.pending_pinnedBy_ne hpending
    · exact hne rfl
  refine ⟨ht.segments, ht.tenants, ht.behindTotal, ?_, ht.unsaturated⟩
  intro h
  have htallied := ht.tallied h
  refine ⟨?_, htallied.reclaiming, htallied.heldBytes, htallied.heldSegments⟩
  change Indexes _ _ (Finset.erase _ id)
  rw [Finset.erase_eq_of_notMem (hnot h)]
  exact htallied.unpinned

/-- What operations on several segments do. -/
structure TouchesAll (ledger after : SegmentLedger) (ids : List Uuid)
    (change : Segment → Segment) : Prop where
  segments : ∀ other, after.segments.lookup other =
    if other ∈ ids then (ledger.segments.lookup other).map change
    else ledger.segments.lookup other
  tenants : after.tenants = ledger.tenants
  behindTotal : after.behindTotal = ledger.behindTotal
  tallied : ledger.Tallied → after.Tallied
  unsaturated : ledger.Tallied → after.saturated = ledger.saturated

variable {change : Segment → Segment} {ids : List Uuid} {id current : Uuid}

/-- One operation after another, each on a segment of its own. -/
theorem touchesAll_foldl {operate : SegmentLedger → Uuid → SegmentLedger}
    (hoperate : ∀ ledger id, Touches ledger (operate ledger id) id change) (hnodup : ids.Nodup)
    (ledger : SegmentLedger) :
    ledger.TouchesAll (ids.foldl operate ledger) ids change := by
  induction ids generalizing ledger with
  | nil => exact ⟨fun _ => rfl, rfl, rfl, id, fun _ => rfl⟩
  | cons first rest ih =>
    have hfirst := hoperate ledger first
    have hrest := ih hnodup.of_cons (operate ledger first)
    refine ⟨?_, hrest.tenants.trans hfirst.tenants, hrest.behindTotal.trans hfirst.behindTotal,
      fun h => hrest.tallied (hfirst.tallied h),
      fun h => (hrest.unsaturated (hfirst.tallied h)).trans (hfirst.unsaturated h)⟩
    intro other
    rw [List.foldl_cons, hrest.segments, hfirst.segments]
    by_cases heq : other = first
    · subst heq
      rw [if_neg (List.nodup_cons.mp hnodup).1, if_pos rfl, if_pos (List.mem_cons_self)]
    · rw [if_neg heq]
      exact if_congr (by rw [List.mem_cons, or_iff_right heq]) rfl rfl

theorem TouchesAll.lookup_cases (ht : ledger.TouchesAll after ids change) {segment : Segment}
    (h : after.segments.lookup id = some segment) :
    (id ∈ ids ∧ ∃ old, ledger.segments.lookup id = some old ∧ segment = change old) ∨
      (id ∉ ids ∧ ledger.segments.lookup id = some segment) := by
  rw [ht.segments] at h
  split at h
  · rename_i hmem
    obtain ⟨old, hold, hchange⟩ := Option.map_eq_some_iff.mp h
    exact .inl ⟨hmem, old, hold, hchange.symm⟩
  · rename_i hmem
    exact .inr ⟨hmem, h⟩

theorem TouchesAll.mem_segments (ht : ledger.TouchesAll after ids change) :
    id ∈ after.segments ↔ id ∈ ledger.segments := by
  rw [← AList.lookup_isSome, ← AList.lookup_isSome, ht.segments]
  split
  · rw [Option.isSome_map]
  · rfl

/-- A tenant rewound holds every one of its segments. -/
theorem Exact.rewind (h : ledger.Exact) (tenant : TenantId) : (ledger.rewind tenant).Exact := by
  unfold SegmentLedger.rewind
  split
  · exact h
  · rename_i state hstate
    have hle : state.behind ≤ ledger.behindTotal := by
      rw [h.behindTotal]
      exact measure_le_total Tenant.behind hstate
    generalize hrewound : ({ ledger with
      tenants := _, behindTotal := _, saturated := _ } : SegmentLedger) = rewound
    have ht := touchesAll_foldl (fun ledger id => touches_repossess ledger tenant id)
      (nodup_ascending state.segments) rewound
    subst hrewound
    have htallied := ht.tallied ⟨h.unpinned, h.reclaiming, h.heldBytes, h.heldSegments⟩
    refine ⟨htallied, ?_, ?_, ?_⟩
    · apply h.toCounted.reposition ht.tenants
      · symm
        rw [Finset.filter_true_of_mem]
        intro id hid
        rfl
      · rw [hstate, Option.elim_some, ht.behindTotal]
        dsimp only
        omega
    · apply h.toLinked.reposition ht.tenants
      · intro id segment hlookup
        rcases ht.lookup_cases hlookup with ⟨-, old, hold, rfl⟩ | ⟨-, hold⟩
        · refine ⟨old, hold, ?_⟩
          intro other hne
          rw [Function.comp_apply, Segment.pending_withdrawn, Segment.members_withdrawn]
          exact ⟨Finset.mem_insert.trans (or_iff_right hne), Iff.rfl⟩
        · exact ⟨segment, hold, fun _ _ => ⟨Iff.rfl, Iff.rfl⟩⟩
      · intro id segment hlookup
        rcases ht.lookup_cases hlookup with ⟨hid, old, hold, rfl⟩ | ⟨hid, hold⟩
        · rw [Function.comp_apply, Segment.pending_withdrawn, Segment.members_withdrawn]
          refine iff_of_true (Finset.mem_insert_self _ _) ⟨?_, rfl⟩
          exact (h.mem_members_iff hold hstate).mpr (mem_ascending.mp hid)
        · rw [mem_ascending] at hid
          rw [h.mem_pending_iff hold hstate, h.mem_members_iff hold hstate]
          exact iff_of_false (fun hand => hid hand.1) fun hand => hid hand.1
      · intro id segment hlookup
        rcases ht.lookup_cases hlookup with ⟨-, old, hold, rfl⟩ | ⟨-, hold⟩
        · rw [Function.comp_apply, Segment.members_withdrawn]
          exact (h.mem_members_iff hold hstate).trans Iff.rfl
        · exact (h.mem_members_iff hold hstate).trans Iff.rfl
      · intro id hid
        exact ht.mem_segments.mpr (h.known hstate id hid)
      · intro id hid
        exact ht.mem_segments.mpr hid
    · rw [ht.unsaturated ⟨h.unpinned, h.reclaiming, h.heldBytes, h.heldSegments⟩]
      rw [h.unsaturated, decide_eq_false (Nat.not_lt.mpr hle), Bool.false_or]

theorem Within.rewind (h : ledger.Within current) (tenant : TenantId) :
    (ledger.rewind tenant).Within current := by
  unfold SegmentLedger.rewind
  split
  · exact h
  · rename_i state hstate
    generalize hrewound : ({ ledger with
      tenants := _, behindTotal := _, saturated := _ } : SegmentLedger) = rewound
    have ht := touchesAll_foldl (fun ledger id => touches_repossess ledger tenant id)
      (nodup_ascending state.segments) rewound
    have hwithin : rewound.Within current := by
      subst hrewound
      refine h.reposition rfl rfl ?_
      intro bound hbound
      cases hbound
    refine ⟨?_, ?_, ?_⟩
    · intro id hid
      exact hwithin.segments id (ht.mem_segments.mp hid)
    · rw [ht.tenants]
      exact hwithin.cursor
    · intro segment hlookup
      rcases ht.lookup_cases hlookup with ⟨-, old, -, rfl⟩ | ⟨-, hold⟩
      · exact Segment.state_withdrawn
      · exact hwithin.eligible segment hold

/-- A horizon is read by the walk alone. -/
theorem Exact.setHorizon (h : ledger.Exact) (marks : Marks) (tenant : TenantId) :
    (ledger.setHorizon marks tenant).Exact := by
  unfold SegmentLedger.setHorizon
  split
  · exact h
  · rename_i state hstate
    refine ⟨⟨h.unpinned, h.reclaiming, h.heldBytes, h.heldSegments⟩, ?_, ?_, h.unsaturated⟩
    · refine h.toCounted.reposition rfl ?_ ?_
      · exact (h.behind hstate).trans rfl
      · rw [hstate, Option.elim_some]
    · have hknown := h.known hstate
      refine h.toLinked.reposition rfl ?_ ?_ ?_ hknown fun _ => id
      · intro id segment hlookup
        exact ⟨segment, hlookup, fun _ _ => ⟨Iff.rfl, Iff.rfl⟩⟩
      · intro id segment hlookup
        rw [h.mem_pending_iff hlookup hstate, h.mem_members_iff hlookup hstate]
      · intro id segment hlookup
        exact (h.mem_members_iff hlookup hstate).trans Iff.rfl

theorem Within.setHorizon (h : ledger.Within current) (marks : Marks) (tenant : TenantId) :
    (ledger.setHorizon marks tenant).Within current := by
  unfold SegmentLedger.setHorizon
  split
  · exact h
  · rename_i state hstate
    refine h.reposition rfl rfl ?_
    intro bound hbound
    have hcursor : state.cursor = some bound := hbound
    have hbelow := h.cursor hstate hcursor
    exact hbelow

/-- The ledger is exact and lies at or below the append target. -/
def Sound (current : Uuid) (ledger : SegmentLedger) : Prop :=
  ledger.Exact ∧ ledger.Within current

/-- What every operation of a loop keeps, the loop keeps. -/
theorem foldl_keeps {ι : Type} {holds : SegmentLedger → Prop}
    {operate : SegmentLedger → ι → SegmentLedger}
    (hoperate : ∀ ledger item, holds ledger → holds (operate ledger item)) (items : List ι)
    (h : holds ledger) : holds (items.foldl operate ledger) := by
  induction items generalizing ledger with
  | nil => exact h
  | cons item items ih => exact ih (hoperate ledger item h)

theorem Sound.receive (h : ledger.Sound current) (marks : Marks) :
    (ledger.receive marks).Sound current := by
  apply foldl_keeps
  · intro ledger tenant hledger
    exact ⟨hledger.1.setHorizon marks tenant, hledger.2.setHorizon marks tenant⟩
  · apply foldl_keeps _ _ h
    intro ledger tenant hledger
    exact ⟨hledger.1.rewind tenant, hledger.2.rewind tenant⟩

/-- The segments above a cursor are the first of them and those above it. -/
theorem filter_isAbove_of_min {segments : Finset Uuid} {cursor : Option Uuid}
    (hmin : (segments.filter fun other => isAbove cursor other).min = some id) :
    (segments.filter fun other => isAbove cursor other) =
      insert id (segments.filter fun other => isAbove (some id) other) := by
  have hid := Finset.mem_filter.mp (Finset.mem_of_min hmin)
  ext other
  rw [Finset.mem_insert, Finset.mem_filter, Finset.mem_filter, isAbove_some]
  constructor
  · rintro ⟨hother, habove⟩
    have hle : id ≤ other := Finset.min_le_of_eq (Finset.mem_filter.mpr ⟨hother, habove⟩) hmin
    rcases eq_or_lt_of_le hle with rfl | hlt
    · exact .inl rfl
    · exact .inr ⟨hother, hlt⟩
  · rintro (rfl | ⟨hother, hlt⟩)
    · exact hid
    · refine ⟨hother, ?_⟩
      cases cursor with
      | none => rfl
      | some bound => exact isAbove_some.mpr (lt_trans (isAbove_some.mp hid.2) hlt)

theorem notMem_filter_isAbove_self (segments : Finset Uuid) (id : Uuid) :
    id ∉ segments.filter fun other => isAbove (some id) other := by
  rw [Finset.mem_filter, isAbove_some]
  exact fun hand => lt_irrefl id hand.2

/-- The first segment above a tenant's cursor is applied. -/
theorem Exact.applyTo {state : Tenant} (h : ledger.Exact)
    (hstate : ledger.tenants.lookup tenant = some state)
    (hmin : (state.segments.filter fun other => isAbove state.cursor other).min = some id) :
    (ledger.applyTo tenant id).Exact := by
  have ht := touches_unpin ledger tenant id
  have htallied := ht.tallied h.toTallied
  have hfilter := filter_isAbove_of_min hmin
  have hcard : state.behind =
      (state.segments.filter fun other => isAbove (some id) other).card + 1 := by
    rw [h.behind hstate, hfilter, Finset.card_insert_of_notMem (notMem_filter_isAbove_self _ _)]
  have hle : state.behind ≤ ledger.behindTotal := by
    rw [h.behindTotal]
    exact measure_le_total Tenant.behind hstate
  unfold SegmentLedger.applyTo
  dsimp only
  rw [ht.tenants, hstate]
  refine ⟨⟨htallied.unpinned, htallied.reclaiming, htallied.heldBytes, htallied.heldSegments⟩,
    ?_, ?_, ?_⟩
  · refine h.toCounted.reposition rfl ?_ ?_
    · dsimp only
      omega
    · rw [hstate, Option.elim_some]
      change (ledger.unpin tenant id).behindTotal - 1 + state.behind =
        ledger.behindTotal + (state.behind - 1)
      rw [ht.behindTotal]
      omega
  · refine h.toLinked.reposition rfl ?_ ?_ ?_ ?_ ?_
    · intro other segment hlookup
      rcases ht.lookup_cases hlookup with ⟨rfl, old, hold, rfl⟩ | ⟨-, hold⟩
      · refine ⟨old, hold, ?_⟩
        intro another hne
        exact ⟨Finset.mem_erase.trans (and_iff_right hne), Iff.rfl⟩
      · exact ⟨segment, hold, fun _ _ => ⟨Iff.rfl, Iff.rfl⟩⟩
    · intro other segment hlookup
      rcases ht.lookup_cases hlookup with ⟨rfl, old, hold, rfl⟩ | ⟨hne, hold⟩
      · refine iff_of_false (Finset.notMem_erase _ _) ?_
        intro hand
        exact lt_irrefl _ (isAbove_some.mp hand.2)
      · have hiff : other ∈ (state.segments.filter fun other => isAbove state.cursor other) ↔
            other ∈ state.segments.filter fun other => isAbove (some id) other := by
          rw [hfilter, Finset.mem_insert, or_iff_right hne]
        rw [Finset.mem_filter, Finset.mem_filter] at hiff
        rw [h.mem_pending_iff hold hstate, h.mem_members_iff hold hstate]
        exact hiff
    · intro other segment hlookup
      rcases ht.lookup_cases hlookup with ⟨rfl, old, hold, rfl⟩ | ⟨-, hold⟩
      · exact (h.mem_members_iff hold hstate).trans Iff.rfl
      · exact (h.mem_members_iff hold hstate).trans Iff.rfl
    · intro other hother
      exact ht.mem_segments.mpr (h.known hstate other hother)
    · intro other hother
      exact ht.mem_segments.mpr hother
  · change ((ledger.unpin tenant id).saturated || decide (state.behind < 1) ||
      decide ((ledger.unpin tenant id).behindTotal < 1)) = false
    rw [ht.unsaturated h.toTallied, h.unsaturated, ht.behindTotal,
      decide_eq_false (by omega), decide_eq_false (by omega)]
    rfl

theorem Within.applyTo {state : Tenant} (h : ledger.Within current) (hlinked : ledger.Linked)
    (hstate : ledger.tenants.lookup tenant = some state) (hid : id ∈ state.segments) :
    (ledger.applyTo tenant id).Within current := by
  have ht := touches_unpin ledger tenant id
  have hreleased := ht.within h fun _ _ hsegment => hsegment
  unfold SegmentLedger.applyTo
  dsimp only
  rw [ht.tenants, hstate]
  refine hreleased.reposition (by rw [ht.tenants]) rfl ?_
  intro bound hbound
  cases hbound
  refine ⟨h.segments id (hlinked.known hstate id hid), ?_⟩
  rintro rfl
  exact hid

theorem Sound.step (h : ledger.Sound current) (hstep : ledger.step tenant = some after) :
    after.Sound current := by
  obtain ⟨id, hnext, rfl⟩ := Option.map_eq_some_iff.mp hstep
  unfold nextCovered at hnext
  split at hnext
  · cases hnext
  · rename_i state hstate
    split at hnext
    · cases hnext
    · rename_i next hmin
      split at hnext
      · cases hnext
        have hid := (Finset.mem_filter.mp (Finset.mem_of_min hmin)).1
        exact ⟨h.1.applyTo hstate hmin, h.2.applyTo h.1.toLinked hstate hid⟩
      · cases hnext

/-- The walk takes steps. -/
theorem walkFrom_keeps {holds : SegmentLedger → Prop}
    (hstep : ∀ {ledger after tenant}, holds ledger → step ledger tenant = some after → holds after)
    (turns : ℕ) (h : holds ledger) (budget : ℕ) (active : List TenantId) :
    holds (walkFrom turns ledger budget active).1 := by
  induction turns generalizing ledger budget active with
  | zero => exact h
  | succ turns ih =>
    unfold walkFrom
    split
    · exact h
    · split
      · exact h
      · split
        · rename_i stepped hstepped
          exact ih (hstep h hstepped) _ _
        · exact ih h _ _

theorem Sound.figures (h : ledger.Sound current) (consumer : Bool) (floor : RetainFloor) :
    { ledger with consumer := consumer, floor := floor }.Sound current :=
  ⟨⟨⟨h.1.unpinned, h.1.reclaiming, h.1.heldBytes, h.1.heldSegments⟩, ⟨h.1.behind, h.1.behindTotal⟩,
    ⟨h.1.pending, h.1.members, h.1.known⟩, h.1.unsaturated⟩,
    ⟨h.2.segments, h.2.cursor, h.2.eligible⟩⟩

/-- Applying horizons keeps the ledger exact. -/
theorem Sound.apply (h : ledger.Sound current) (horizons : SnapshotHorizons) (budget : ℕ)
    (order : List TenantId) : (ledger.apply horizons budget order).1.Sound current := by
  cases horizons with
  | noConsumer => exact h.figures _ _
  | known marks =>
    have hreceived := (h.figures true ledger.floor).receive marks
    exact (walkFrom_keeps Sound.step _ hreceived _ _).figures _ _

end Horizons

end SegmentLedger

end Ourios.Retain
