/-
# The ledger's sets and counters are exact

What the ledger keeps beside its two maps is a function of them: `Tallied` for what
stands beside the segments, `Counted` for what stands beside the tenants, `Linked` for
what ties the tenants' cursors to the segments' pending sets. An operation on one
segment is described once, by `Touches`; everything else follows from the description.
-/

import Ourios.Wal.Ledger

namespace Ourios.Retain

open Ourios.Foundation

/-! ## Exactness -/

variable (segment : Segment)

namespace Segment

/-- Nothing holds the segment and no pass has it. -/
def IsFree : Prop := segment.state = .eligible ∧ segment.pending = ∅

def IsReclaiming : Prop := segment.state ≠ .eligible

def heldBytes : ℕ := if segment.pending = ∅ then 0 else segment.bytes

/-- What a segment adds to the held segments. -/
def heldCount : ℕ := if segment.pending = ∅ then 0 else 1

end Segment

namespace SegmentLedger

/-- What stands beside the segments is what they say. -/
structure Tallied (ledger : SegmentLedger) : Prop where
  unpinned : Indexes Segment.IsFree ledger.segments ledger.unpinned
  reclaiming : Indexes Segment.IsReclaiming ledger.segments ledger.reclaiming
  heldBytes : ledger.heldBytes = total Segment.heldBytes ledger.segments
  heldSegments : ledger.heldSegments = total Segment.heldCount ledger.segments

/-- What stands beside the tenants is what they say. -/
structure Counted (ledger : SegmentLedger) : Prop where
  behind : ∀ {tenant state}, ledger.tenants.lookup tenant = some state →
    state.behind = (state.segments.filter fun id => isAbove state.cursor id).card
  behindTotal : ledger.behindTotal = total Tenant.behind ledger.tenants

def cursor (ledger : SegmentLedger) (tenant : TenantId) : Option Uuid :=
  (ledger.tenants.lookup tenant).bind Tenant.cursor

/-- The tenants that hold a segment back are its members it lies above the cursor of. -/
structure Linked (ledger : SegmentLedger) : Prop where
  pending : ∀ {id segment}, ledger.segments.lookup id = some segment → ∀ tenant,
    tenant ∈ segment.pending ↔ tenant ∈ segment.members ∧ isAbove (ledger.cursor tenant) id
  members : ∀ {id segment}, ledger.segments.lookup id = some segment → ∀ tenant,
    tenant ∈ segment.members ↔
      ∃ state, ledger.tenants.lookup tenant = some state ∧ id ∈ state.segments
  known : ∀ {tenant state}, ledger.tenants.lookup tenant = some state →
    ∀ id ∈ state.segments, id ∈ ledger.segments

/-- The members of a segment are the tenants that have it. -/
theorem Linked.mem_members_iff {ledger : SegmentLedger} {id : Uuid} {segment : Segment}
    {tenant : TenantId} {state : Tenant} (h : ledger.Linked)
    (hlookup : ledger.segments.lookup id = some segment)
    (hstate : ledger.tenants.lookup tenant = some state) :
    tenant ∈ segment.members ↔ id ∈ state.segments := by
  rw [h.members hlookup tenant, hstate]
  constructor
  · rintro ⟨found, hfound, hid⟩
    cases hfound
    exact hid
  · intro hid
    exact ⟨state, rfl, hid⟩

/-- The tenants that hold a segment back, by their states. -/
theorem Linked.mem_pending_iff {ledger : SegmentLedger} {id : Uuid} {segment : Segment}
    {tenant : TenantId} {state : Tenant} (h : ledger.Linked)
    (hlookup : ledger.segments.lookup id = some segment)
    (hstate : ledger.tenants.lookup tenant = some state) :
    tenant ∈ segment.pending ↔ id ∈ state.segments ∧ isAbove state.cursor id := by
  rw [h.pending hlookup tenant, h.mem_members_iff hlookup hstate]
  unfold cursor
  rw [hstate]
  rfl

/-- Every set and counter is exact, and no subtraction has stopped at zero. -/
structure Exact (ledger : SegmentLedger) : Prop extends Tallied ledger, Counted ledger,
    Linked ledger where
  unsaturated : ledger.saturated = false

/-! ## Operations on one segment -/

/-- What an operation on one segment does: that segment becomes what `change` makes of
it, every other one and the tenants stay, and the tallies stay exact. -/
structure Touches (ledger after : SegmentLedger) (id : Uuid) (change : Segment → Segment) :
    Prop where
  segments : ∀ other, after.segments.lookup other =
    if other = id then (ledger.segments.lookup id).map change else ledger.segments.lookup other
  tenants : after.tenants = ledger.tenants
  behindTotal : after.behindTotal = ledger.behindTotal
  tallied : ledger.Tallied → after.Tallied
  unsaturated : ledger.Tallied → after.saturated = ledger.saturated

section Touches

variable {ledger after : SegmentLedger} {id : Uuid} {segment old : Segment}

/-- The tallies stay exact when one segment changes and they change with it. -/
theorem Tallied.set (h : ledger.Tallied) (hlookup : ledger.segments.lookup id = some old)
    (hsegments : after.segments = ledger.segments.insert id segment)
    (hunpinned : id ∈ after.unpinned ↔ segment.IsFree)
    (hunpinnedOther : ∀ other, other ≠ id → (other ∈ after.unpinned ↔ other ∈ ledger.unpinned))
    (hreclaiming : id ∈ after.reclaiming ↔ segment.IsReclaiming)
    (hreclaimingOther : ∀ other, other ≠ id →
      (other ∈ after.reclaiming ↔ other ∈ ledger.reclaiming))
    (hbytes : after.heldBytes + old.heldBytes = ledger.heldBytes + segment.heldBytes)
    (hcount : after.heldSegments + old.heldCount = ledger.heldSegments + segment.heldCount) :
    after.Tallied := by
  refine ⟨?_, ?_, ?_, ?_⟩
  · rw [hsegments]
    exact h.unpinned.set hunpinned hunpinnedOther
  · rw [hsegments]
    exact h.reclaiming.set hreclaiming hreclaimingOther
  · have htotal := total_insert_add Segment.heldBytes segment hlookup
    rw [hsegments]
    have hbefore := h.heldBytes
    omega
  · have htotal := total_insert_add Segment.heldCount segment hlookup
    rw [hsegments]
    have hbefore := h.heldSegments
    omega

/-- An operation that finds no segment does nothing. -/
theorem Touches.absent (hlookup : ledger.segments.lookup id = none)
    (change : Segment → Segment) : ledger.Touches ledger id change where
  segments other := by
    split
    · rename_i heq
      rw [heq, hlookup, Option.map_none]
    · rfl
  tenants := rfl
  behindTotal := rfl
  tallied h := h
  unsaturated _ := rfl

/-- An operation that leaves its segment as it is. -/
theorem Touches.same (hlookup : ledger.segments.lookup id = some segment)
    {change : Segment → Segment} (hchange : change segment = segment) :
    ledger.Touches ledger id change where
  segments other := by
    split
    · rename_i heq
      rw [heq, hlookup, Option.map_some, hchange]
    · rfl
  tenants := rfl
  behindTotal := rfl
  tallied h := h
  unsaturated _ := rfl

theorem lookup_insert_map (hlookup : ledger.segments.lookup id = some old)
    (change : Segment → Segment) (other : Uuid) :
    (ledger.segments.insert id (change old)).lookup other =
      if other = id then (ledger.segments.lookup id).map change
      else ledger.segments.lookup other := by
  rw [lookup_insert_ite, hlookup, Option.map_some]

end Touches

end SegmentLedger

namespace Segment

/-- A tenant holds the segment. -/
def pinnedBy (tenant : TenantId) (segment : Segment) : Segment :=
  { segment with pending := insert tenant segment.pending }

/-- A tenant lets the segment go. -/
def releasedBy (tenant : TenantId) (segment : Segment) : Segment :=
  { segment with pending := segment.pending.erase tenant }

/-- A tenant has a span in the segment. -/
def spanning (tenant : TenantId) (span : Span) (segment : Segment) : Segment :=
  { segment with members := segment.members.insert tenant span }

/-- The segment out of its pass. -/
def withdrawn : Segment :=
  match segment.state with
  | .eligible => segment
  | .reclaiming uncertain =>
    { segment with attempted := segment.attempted || uncertain, state := .eligible }

/-- The segment out of a pass that did not unlink it. -/
def restored : Segment :=
  { segment with
    state := .eligible
    attempted :=
      match segment.state with
      | .reclaiming uncertain => uncertain
      | .eligible => false }

/-- The segment after a failed or uncertain unlink. -/
def heldBack (uncertain : Bool) (segment : Segment) : Segment :=
  { segment with state := .reclaiming uncertain, attempted := false }

/-- The segment in a pass. -/
def taken : Segment :=
  { segment with
    state := .reclaiming (segment.attempted || segment.state = .reclaiming true)
    attempted := true }

variable {segment : Segment} {tenant : TenantId}

theorem heldBytes_of_empty (h : segment.pending = ∅) : segment.heldBytes = 0 := if_pos h

theorem heldBytes_of_ne (h : segment.pending ≠ ∅) : segment.heldBytes = segment.bytes := if_neg h

theorem heldCount_of_empty (h : segment.pending = ∅) : segment.heldCount = 0 := if_pos h

theorem heldCount_of_ne (h : segment.pending ≠ ∅) : segment.heldCount = 1 := if_neg h

theorem mem_members_spanning {span : Span} {other : TenantId} :
    other ∈ (segment.spanning tenant span).members ↔ other = tenant ∨ other ∈ segment.members :=
  AList.mem_insert _

theorem members_withdrawn : segment.withdrawn.members = segment.members := by
  unfold withdrawn
  split
  · rfl
  · rfl

theorem pending_withdrawn : segment.withdrawn.pending = segment.pending := by
  unfold withdrawn
  split
  · rfl
  · rfl

theorem state_withdrawn : segment.withdrawn.state = .eligible := by
  unfold withdrawn
  split
  · assumption
  · rfl

theorem pending_pinnedBy_ne : (segment.pinnedBy tenant).pending ≠ ∅ :=
  Finset.insert_ne_empty _ _

end Segment

namespace SegmentLedger

section Operations

variable {ledger after : SegmentLedger} {id : Uuid} {segment old : Segment}

theorem touches_pin (ledger : SegmentLedger) (tenant : TenantId) (id : Uuid) :
    ledger.Touches (ledger.pin tenant id).1 id (Segment.pinnedBy tenant) := by
  unfold pin
  split
  · rename_i hlookup
    exact .absent hlookup _
  · rename_i segment hlookup
    split
    · rename_i hmem
      apply Touches.same hlookup
      unfold Segment.pinnedBy
      rw [Finset.insert_eq_of_mem hmem]
    · have hne : (segment.pinnedBy tenant).pending ≠ ∅ := Segment.pending_pinnedBy_ne
      refine ⟨lookup_insert_map hlookup (Segment.pinnedBy tenant), rfl, rfl, ?_, fun _ => rfl⟩
      intro h
      refine h.set hlookup rfl ?_ ?_ ?_ ?_ ?_ ?_
      · exact iff_of_false (Finset.notMem_erase _ _) fun hfree => hne hfree.2
      · intro other hother
        rw [Finset.mem_erase, and_iff_right hother]
      · exact (h.reclaiming.mem_iff hlookup).trans Iff.rfl
      · intro other hother
        exact Iff.rfl
      · change
          (if segment.pending = ∅ then ledger.heldBytes + segment.bytes else ledger.heldBytes) +
          segment.heldBytes = ledger.heldBytes + (segment.pinnedBy tenant).heldBytes
        rw [Segment.heldBytes_of_ne hne]
        by_cases hempty : segment.pending = ∅
        · rw [if_pos hempty, Segment.heldBytes_of_empty hempty]
          rfl
        · rw [if_neg hempty, Segment.heldBytes_of_ne hempty]
          rfl
      · change (if segment.pending = ∅ then ledger.heldSegments + 1 else ledger.heldSegments) +
          segment.heldCount = ledger.heldSegments + (segment.pinnedBy tenant).heldCount
        rw [Segment.heldCount_of_ne hne]
        by_cases hempty : segment.pending = ∅
        · rw [if_pos hempty, Segment.heldCount_of_empty hempty]
        · rw [if_neg hempty, Segment.heldCount_of_ne hempty]

/-- A change of a segment that is held as before and as free as before. -/
theorem Tallied.keep (h : ledger.Tallied) (hlookup : ledger.segments.lookup id = some old)
    (hpending : segment.pending = ∅ ↔ old.pending = ∅) (hbytes : segment.bytes = old.bytes)
    (hstate : segment.state = old.state) :
    { ledger with segments := ledger.segments.insert id segment }.Tallied := by
  have hfree : segment.IsFree ↔ old.IsFree := by
    unfold Segment.IsFree
    rw [hpending, hstate]
  have hreclaiming : segment.IsReclaiming ↔ old.IsReclaiming := by
    unfold Segment.IsReclaiming
    rw [hstate]
  have hheld : segment.heldBytes = old.heldBytes := by
    unfold Segment.heldBytes
    rw [hbytes]
    exact if_congr hpending rfl rfl
  have hcount : segment.heldCount = old.heldCount := if_congr hpending rfl rfl
  refine ⟨h.unpinned.keep hlookup hfree, h.reclaiming.keep hlookup hreclaiming, ?_, ?_⟩
  · exact h.heldBytes.trans (total_insert_same _ hlookup hheld).symm
  · exact h.heldSegments.trans (total_insert_same _ hlookup hcount).symm

theorem touches_unpin (ledger : SegmentLedger) (tenant : TenantId) (id : Uuid) :
    ledger.Touches (ledger.unpin tenant id) id (Segment.releasedBy tenant) := by
  unfold unpin
  split
  · rename_i hlookup
    exact .absent hlookup _
  · rename_i segment hlookup
    dsimp only
    split
    · rename_i hstays
      refine ⟨lookup_insert_map hlookup (Segment.releasedBy tenant), rfl, rfl, ?_, fun _ => rfl⟩
      intro h
      have hempty : (segment.releasedBy tenant).pending = ∅ ↔ segment.pending = ∅ := by
        change segment.pending.erase tenant = ∅ ↔ segment.pending = ∅
        rcases hstays with hnot | hrest
        · rw [Finset.erase_eq_of_notMem hnot]
        · refine iff_of_false hrest ?_
          intro hempty
          apply hrest
          rw [hempty, Finset.erase_empty]
      exact h.keep hlookup hempty rfl rfl
    · rename_i hleaves
      rw [not_or, not_not, not_not] at hleaves
      obtain ⟨hmem, hempty⟩ := hleaves
      have hne : segment.pending ≠ ∅ := Finset.ne_empty_of_mem hmem
      have hbytes : ledger.Tallied → segment.bytes ≤ ledger.heldBytes := by
        intro h
        rw [h.heldBytes, ← Segment.heldBytes_of_ne hne]
        exact measure_le_total _ hlookup
      have hcount : ledger.Tallied → 1 ≤ ledger.heldSegments := by
        intro h
        rw [h.heldSegments, ← Segment.heldCount_of_ne hne]
        exact measure_le_total _ hlookup
      have hreleased : (segment.releasedBy tenant).pending = ∅ := hempty
      refine ⟨lookup_insert_map hlookup (Segment.releasedBy tenant), rfl, rfl, ?_, ?_⟩
      · intro h
        refine h.set hlookup rfl ?_ ?_ ?_ ?_ ?_ ?_
        · by_cases hstate : segment.state = .eligible
          · rw [if_pos hstate]
            exact iff_of_true (Finset.mem_insert_self _ _) ⟨hstate, hempty⟩
          · rw [if_neg hstate, h.unpinned.mem_iff hlookup]
            exact iff_of_false (fun hfree => hstate hfree.1) fun hfree => hstate hfree.1
        · intro other hother
          split
          · rw [Finset.mem_insert, or_iff_right hother]
          · rfl
        · exact (h.reclaiming.mem_iff hlookup).trans Iff.rfl
        · intro other hother
          exact Iff.rfl
        · change ledger.heldBytes - segment.bytes + segment.heldBytes =
            ledger.heldBytes + (segment.releasedBy tenant).heldBytes
          rw [Segment.heldBytes_of_ne hne, Segment.heldBytes_of_empty hreleased]
          have hle := hbytes h
          omega
        · change ledger.heldSegments - 1 + segment.heldCount =
            ledger.heldSegments + (segment.releasedBy tenant).heldCount
          rw [Segment.heldCount_of_ne hne, Segment.heldCount_of_empty hreleased]
          have hle := hcount h
          omega
      · intro h
        rw [decide_eq_false (Nat.not_lt.mpr (hbytes h)),
          decide_eq_false (Nat.not_lt.mpr (hcount h)), Bool.or_false, Bool.or_false]

/-- A change of the state of a segment that is held as before. -/
theorem Tallied.restate (h : ledger.Tallied) (hlookup : ledger.segments.lookup id = some old)
    (hsegments : after.segments = ledger.segments.insert id segment)
    (hpending : segment.pending = old.pending) (hbytes : segment.bytes = old.bytes)
    (hheldBytes : after.heldBytes = ledger.heldBytes)
    (hheldSegments : after.heldSegments = ledger.heldSegments)
    (hunpinned : id ∈ after.unpinned ↔ segment.IsFree)
    (hunpinnedOther : ∀ other, other ≠ id → (other ∈ after.unpinned ↔ other ∈ ledger.unpinned))
    (hreclaiming : id ∈ after.reclaiming ↔ segment.IsReclaiming)
    (hreclaimingOther : ∀ other, other ≠ id →
      (other ∈ after.reclaiming ↔ other ∈ ledger.reclaiming)) : after.Tallied := by
  apply h.set hlookup hsegments hunpinned hunpinnedOther hreclaiming hreclaimingOther
  · unfold Segment.heldBytes
    rw [hpending, hbytes, hheldBytes]
  · unfold Segment.heldCount
    rw [hpending, hheldSegments]

/-- A segment becomes eligible: it joins the unpinned ones where nothing holds it. -/
theorem Tallied.release (h : ledger.Tallied) (hlookup : ledger.segments.lookup id = some old)
    (hstate : segment.state = .eligible) (hpending : segment.pending = old.pending)
    (hbytes : segment.bytes = old.bytes) :
    { ledger with
      segments := ledger.segments.insert id segment
      reclaiming := ledger.reclaiming.erase id
      unpinned := if old.pending = ∅ then insert id ledger.unpinned
        else ledger.unpinned }.Tallied := by
  refine h.restate hlookup rfl hpending hbytes rfl rfl ?_ ?_ ?_ ?_
  · unfold Segment.IsFree
    rw [hpending]
    by_cases hempty : old.pending = ∅
    · rw [if_pos hempty]
      exact iff_of_true (Finset.mem_insert_self _ _) ⟨hstate, hempty⟩
    · rw [if_neg hempty, h.unpinned.mem_iff hlookup]
      exact iff_of_false (fun hfree => hempty hfree.2) fun hfree => hempty hfree.2
  · intro other hother
    split
    · rw [Finset.mem_insert, or_iff_right hother]
    · rfl
  · exact iff_of_false (Finset.notMem_erase _ _) fun hreclaiming => hreclaiming hstate
  · intro other hother
    rw [Finset.mem_erase, and_iff_right hother]

theorem touches_withdraw (ledger : SegmentLedger) (id : Uuid) :
    ledger.Touches (ledger.withdraw id) id Segment.withdrawn := by
  unfold withdraw
  split
  · rename_i hlookup
    exact .absent hlookup _
  · rename_i segment hlookup
    split
    · rename_i hstate
      apply Touches.same hlookup
      unfold Segment.withdrawn
      rw [hstate]
    · rename_i uncertain hstate
      have hwithdrawn : segment.withdrawn = { segment with
          attempted := segment.attempted || uncertain, state := .eligible } := by
        unfold Segment.withdrawn
        rw [hstate]
      rw [← hwithdrawn]
      refine ⟨lookup_insert_map hlookup _, rfl, rfl, ?_, fun _ => rfl⟩
      intro h
      rw [hwithdrawn]
      exact h.release hlookup rfl rfl rfl

theorem touches_restore (ledger : SegmentLedger) (id : Uuid) :
    ledger.Touches (ledger.restore id) id Segment.restored := by
  unfold restore
  split
  · rename_i hlookup
    exact .absent hlookup _
  · rename_i segment hlookup
    refine ⟨lookup_insert_map hlookup Segment.restored, rfl, rfl, ?_, fun _ => rfl⟩
    intro h
    have hreclaiming : (if segment.state = .eligible then ledger.reclaiming
        else ledger.reclaiming.erase id) = ledger.reclaiming.erase id := by
      split
      · rename_i hstate
        rw [Finset.erase_eq_of_notMem]
        rw [h.reclaiming.mem_iff hlookup]
        exact fun hreclaiming => hreclaiming hstate
      · rfl
    rw [hreclaiming]
    exact h.release hlookup rfl rfl rfl

/-- A segment that is in a pass stays in it. -/
theorem touches_hold (hreclaiming : ∀ segment, ledger.segments.lookup id = some segment →
    segment.IsReclaiming) (uncertain : Bool) :
    ledger.Touches (ledger.hold id uncertain) id (Segment.heldBack uncertain) := by
  unfold hold
  split
  · rename_i hlookup
    exact .absent hlookup _
  · rename_i segment hlookup
    refine ⟨lookup_insert_map hlookup (Segment.heldBack uncertain), rfl, rfl, ?_, fun _ => rfl⟩
    intro h
    have hbefore := hreclaiming segment hlookup
    have hafter : (segment.heldBack uncertain).IsReclaiming := by
      intro hstate
      cases hstate
    refine h.restate hlookup rfl rfl rfl rfl rfl ?_ ?_ ?_ ?_
    · refine (h.unpinned.mem_iff hlookup).trans ?_
      exact iff_of_false (fun hfree => hbefore hfree.1) fun hfree => hafter hfree.1
    · intro other hother
      exact Iff.rfl
    · exact (h.reclaiming.mem_iff hlookup).trans (iff_of_true hbefore hafter)
    · intro other hother
      exact Iff.rfl

/-- A popped segment is in the pass. -/
theorem touches_take {current : Uuid} {popped : Popped}
    (h : ledger.take id current = some (after, popped)) :
    id ≠ current ∧ (∃ segment, ledger.segments.lookup id = some segment) ∧
      popped.segment = id ∧ ledger.Touches after id Segment.taken := by
  unfold take at h
  split at h
  · cases h
  · rename_i hne
    split at h
    · cases h
    · rename_i segment hlookup
      cases h
      refine ⟨hne, ⟨segment, hlookup⟩, rfl, ?_⟩
      refine ⟨lookup_insert_map hlookup Segment.taken, rfl, rfl, ?_, fun _ => rfl⟩
      intro h
      have hafter : segment.taken.IsReclaiming := by
        intro hstate
        cases hstate
      refine h.restate hlookup rfl rfl rfl rfl rfl ?_ ?_ ?_ ?_
      · exact iff_of_false (Finset.notMem_erase _ _) fun hfree => hafter hfree.1
      · intro other hother
        rw [Finset.mem_erase, and_iff_right hother]
      · refine iff_of_true ?_ hafter
        split
        · exact Finset.mem_insert_self _ _
        · rename_i hstate
          exact (h.reclaiming.mem_iff hlookup).mpr hstate
      · intro other hother
        split
        · rw [Finset.mem_insert, or_iff_right hother]
        · rfl

end Operations

/-! ## One segment, and the whole ledger -/

section Exact

variable {ledger after : SegmentLedger} {id : Uuid} {change : Segment → Segment}

theorem Touches.lookup_self {segment : Segment} (ht : ledger.Touches after id change)
    (hlookup : ledger.segments.lookup id = some segment) :
    after.segments.lookup id = some (change segment) := by
  rw [ht.segments, if_pos rfl, hlookup, Option.map_some]

variable {other : Uuid}

section

variable (ht : ledger.Touches after id change)
include ht

theorem Touches.lookup_ne (hne : other ≠ id) :
    after.segments.lookup other = ledger.segments.lookup other := by
  rw [ht.segments, if_neg hne]

/-- A segment after an operation is one before it, or what the operation made of one. -/
theorem Touches.lookup_cases {segment : Segment} (h : after.segments.lookup other = some segment) :
    (other = id ∧ ∃ old, ledger.segments.lookup id = some old ∧ segment = change old) ∨
      (other ≠ id ∧ ledger.segments.lookup other = some segment) := by
  by_cases hne : other = id
  · subst hne
    rw [ht.segments, if_pos rfl] at h
    obtain ⟨old, hold, hchange⟩ := Option.map_eq_some_iff.mp h
    exact .inl ⟨rfl, old, hold, hchange.symm⟩
  · rw [ht.lookup_ne hne] at h
    exact .inr ⟨hne, h⟩

theorem Touches.mem_segments : other ∈ after.segments ↔ other ∈ ledger.segments := by
  rw [← AList.lookup_isSome, ← AList.lookup_isSome, ht.segments]
  split
  · rename_i heq
    rw [heq, Option.isSome_map]
  · rfl

theorem Touches.comp {last : SegmentLedger} {next : Segment → Segment}
    (hnext : after.Touches last id next) :
    ledger.Touches last id (next ∘ change) where
  segments other := by
    rw [hnext.segments, ht.segments, ht.segments, if_pos rfl, Option.map_map]
    split
    · rfl
    · rfl
  tenants := hnext.tenants.trans ht.tenants
  behindTotal := hnext.behindTotal.trans ht.behindTotal
  tallied h := hnext.tallied (ht.tallied h)
  unsaturated h := (hnext.unsaturated (ht.tallied h)).trans (ht.unsaturated h)

theorem Touches.counted (h : ledger.Counted) : after.Counted where
  behind := by
    rw [ht.tenants]
    exact h.behind
  behindTotal := by
    rw [ht.tenants, ht.behindTotal]
    exact h.behindTotal

theorem Touches.cursor_eq (tenant : TenantId) : after.cursor tenant = ledger.cursor tenant := by
  unfold cursor
  rw [ht.tenants]

/-- An operation that leaves the members and the pending tenants of its segment keeps the
links. -/
theorem Touches.linked (h : ledger.Linked)
    (hmembers : ∀ segment, ledger.segments.lookup id = some segment → ∀ tenant,
      tenant ∈ (change segment).members ↔ tenant ∈ segment.members)
    (hpending : ∀ segment, (change segment).pending = segment.pending) : after.Linked where
  pending := by
    intro other segment hlookup tenant
    rw [ht.cursor_eq]
    rcases ht.lookup_cases hlookup with ⟨rfl, old, hold, rfl⟩ | ⟨-, hold⟩
    · rw [hmembers old hold, hpending]
      exact h.pending hold tenant
    · exact h.pending hold tenant
  members := by
    intro other segment hlookup tenant
    rw [ht.tenants]
    rcases ht.lookup_cases hlookup with ⟨rfl, old, hold, rfl⟩ | ⟨-, hold⟩
    · rw [hmembers old hold]
      exact h.members hold tenant
    · exact h.members hold tenant
  known := by
    intro tenant state hstate other hother
    rw [ht.tenants] at hstate
    exact ht.mem_segments.mpr (h.known hstate other hother)

theorem Touches.exact (h : ledger.Exact)
    (hmembers : ∀ segment, ledger.segments.lookup id = some segment → ∀ tenant,
      tenant ∈ (change segment).members ↔ tenant ∈ segment.members)
    (hpending : ∀ segment, (change segment).pending = segment.pending) : after.Exact where
  toTallied := ht.tallied h.toTallied
  toCounted := ht.counted h.toCounted
  toLinked := ht.linked h.toLinked hmembers hpending
  unsaturated := (ht.unsaturated h.toTallied).trans h.unsaturated

/-- An operation that changes only the state of its segment keeps the ledger exact. -/
theorem Touches.exact_of_same (h : ledger.Exact)
    (hmembers : ∀ segment, (change segment).members = segment.members)
    (hpending : ∀ segment, (change segment).pending = segment.pending) : after.Exact := by
  apply ht.exact h _ hpending
  intro segment hlookup tenant
  rw [hmembers]

end

theorem Exact.withdraw (h : ledger.Exact) (id : Uuid) : (ledger.withdraw id).Exact :=
  (touches_withdraw ledger id).exact_of_same h (fun _ => Segment.members_withdrawn)
    fun _ => Segment.pending_withdrawn

theorem Exact.restore (h : ledger.Exact) (id : Uuid) : (ledger.restore id).Exact :=
  (touches_restore ledger id).exact_of_same h (fun _ => rfl) fun _ => rfl

theorem Exact.hold (h : ledger.Exact) (hreclaiming : ∀ segment,
    ledger.segments.lookup id = some segment → segment.IsReclaiming) (uncertain : Bool) :
    (ledger.hold id uncertain).Exact :=
  (touches_hold hreclaiming uncertain).exact_of_same h (fun _ => rfl) fun _ => rfl

end Exact

end SegmentLedger

end Ourios.Retain
