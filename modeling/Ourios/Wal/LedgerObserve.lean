/-
# Observing keeps the ledger exact

Frames go to the append target, which only moves to newer segments. Under that
discipline a tenant that joins a segment, or is put back behind it, moves its cursor and
the pending set together.
-/

import Ourios.Wal.LedgerSpec

namespace Ourios.Retain

open Ourios.Foundation

namespace SegmentLedger

/-- The ledger lies at or below the append target. A cursor at the append target is that
of a tenant with frames in it. -/
structure Within (ledger : SegmentLedger) (current : Uuid) : Prop where
  segments : ∀ id ∈ ledger.segments, id ≤ current
  cursor : ∀ {tenant state bound}, ledger.tenants.lookup tenant = some state →
    state.cursor = some bound → bound ≤ current ∧ (bound = current → current ∈ state.segments)
  eligible : ∀ segment, ledger.segments.lookup current = some segment → segment.state = .eligible

theorem isAbove_some {bound id : Uuid} : isAbove (some bound) id = true ↔ bound < id :=
  decide_eq_true_iff

/-! ## One tenant moves -/

section Reposition

variable {ledger after : SegmentLedger} {tenant : TenantId} {state : Tenant}

theorem lookup_of_tenants (htenants : after.tenants = ledger.tenants.insert tenant state)
    {other : TenantId} (hne : other ≠ tenant) :
    after.tenants.lookup other = ledger.tenants.lookup other := by
  rw [htenants, AList.lookup_insert_ne hne]

theorem lookup_tenants_self (htenants : after.tenants = ledger.tenants.insert tenant state) :
    after.tenants.lookup tenant = some state := by
  rw [htenants, AList.lookup_insert]

/-- The links stay when one tenant's state changes, as far as the other tenants go: what is
left to show is about that tenant. -/
theorem Linked.reposition (h : ledger.Linked)
    (htenants : after.tenants = ledger.tenants.insert tenant state)
    (hothers : ∀ id segment, after.segments.lookup id = some segment →
      ∃ old, ledger.segments.lookup id = some old ∧ ∀ other, other ≠ tenant →
        (other ∈ segment.pending ↔ other ∈ old.pending) ∧
        (other ∈ segment.members ↔ other ∈ old.members))
    (hpending : ∀ id segment, after.segments.lookup id = some segment →
      (tenant ∈ segment.pending ↔ tenant ∈ segment.members ∧ isAbove state.cursor id))
    (hmembers : ∀ id segment, after.segments.lookup id = some segment →
      (tenant ∈ segment.members ↔ id ∈ state.segments))
    (hknown : ∀ id ∈ state.segments, id ∈ after.segments)
    (hkeys : ∀ id, id ∈ ledger.segments → id ∈ after.segments) : after.Linked where
  pending := by
    intro id segment hlookup other
    unfold cursor
    by_cases hne : other = tenant
    · subst hne
      rw [lookup_tenants_self htenants]
      exact hpending id segment hlookup
    · obtain ⟨old, hold, hsame⟩ := hothers id segment hlookup
      rw [lookup_of_tenants htenants hne, (hsame other hne).1, (hsame other hne).2]
      exact h.pending hold other
  members := by
    intro id segment hlookup other
    by_cases hne : other = tenant
    · subst hne
      rw [lookup_tenants_self htenants, hmembers id segment hlookup]
      constructor
      · intro hid
        exact ⟨state, rfl, hid⟩
      · rintro ⟨found, hfound, hid⟩
        cases hfound
        exact hid
    · obtain ⟨old, hold, hsame⟩ := hothers id segment hlookup
      rw [lookup_of_tenants htenants hne, (hsame other hne).2]
      exact h.members hold other
  known := by
    intro other found hfound id hid
    rw [htenants] at hfound
    rcases lookup_insert_cases hfound with ⟨rfl, rfl⟩ | ⟨-, hold⟩
    · exact hknown id hid
    · exact hkeys id (h.known hold id hid)

/-- The counters stay exact when one tenant's state changes and the total with it. -/
theorem Counted.reposition (h : ledger.Counted)
    (htenants : after.tenants = ledger.tenants.insert tenant state)
    (hbehind : state.behind = (state.segments.filter fun id => isAbove state.cursor id).card)
    (htotal : after.behindTotal + (ledger.tenants.lookup tenant).elim 0 Tenant.behind =
      ledger.behindTotal + state.behind) : after.Counted where
  behind := by
    intro other found hfound
    rw [htenants] at hfound
    rcases lookup_insert_cases hfound with ⟨rfl, rfl⟩ | ⟨-, hold⟩
    · exact hbehind
    · exact h.behind hold
  behindTotal := by
    have hbefore := h.behindTotal
    rw [htenants]
    cases hlookup : ledger.tenants.lookup tenant with
    | none =>
      rw [total_insert_of_none _ _ hlookup]
      rw [hlookup, Option.elim_none] at htotal
      omega
    | some old =>
      have hadd := total_insert_add Tenant.behind state hlookup
      rw [hlookup, Option.elim_some] at htotal
      omega

/-- The ledger stays at or below the append target when one tenant's state changes. -/
theorem Within.reposition {current : Uuid} (h : ledger.Within current)
    (htenants : after.tenants = ledger.tenants.insert tenant state)
    (hsegments : after.segments = ledger.segments)
    (hcursor : ∀ bound, state.cursor = some bound →
      bound ≤ current ∧ (bound = current → current ∈ state.segments)) : after.Within current where
  segments := by
    rw [hsegments]
    exact h.segments
  cursor := by
    intro other found bound hfound hbound
    rw [htenants] at hfound
    rcases lookup_insert_cases hfound with ⟨rfl, rfl⟩ | ⟨-, hold⟩
    · exact hcursor bound hbound
    · exact h.cursor hold hbound
  eligible := by
    rw [hsegments]
    exact h.eligible

/-- The ledger stays at or below the append target when one segment changes, the append
target keeping its state. -/
theorem Touches.within {current id : Uuid} {change : Segment → Segment}
    (ht : ledger.Touches after id change) (h : ledger.Within current)
    (hstate : id = current → ∀ segment, segment.state = .eligible →
      (change segment).state = .eligible) : after.Within current where
  segments := by
    intro other hother
    exact h.segments other (ht.mem_segments.mp hother)
  cursor := by
    rw [ht.tenants]
    exact h.cursor
  eligible := by
    intro segment hlookup
    rcases ht.lookup_cases hlookup with ⟨heq, old, hold, rfl⟩ | ⟨-, hold⟩
    · apply hstate heq.symm
      apply h.eligible
      rw [heq, hold]
    · exact h.eligible segment hold

end Reposition

/-! ## Observing -/

section Observe

variable {ledger : SegmentLedger} {frame : FrameAt}

/-- The entry a frame is recorded in. -/
def entryFor (ledger : SegmentLedger) (frame : FrameAt) : Segment :=
  (ledger.segments.lookup frame.offset.segment).getD (Segment.entered frame)

def entryWith (ledger : SegmentLedger) (frame : FrameAt) : Segment :=
  { ledger.entryFor frame with
    bytes := (ledger.entryFor frame).bytes + frame.bytes
    highest := max (ledger.entryFor frame).highest frame.offset }

theorem lookup_recordFrame (ledger : SegmentLedger) (frame : FrameAt) (other : Uuid) :
    (ledger.recordFrame frame).segments.lookup other =
      if other = frame.offset.segment then some (ledger.entryWith frame)
      else ledger.segments.lookup other :=
  lookup_insert_ite _ _ _ _

theorem Tallied.recordFrame (h : ledger.Tallied) (frame : FrameAt) :
    (ledger.recordFrame frame).Tallied := by
  cases hlookup : ledger.segments.lookup frame.offset.segment with
  | none =>
    have hentry : ledger.entryFor frame = Segment.entered frame := by
      unfold entryFor
      rw [hlookup, Option.getD_none]
    have hpending : (ledger.entryWith frame).pending = ∅ := by
      unfold entryWith
      rw [hentry]
      rfl
    have hstate : (ledger.entryWith frame).state = .eligible := by
      unfold entryWith
      rw [hentry]
      rfl
    have hunpinned : (ledger.recordFrame frame).unpinned =
        insert frame.offset.segment ledger.unpinned := if_pos ⟨hstate, hpending⟩
    have hheld : (ledger.recordFrame frame).heldBytes = ledger.heldBytes := if_pos hpending
    refine ⟨?_, ?_, ?_, ?_⟩
    · rw [hunpinned]
      exact h.unpinned.insert_of ⟨hstate, hpending⟩
    · exact h.reclaiming.keep_of_none hlookup fun hreclaiming => hreclaiming hstate
    · have htotal := total_insert_of_none Segment.heldBytes (ledger.entryWith frame) hlookup
      rw [Segment.heldBytes_of_empty hpending] at htotal
      exact hheld.trans (h.heldBytes.trans htotal.symm)
    · have htotal := total_insert_of_none Segment.heldCount (ledger.entryWith frame) hlookup
      rw [Segment.heldCount_of_empty hpending] at htotal
      exact h.heldSegments.trans htotal.symm
  | some old =>
    have hentry : ledger.entryFor frame = old := by
      unfold entryFor
      rw [hlookup, Option.getD_some]
    have hunpinned : (ledger.recordFrame frame).unpinned =
        if old.state = .eligible ∧ old.pending = ∅ then
          insert frame.offset.segment ledger.unpinned else ledger.unpinned := by
      rw [← hentry]
      rfl
    have hheld : (ledger.recordFrame frame).heldBytes =
        if old.pending = ∅ then ledger.heldBytes else ledger.heldBytes + frame.bytes := by
      rw [← hentry]
      rfl
    have hwith : ledger.entryWith frame =
        { old with bytes := old.bytes + frame.bytes, highest := max old.highest frame.offset } := by
      rw [← hentry]
      rfl
    have hsegments : (ledger.recordFrame frame).segments =
        ledger.segments.insert frame.offset.segment (ledger.entryWith frame) := rfl
    rw [hwith] at hsegments
    refine h.set hlookup hsegments ?_ ?_ ?_ ?_ ?_ ?_
    · rw [hunpinned]
      split
      · rename_i hfree
        exact iff_of_true (Finset.mem_insert_self _ _) hfree
      · exact (h.unpinned.mem_iff hlookup).trans Iff.rfl
    · intro other hother
      rw [hunpinned]
      split
      · rw [Finset.mem_insert, or_iff_right hother]
      · rfl
    · exact (h.reclaiming.mem_iff hlookup).trans Iff.rfl
    · intro other hother
      exact Iff.rfl
    · rw [hheld]
      unfold Segment.heldBytes
      dsimp only
      split
      · rfl
      · omega
    · rfl

theorem pending_entryFor (h : ledger.Linked) (tenant : TenantId) :
    tenant ∈ (ledger.entryFor frame).pending ↔ tenant ∈ (ledger.entryFor frame).members ∧
      isAbove (ledger.cursor tenant) frame.offset.segment := by
  unfold entryFor
  cases hlookup : ledger.segments.lookup frame.offset.segment with
  | none => exact iff_of_false (Finset.notMem_empty _) fun hand => AList.notMem_empty _ hand.1
  | some old => exact h.pending hlookup tenant

theorem members_entryFor (h : ledger.Linked) (tenant : TenantId) :
    tenant ∈ (ledger.entryFor frame).members ↔
      ∃ state, ledger.tenants.lookup tenant = some state ∧
        frame.offset.segment ∈ state.segments := by
  unfold entryFor
  cases hlookup : ledger.segments.lookup frame.offset.segment with
  | none =>
    refine iff_of_false (AList.notMem_empty _) ?_
    rintro ⟨state, hstate, hmem⟩
    exact notMem_of_lookup_none hlookup (h.known hstate _ hmem)
  | some old => exact h.members hlookup tenant

theorem Linked.recordFrame (h : ledger.Linked) (frame : FrameAt) :
    (ledger.recordFrame frame).Linked where
  pending := by
    intro id segment hlookup tenant
    rcases lookup_insert_cases hlookup with ⟨rfl, rfl⟩ | ⟨-, hold⟩
    · exact pending_entryFor h tenant
    · exact h.pending hold tenant
  members := by
    intro id segment hlookup tenant
    rcases lookup_insert_cases hlookup with ⟨rfl, rfl⟩ | ⟨-, hold⟩
    · exact members_entryFor h tenant
    · exact h.members hold tenant
  known := by
    intro tenant state hstate id hid
    rw [mem_iff_lookup]
    by_cases heq : id = frame.offset.segment
    · exact ⟨ledger.entryWith frame, by rw [lookup_recordFrame, if_pos heq]⟩
    · obtain ⟨segment, hsegment⟩ := mem_iff_lookup.mp (h.known hstate id hid)
      exact ⟨segment, by rw [lookup_recordFrame, if_neg heq, hsegment]⟩

theorem Exact.recordFrame (h : ledger.Exact) (frame : FrameAt) :
    (ledger.recordFrame frame).Exact where
  toTallied := h.toTallied.recordFrame frame
  toCounted := ⟨h.behind, h.behindTotal⟩
  toLinked := h.toLinked.recordFrame frame
  unsaturated := h.unsaturated

theorem Within.recordFrame (h : ledger.Within frame.offset.segment) :
    (ledger.recordFrame frame).Within frame.offset.segment where
  segments := by
    intro id hid
    obtain ⟨segment, hsegment⟩ := mem_iff_lookup.mp hid
    rcases lookup_insert_cases hsegment with ⟨heq, -⟩ | ⟨-, hold⟩
    · exact le_of_eq heq
    · exact h.segments id (mem_iff_lookup.mpr ⟨segment, hold⟩)
  cursor := h.cursor
  eligible := by
    intro segment hsegment
    rw [lookup_recordFrame, if_pos rfl] at hsegment
    cases hsegment
    change (ledger.entryFor frame).state = .eligible
    unfold entryFor
    cases hlookup : ledger.segments.lookup frame.offset.segment with
    | none => rfl
    | some old => exact h.eligible old hlookup

variable {tenant : TenantId} {offset : WalOffset} {id : Uuid} {entry : Segment}

/-- A span that can be extended is that of a member. -/
theorem touches_extendSpan {after : SegmentLedger}
    (h : ledger.extendSpan tenant offset = some after) :
    ∃ entry span, ledger.segments.lookup offset.segment = some entry ∧
      entry.members.lookup tenant = some span ∧
      ledger.Touches after offset.segment
        (Segment.spanning tenant { span with last := max span.last offset }) := by
  unfold extendSpan at h
  split at h
  · cases h
  · rename_i entry hlookup
    split at h
    · cases h
    · rename_i span hspan
      cases h
      refine ⟨entry, span, hlookup, hspan, ?_⟩
      refine ⟨lookup_insert_map hlookup (Segment.spanning tenant _), rfl, rfl, ?_, fun _ => rfl⟩
      intro htallied
      exact htallied.keep hlookup Iff.rfl rfl rfl

theorem Exact.extendSpan {after : SegmentLedger} (h : ledger.Exact)
    (hextend : ledger.extendSpan tenant offset = some after) :
    after.Exact ∧ ∃ entry, after.segments.lookup offset.segment = some entry ∧
      tenant ∈ entry.members := by
  obtain ⟨entry, span, hlookup, hspan, htouches⟩ := touches_extendSpan hextend
  refine ⟨htouches.exact h ?_ fun _ => rfl, _, htouches.lookup_self hlookup, ?_⟩
  · intro segment hsegment other
    rw [hlookup] at hsegment
    cases hsegment
    rw [Segment.mem_members_spanning]
    constructor
    · rintro (rfl | hother)
      · exact mem_iff_lookup.mpr ⟨span, hspan⟩
      · exact hother
    · exact .inr
  · exact Segment.mem_members_spanning.mpr (.inl rfl)

theorem pin_cases (ledger : SegmentLedger) (tenant : TenantId) (id : Uuid) :
    ledger.pin tenant id = (ledger, false) ∨
      ((ledger.pin tenant id).2 = true ∧ ∃ segment, ledger.segments.lookup id = some segment ∧
        tenant ∉ segment.pending) := by
  unfold pin
  split
  · exact .inl rfl
  · rename_i segment hlookup
    split
    · exact .inl rfl
    · rename_i hnot
      exact .inr ⟨rfl, segment, hlookup, hnot⟩

/-- A tenant with frames in the newest segment, whose cursor has passed it, has no segment
above its cursor. -/
theorem behind_eq_zero {state : Tenant} (h : ledger.Exact) (hwithin : ledger.Within id)
    (hstate : ledger.tenants.lookup tenant = some state)
    (hbelow : isAbove state.cursor id = false) :
    (state.segments.filter fun other => isAbove state.cursor other) = ∅ := by
  apply Finset.filter_eq_empty_iff.mpr
  intro other hother habove
  have hle := hwithin.segments other (h.known hstate other hother)
  cases hcursor : state.cursor with
  | none =>
    rw [hcursor] at hbelow
    cases hbelow
  | some bound =>
    rw [hcursor, isAbove_some] at habove
    rw [hcursor] at hbelow
    have hlt := isAbove_some.mpr (lt_of_lt_of_le habove hle)
    rw [hbelow] at hlt
    cases hlt

/-- The cursor of a tenant put back behind a segment is below it and at or above every
older segment of the tenant. -/
theorem isAbove_max_filter {segments : Finset Uuid} {other : Uuid} (hother : other ∈ segments)
    (hle : other ≤ id) :
    isAbove (segments.filter (· < id)).max other = true ↔ other = id := by
  cases hmax : (segments.filter (· < id)).max with
  | bot =>
    have hempty := Finset.max_eq_bot.mp hmax
    refine iff_of_true rfl ?_
    by_contra hne
    have hmem : other ∈ segments.filter (· < id) :=
      Finset.mem_filter.mpr ⟨hother, lt_of_le_of_ne hle hne⟩
    rw [hempty] at hmem
    cases hmem
  | coe bound =>
    have hbound : bound < id := (Finset.mem_filter.mp (Finset.mem_of_max hmax)).2
    change isAbove (some bound) other = true ↔ other = id
    rw [isAbove_some]
    constructor
    · intro hlt
      by_contra hne
      have hmem : other ∈ segments.filter (· < id) :=
        Finset.mem_filter.mpr ⟨hother, lt_of_le_of_ne hle hne⟩
      exact absurd (Finset.le_max_of_eq hmem hmax) (not_le_of_gt hlt)
    · rintro rfl
      exact hbound

/-- A tenant of the newest segment, whose cursor has passed it, is put back behind it. -/
theorem Exact.putBehind {state : Tenant} {pinned : SegmentLedger} (h : ledger.Exact)
    (hwithin : ledger.Within id) (hentry : ledger.segments.lookup id = some entry)
    (hmember : tenant ∈ entry.members) (hstate : ledger.tenants.lookup tenant = some state)
    (hbelow : isAbove state.cursor id = false)
    (ht : ledger.Touches pinned id (Segment.pinnedBy tenant)) :
    { pinned with
      tenants := pinned.tenants.insert tenant
        { state with
          cursor := (state.segments.filter (· < id)).max
          behind := state.behind + 1 }
      behindTotal := pinned.behindTotal + 1 }.Exact := by
  have htallied := ht.tallied h.toTallied
  have hnone := behind_eq_zero h hwithin hstate hbelow
  have hid : id ∈ state.segments := (h.mem_members_iff hentry hstate).mp hmember
  have hle : ∀ other ∈ state.segments, other ≤ id := fun other hother =>
    hwithin.segments other (h.known hstate other hother)
  refine ⟨⟨htallied.unpinned, htallied.reclaiming, htallied.heldBytes, htallied.heldSegments⟩,
    ?_, ?_, ?_⟩
  · apply h.toCounted.reposition
    · rw [ht.tenants]
    · have honly : (state.segments.filter fun other =>
          isAbove (state.segments.filter (· < id)).max other) = {id} := by
        ext other
        rw [Finset.mem_filter, Finset.mem_singleton]
        constructor
        · rintro ⟨hother, habove⟩
          exact (isAbove_max_filter hother (hle other hother)).mp habove
        · rintro rfl
          exact ⟨hid, (isAbove_max_filter hid (le_refl _)).mpr rfl⟩
      have hzero : state.behind = 0 := by
        rw [h.behind hstate, hnone, Finset.card_empty]
      rw [honly, Finset.card_singleton, hzero]
    · rw [hstate, Option.elim_some]
      change pinned.behindTotal + 1 + state.behind = ledger.behindTotal + (state.behind + 1)
      rw [ht.behindTotal]
      omega
  · refine h.toLinked.reposition (by rw [← ht.tenants]) ?_ ?_ ?_ ?_ ?_
    · intro other segment hlookup
      rcases ht.lookup_cases hlookup with ⟨rfl, old, hold, rfl⟩ | ⟨-, hold⟩
      · refine ⟨old, hold, ?_⟩
        intro another hne
        exact ⟨Finset.mem_insert.trans (or_iff_right hne), Iff.rfl⟩
      · exact ⟨segment, hold, fun _ _ => ⟨Iff.rfl, Iff.rfl⟩⟩
    · intro other segment hlookup
      rcases ht.lookup_cases hlookup with ⟨rfl, old, hold, rfl⟩ | ⟨hne, hold⟩
      · rw [hentry] at hold
        cases hold
        exact iff_of_true (Finset.mem_insert_self _ _)
          ⟨hmember, (isAbove_max_filter hid (le_refl _)).mpr rfl⟩
      · rw [h.mem_pending_iff hold hstate, h.mem_members_iff hold hstate]
        apply and_congr_right
        intro hother
        refine iff_of_false ?_ ?_
        · intro habove
          have hmem : other ∈ state.segments.filter fun other => isAbove state.cursor other :=
            Finset.mem_filter.mpr ⟨hother, habove⟩
          rw [hnone] at hmem
          cases hmem
        · intro habove
          exact hne ((isAbove_max_filter hother (hle other hother)).mp habove)
    · intro other segment hlookup
      rcases ht.lookup_cases hlookup with ⟨rfl, old, hold, rfl⟩ | ⟨-, hold⟩
      · exact (h.mem_members_iff hold hstate).trans Iff.rfl
      · exact (h.mem_members_iff hold hstate).trans Iff.rfl
    · intro other hother
      exact ht.mem_segments.mpr (h.known hstate other hother)
    · intro other hother
      exact ht.mem_segments.mpr hother
  · exact (ht.unsaturated h.toTallied).trans h.unsaturated

/-- Pinning a tenant again keeps the ledger exact. -/
theorem Exact.repin (h : ledger.Exact) (hwithin : ledger.Within id)
    (hentry : ledger.segments.lookup id = some entry) (hmember : tenant ∈ entry.members) :
    (ledger.repin tenant id).Exact ∧ (ledger.repin tenant id).Within id := by
  have htouches := touches_pin ledger tenant id
  unfold SegmentLedger.repin
  split
  · exact ⟨h, hwithin⟩
  · rcases pin_cases ledger tenant id with hsame | ⟨hfresh, segment, hlookup, hnot⟩
    · rw [hsame]
      exact ⟨h, hwithin⟩
    · rw [hentry] at hlookup
      cases hlookup
      obtain ⟨state, hstate, hid⟩ := (h.members hentry tenant).mp hmember
      have hbelow : isAbove state.cursor id = false := by
        by_contra habove
        apply hnot
        rw [h.mem_pending_iff hentry hstate]
        exact ⟨hid, Bool.of_not_eq_false habove⟩
      have hwithinPin := htouches.within hwithin fun _ _ hsegment => hsegment
      generalize hpin : ledger.pin tenant id = pinned at *
      obtain ⟨pinned, fresh⟩ := pinned
      dsimp only at hfresh htouches hwithinPin ⊢
      subst hfresh
      have htenants : pinned.tenants.lookup tenant = some state := by
        rw [htouches.tenants, hstate]
      rw [htenants]
      dsimp only
      rw [hbelow, if_neg Bool.false_ne_true]
      refine ⟨h.putBehind hwithin hentry hmember hstate hbelow htouches, ?_⟩
      refine hwithinPin.reposition rfl rfl ?_
      intro bound hbound
      have hlt : bound < id := (Finset.mem_filter.mp (Finset.mem_of_max hbound)).2
      exact ⟨le_of_lt hlt, fun heq => absurd heq (ne_of_lt hlt)⟩

/-- The state of a tenant, or that of a new one. -/
def stateOf (ledger : SegmentLedger) (tenant : TenantId) : Tenant :=
  (ledger.tenants.lookup tenant).getD {}

theorem mem_stateOf (h : ledger.Linked) (hentry : ledger.segments.lookup id = some entry) :
    id ∈ (ledger.stateOf tenant).segments ↔ tenant ∈ entry.members := by
  unfold stateOf
  cases hstate : ledger.tenants.lookup tenant with
  | none =>
    refine iff_of_false (Finset.notMem_empty _) ?_
    rw [h.members hentry, hstate]
    rintro ⟨found, hfound, -⟩
    cases hfound
  | some state => exact (h.mem_members_iff hentry hstate).symm

theorem cursor_stateOf (ledger : SegmentLedger) (tenant : TenantId) :
    (ledger.stateOf tenant).cursor = ledger.cursor tenant := by
  unfold stateOf cursor
  cases ledger.tenants.lookup tenant with
  | none => rfl
  | some state => rfl

/-- The append target is above the cursor of a tenant without frames in it. -/
theorem isAbove_stateOf (hwithin : ledger.Within id)
    (hnot : id ∉ (ledger.stateOf tenant).segments) :
    isAbove (ledger.stateOf tenant).cursor id = true := by
  unfold stateOf at *
  cases hstate : ledger.tenants.lookup tenant with
  | none => rfl
  | some state =>
    rw [hstate, Option.getD_some] at hnot
    rw [Option.getD_some]
    cases hcursor : state.cursor with
    | none => rfl
    | some bound =>
      obtain ⟨hle, hat⟩ := hwithin.cursor hstate hcursor
      rw [isAbove_some]
      exact lt_of_le_of_ne hle fun heq => hnot (hat heq)

/-- A tenant joins the newest segment. -/
theorem Exact.enrol {span : Span} {pinned : SegmentLedger} (h : ledger.Exact)
    (hwithin : ledger.Within id) (hentry : ledger.segments.lookup id = some entry)
    (hnot : tenant ∉ entry.members)
    (ht : ledger.Touches pinned id (Segment.pinnedBy tenant ∘ Segment.spanning tenant span)) :
    { pinned with
      tenants := ledger.tenants.insert tenant
        { ledger.stateOf tenant with
          segments := insert id (ledger.stateOf tenant).segments
          behind := (ledger.stateOf tenant).behind + 1 }
      behindTotal := pinned.behindTotal + 1 }.Exact := by
  have htallied := ht.tallied h.toTallied
  have hfresh : id ∉ (ledger.stateOf tenant).segments := fun hid =>
    hnot ((mem_stateOf h.toLinked hentry).mp hid)
  have habove := isAbove_stateOf hwithin hfresh
  refine ⟨⟨htallied.unpinned, htallied.reclaiming, htallied.heldBytes, htallied.heldSegments⟩,
    ?_, ?_, ?_⟩
  · refine h.toCounted.reposition rfl ?_ ?_
    · dsimp only
      rw [Finset.filter_insert, if_pos habove, Finset.card_insert_of_notMem]
      · congr 1
        unfold stateOf
        cases hstate : ledger.tenants.lookup tenant with
        | none => rfl
        | some state => exact h.behind hstate
      · intro hmem
        exact hfresh (Finset.mem_filter.mp hmem).1
    · change pinned.behindTotal + 1 + _ = ledger.behindTotal + ((ledger.stateOf tenant).behind + 1)
      rw [ht.behindTotal]
      unfold stateOf
      cases ledger.tenants.lookup tenant with
      | none => rfl
      | some state =>
        rw [Option.elim_some, Option.getD_some]
        omega
  · refine h.toLinked.reposition rfl ?_ ?_ ?_ ?_ ?_
    · intro other segment hlookup
      rcases ht.lookup_cases hlookup with ⟨rfl, old, hold, rfl⟩ | ⟨-, hold⟩
      · refine ⟨old, hold, ?_⟩
        intro another hne
        exact ⟨Finset.mem_insert.trans (or_iff_right hne),
          Segment.mem_members_spanning.trans (or_iff_right hne)⟩
      · exact ⟨segment, hold, fun _ _ => ⟨Iff.rfl, Iff.rfl⟩⟩
    · intro other segment hlookup
      rcases ht.lookup_cases hlookup with ⟨rfl, old, hold, rfl⟩ | ⟨-, hold⟩
      · exact iff_of_true (Finset.mem_insert_self _ _)
          ⟨Segment.mem_members_spanning.mpr (.inl rfl), habove⟩
      · rw [h.pending hold tenant, ← cursor_stateOf]
    · intro other segment hlookup
      rcases ht.lookup_cases hlookup with ⟨rfl, old, hold, rfl⟩ | ⟨hne, hold⟩
      · exact iff_of_true (Segment.mem_members_spanning.mpr (.inl rfl))
          (Finset.mem_insert_self _ _)
      · rw [Finset.mem_insert, or_iff_right hne, mem_stateOf h.toLinked hold]
    · intro other hother
      rw [ht.mem_segments]
      rcases Finset.mem_insert.mp hother with rfl | hother
      · exact mem_iff_lookup.mpr ⟨entry, hentry⟩
      · unfold stateOf at hother
        cases hstate : ledger.tenants.lookup tenant with
        | none =>
          rw [hstate] at hother
          cases hother
        | some state =>
          rw [hstate] at hother
          exact h.known hstate other hother
    · intro other hother
      exact ht.mem_segments.mpr hother
  · exact (ht.unsaturated h.toTallied).trans h.unsaturated

/-- A tenant's first frame in the newest segment. -/
theorem Exact.join (h : ledger.Exact) (hwithin : ledger.Within offset.segment)
    (hentry : ledger.segments.lookup offset.segment = some entry) (hnot : tenant ∉ entry.members) :
    (ledger.join tenant offset).Exact ∧ (ledger.join tenant offset).Within offset.segment := by
  have hspanning : ledger.Touches
      { ledger with
        segments := ledger.segments.insert offset.segment
          (entry.spanning tenant ⟨offset, offset⟩) }
      offset.segment (Segment.spanning tenant ⟨offset, offset⟩) := by
    refine ⟨lookup_insert_map hentry _, rfl, rfl, ?_, fun _ => rfl⟩
    intro htallied
    exact htallied.keep hentry Iff.rfl rfl rfl
  have ht := hspanning.comp (touches_pin _ tenant offset.segment)
  have hfresh : offset.segment ∉ (ledger.stateOf tenant).segments := fun hid =>
    hnot ((mem_stateOf h.toLinked hentry).mp hid)
  have habove := isAbove_stateOf hwithin hfresh
  have hstate : ledger.stateOf tenant = (ledger.tenants.lookup tenant).getD {} := rfl
  unfold SegmentLedger.join
  dsimp only
  rw [hentry]
  unfold Segment.spanning at ht
  rw [ht.tenants, ← hstate, if_pos ⟨hfresh, habove⟩]
  refine ⟨h.enrol hwithin hentry hnot ht, ?_⟩
  have hpinned := ht.within hwithin fun _ _ hsegment => hsegment
  refine hpinned.reposition (by rw [ht.tenants]) rfl ?_
  intro bound hbound
  rw [cursor_stateOf] at hbound
  obtain ⟨state, hlookup, hcursor⟩ := Option.bind_eq_some_iff.mp hbound
  exact ⟨(hwithin.cursor hlookup hcursor).1, fun _ => Finset.mem_insert_self _ _⟩

theorem notMem_of_extendSpan (hentry : ledger.segments.lookup offset.segment = some entry)
    (h : ledger.extendSpan tenant offset = none) : tenant ∉ entry.members := by
  unfold extendSpan at h
  rw [hentry] at h
  dsimp only at h
  split at h
  · rename_i hspan
    exact notMem_of_lookup_none hspan
  · cases h

/-- A frame in the append target keeps the ledger exact. -/
theorem Exact.observe (h : ledger.Exact) (hwithin : ledger.Within frame.offset.segment) :
    (ledger.observe frame).Exact ∧ (ledger.observe frame).Within frame.offset.segment := by
  have hrecorded := h.recordFrame frame
  have hbelow := hwithin.recordFrame
  have hentry : (ledger.recordFrame frame).segments.lookup frame.offset.segment =
      some (ledger.entryWith frame) := by
    rw [lookup_recordFrame, if_pos rfl]
  unfold SegmentLedger.observe
  dsimp only
  split
  · exact ⟨hrecorded, hbelow⟩
  · split
    · rename_i extended hextended
      obtain ⟨hexact, entry, hlookup, hmember⟩ := hrecorded.extendSpan hextended
      obtain ⟨_, _, -, -, htouches⟩ := touches_extendSpan hextended
      exact hexact.repin (htouches.within hbelow fun _ _ hstate => hstate) hlookup hmember
    · rename_i hextended
      exact hrecorded.join hbelow hentry (notMem_of_extendSpan hentry hextended)

end Observe

end SegmentLedger

end Ourios.Retain
