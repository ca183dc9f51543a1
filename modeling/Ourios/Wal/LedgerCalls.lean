/-
# The ledger under the calls of housekeeping

Popping and removing keep the ledger exact. The calls are issued in a fixed pattern:
frames are observed in the append target, which moves to newer segments; a pass first
takes the plan that is outstanding, with or without withdrawing its segments, then
applies horizons and pops a new plan; a commit settles each segment of the outstanding
plan once. In every run of calls in that pattern the ledger is exact after each call.
-/

import Ourios.Foundation.Machine
import Ourios.Wal.LedgerHorizons

namespace Ourios.Retain

open Ourios.Foundation

namespace SegmentLedger

/-! ## Popping -/

section Pop

variable {current : Uuid}

/-- A segment older than the append target that a pass has, if it still is there. -/
def InPass (ledger : SegmentLedger) (current id : Uuid) : Prop :=
  id < current ∧ ∀ segment, ledger.segments.lookup id = some segment → segment.IsReclaiming

/-- What a pass keeps while it pops. -/
structure Pops.Sound (current : Uuid) (pops : Pops) : Prop where
  ledger : pops.ledger.Sound current
  out : ∀ popped ∈ pops.out, pops.ledger.InPass current popped.segment

theorem Sound.take {ledger after : SegmentLedger} {id : Uuid} {popped : Popped}
    (h : ledger.Sound current) (htake : ledger.take id current = some (after, popped)) :
    after.Sound current ∧ after.InPass current popped.segment ∧
      ∀ other, ledger.InPass current other → after.InPass current other := by
  obtain ⟨hne, ⟨segment, hsegment⟩, rfl, ht⟩ := touches_take htake
  have hlt := lt_of_le_of_ne (h.2.segments _ (mem_iff_lookup.mpr ⟨segment, hsegment⟩)) hne
  have htaken : ∀ segment : Segment, segment.taken.IsReclaiming := by
    intro segment hstate
    cases hstate
  refine ⟨⟨ht.exact_of_same h.1 (fun _ => rfl) fun _ => rfl,
    ht.within h.2 fun heq => absurd heq hne⟩, ⟨hlt, ?_⟩, ?_⟩
  · intro segment hlookup
    rcases ht.lookup_cases hlookup with ⟨-, old, -, rfl⟩ | ⟨hother, -⟩
    · exact htaken old
    · exact absurd rfl hother
  · rintro other ⟨hother, hreclaiming⟩
    refine ⟨hother, ?_⟩
    intro segment hlookup
    rcases ht.lookup_cases hlookup with ⟨-, old, -, rfl⟩ | ⟨-, hold⟩
    · exact htaken old
    · exact hreclaiming segment hold

/-- The pops of a pass after one more. -/
def Pops.push (pops : Pops) (id : Uuid) (taken : SegmentLedger) (popped : Popped) : Pops where
  ledger := { taken with
    saturated := taken.saturated || (id ∉ pops.rows.durable && pops.rows.free < 1) }
  out := pops.out ++ [popped]
  rows := pops.rows.spend id

/-- Popping a candidate keeps a property of the pops and of the candidates still to
come. -/
def PopKeeps (drain : Drain) (holds : Pops → List Uuid → Prop) : Prop :=
  ∀ pops id ids taken popped, holds pops (id :: ids) → pops.out.length < drain.budget →
    pops.ledger.admits id drain = true → pops.rows.affords id = true →
    pops.ledger.take id drain.bound.current = some (taken, popped) →
    holds (pops.push id taken popped) ids

/-- What passing over a candidate keeps and popping one keeps, a drain keeps. -/
theorem drainFrom_rule {drain : Drain} {holds : Pops → List Uuid → Prop}
    (hskip : ∀ pops id ids, holds pops (id :: ids) → holds pops ids) (hpop : PopKeeps drain holds)
    {pops : Pops} {ids : List Uuid} (h : holds pops ids) (refused : Bool) :
    ∃ rest, holds (drainFrom drain pops refused ids).1 rest := by
  induction ids generalizing pops refused with
  | nil => exact ⟨[], h⟩
  | cons id ids ih =>
    unfold drainFrom
    split
    · exact ⟨id :: ids, h⟩
    rename_i hbudget
    split
    · rename_i hadmits
      split
      · rename_i haffords
        split
        · exact ih (hskip pops id ids h) refused
        · rename_i taken popped htake
          exact ih (hpop pops id ids taken popped h (Nat.not_le.mp hbudget) hadmits haffords
            htake) refused
      · exact ih (hskip pops id ids h) true
    · exact ih (hskip pops id ids h) refused

theorem Pops.Sound.drain {pops : Pops} (drain : Drain) (h : pops.Sound drain.bound.current) :
    (SegmentLedger.drain drain pops).1.Sound drain.bound.current := by
  let holds (pops : Pops) (_ : List Uuid) : Prop := pops.Sound drain.bound.current
  have hpop : PopKeeps drain holds := by
    intro pops id ids taken popped hsound _ _ haffords htake
    have hspent : (decide (id ∉ pops.rows.durable) && decide (pops.rows.free < 1)) = false := by
      rcases Bool.or_eq_true_iff.mp haffords with hfree | hdurable
      · rw [Bool.and_eq_false_iff, decide_eq_false_iff_not, decide_eq_false_iff_not]
        exact .inr (Nat.not_lt.mpr (of_decide_eq_true hfree))
      · rw [Bool.and_eq_false_iff, decide_eq_false_iff_not, not_not]
        exact .inl (of_decide_eq_true hdurable)
    obtain ⟨htaken, hpopped, hkept⟩ := hsound.ledger.take htake
    unfold holds Pops.push
    rw [hspent, Bool.or_false]
    exact ⟨htaken, List.forall_mem_append.mpr
      ⟨fun other hother => hkept _ (hsound.out other hother),
      List.forall_mem_singleton.mpr hpopped⟩⟩
  obtain ⟨_, hend⟩ := drainFrom_rule (fun _ _ _ h => h) hpop
    (show holds pops (pops.ledger.candidates drain) from h) false
  exact hend

/-- Popping keeps the ledger exact, and pops segments a pass may have. -/
theorem Sound.pop {ledger : SegmentLedger} (bound : PopBound) (h : ledger.Sound bound.current)
    (budget : ℕ) :
    (ledger.pop bound budget).1.Sound bound.current ∧
      ∀ popped ∈ (ledger.pop bound budget).2.1,
        (ledger.pop bound budget).1.InPass bound.current popped.segment := by
  unfold SegmentLedger.pop
  split
  · have hstart : Pops.Sound bound.current ⟨ledger, [], bound.rows⟩ :=
      ⟨h, nofun⟩
    have hfirst := Pops.Sound.drain ⟨bound, budget, .reclaiming⟩ hstart
    have hsecond := Pops.Sound.drain ⟨bound, budget, .rowed⟩ hfirst
    have hthird := Pops.Sound.drain ⟨bound, budget, .eligible⟩ hsecond
    exact ⟨hthird.ledger, hthird.out⟩
  · exact ⟨h, nofun⟩

end Pop

/-! ## Removing -/

section Remove

variable {ledger : SegmentLedger} {id current : Uuid}

/-- What holds while a removed segment leaves the tenants that held frames in it, those
of `rest` being still to come. -/
structure Leaving (id current : Uuid) (rest : List TenantId) (ledger : SegmentLedger) :
    Prop extends Tallied ledger, Counted ledger where
  unsaturated : ledger.saturated = false
  within : ledger.Within current
  gone : id ∉ ledger.segments
  pending : ∀ {other segment}, ledger.segments.lookup other = some segment → ∀ tenant,
    tenant ∈ segment.pending ↔ tenant ∈ segment.members ∧ isAbove (ledger.cursor tenant) other
  members : ∀ {other segment}, ledger.segments.lookup other = some segment → ∀ tenant,
    tenant ∈ segment.members ↔
      ∃ state, ledger.tenants.lookup tenant = some state ∧ other ∈ state.segments
  known : ∀ {tenant state}, ledger.tenants.lookup tenant = some state →
    ∀ other ∈ state.segments, other ∈ ledger.segments ∨ other = id ∧ tenant ∈ rest
  rest : ∀ tenant ∈ rest, ∃ state, ledger.tenants.lookup tenant = some state ∧
    id ∈ state.segments

/-- The number of segments above a cursor without one of them. -/
theorem card_filter_erase {segments : Finset Uuid} {cursor : Option Uuid} (hid : id ∈ segments) :
    ((segments.erase id).filter fun other => isAbove cursor other).card =
      if isAbove cursor id then (segments.filter fun other => isAbove cursor other).card - 1
      else (segments.filter fun other => isAbove cursor other).card := by
  rw [Finset.filter_erase]
  split
  · rename_i habove
    exact Finset.card_erase_of_mem (Finset.mem_filter.mpr ⟨hid, habove⟩)
  · rename_i hbelow
    rw [Finset.erase_eq_of_notMem]
    exact fun hmem => hbelow (Finset.mem_filter.mp hmem).2

/-- The state of a tenant a removed segment has left. -/
def leftBy (id : Uuid) (state : Tenant) : Tenant :=
  { state with
    segments := state.segments.erase id
    behind := if isAbove state.cursor id then state.behind - 1 else state.behind }

/-- The ledger with one tenant left by a removed segment. -/
def lowered (ledger : SegmentLedger) (id : Uuid) (tenant : TenantId) (state : Tenant) :
    SegmentLedger :=
  { ledger with
    tenants := ledger.tenants.insert tenant (leftBy id state)
    behindTotal := if isAbove state.cursor id then ledger.behindTotal - 1 else ledger.behindTotal
    saturated := ledger.saturated ||
      (isAbove state.cursor id && (state.behind < 1 || ledger.behindTotal < 1)) }

/-- The ledger without a tenant that has no segment left. -/
def dropped (ledger : SegmentLedger) (tenant : TenantId) (state : Tenant) : SegmentLedger :=
  { ledger with
    behindTotal := ledger.behindTotal - state.behind
    tenants := ledger.tenants.erase tenant
    saturated := ledger.saturated || ledger.behindTotal < state.behind }

variable {tenant : TenantId} {state : Tenant} {rest : List TenantId} {segment : Segment}

theorem leave_eq (hstate : ledger.tenants.lookup tenant = some state) :
    ledger.leave id tenant =
      if (leftBy id state).segments = ∅ then
        (ledger.lowered id tenant state).dropped tenant (leftBy id state)
      else ledger.lowered id tenant state := by
  unfold leave
  rw [hstate]
  rfl

theorem Leaving.lowered (h : ledger.Leaving id current (tenant :: rest)) (hnot : tenant ∉ rest)
    (hne : id ≠ current) (hstate : ledger.tenants.lookup tenant = some state)
    (hid : id ∈ state.segments) :
    (ledger.lowered id tenant state).Leaving id current rest := by
  have htenants : (ledger.lowered id tenant state).tenants =
      ledger.tenants.insert tenant (leftBy id state) := rfl
  have hbehind := h.behind hstate
  have hle : state.behind ≤ ledger.behindTotal := by
    rw [h.behindTotal]
    exact measure_le_total Tenant.behind hstate
  have hpos : isAbove state.cursor id = true → 1 ≤ state.behind := by
    intro habove
    rw [hbehind]
    exact Finset.card_pos.mpr ⟨id, Finset.mem_filter.mpr ⟨hid, habove⟩⟩
  have hcursor : ∀ other, (ledger.lowered id tenant state).cursor other = ledger.cursor other := by
    intro other
    unfold cursor
    by_cases hother : other = tenant
    · subst hother
      rw [lookup_tenants_self htenants, hstate]
      rfl
    · rw [lookup_of_tenants htenants hother]
  have hleft : (leftBy id state).behind =
      ((leftBy id state).segments.filter fun other =>
        isAbove (leftBy id state).cursor other).card := by
    change (if isAbove state.cursor id then state.behind - 1 else state.behind) =
      ((state.segments.erase id).filter fun other => isAbove state.cursor other).card
    rw [card_filter_erase hid, hbehind]
  have hcounted : (ledger.lowered id tenant state).Counted := by
    refine h.toCounted.reposition htenants hleft ?_
    rw [hstate, Option.elim_some]
    change (if isAbove state.cursor id then ledger.behindTotal - 1 else ledger.behindTotal) +
      state.behind = ledger.behindTotal +
        (if isAbove state.cursor id then state.behind - 1 else state.behind)
    split
    · rename_i habove
      have hone := hpos habove
      omega
    · rfl
  refine { toTallied := ⟨h.unpinned, h.reclaiming, h.heldBytes, h.heldSegments⟩,
           toCounted := hcounted, unsaturated := ?_, within := ?_, gone := h.gone,
           pending := ?_, members := ?_, known := ?_, rest := ?_ }
  · change (ledger.saturated || (isAbove state.cursor id &&
      (decide (state.behind < 1) || decide (ledger.behindTotal < 1)))) = false
    rw [h.unsaturated, Bool.false_or]
    cases habove : isAbove state.cursor id with
    | false => rfl
    | true =>
      have hone := hpos habove
      rw [decide_eq_false (by omega), decide_eq_false (by omega)]
      rfl
  · refine h.within.reposition htenants rfl ?_
    intro bound hbound
    have hstateCursor : state.cursor = some bound := hbound
    obtain ⟨hbelow, hat⟩ := h.within.cursor hstate hstateCursor
    refine ⟨hbelow, ?_⟩
    intro heq
    exact Finset.mem_erase.mpr ⟨hne.symm, hat heq⟩
  · intro other segment hlookup another
    rw [hcursor]
    exact h.pending hlookup another
  · intro other segment hlookup another
    have hother : other ≠ id := by
      rintro rfl
      exact h.gone (mem_iff_lookup.mpr ⟨segment, hlookup⟩)
    rw [h.members hlookup another]
    by_cases heq : another = tenant
    · subst heq
      rw [lookup_tenants_self htenants, hstate]
      constructor
      · rintro ⟨found, hfound, hmem⟩
        cases hfound
        exact ⟨_, rfl, Finset.mem_erase.mpr ⟨hother, hmem⟩⟩
      · rintro ⟨found, hfound, hmem⟩
        cases hfound
        exact ⟨state, rfl, (Finset.mem_erase.mp hmem).2⟩
    · rw [lookup_of_tenants htenants heq]
  · intro another found hfound other hother
    rcases lookup_insert_cases hfound with ⟨rfl, rfl⟩ | ⟨heq, hold⟩
    · obtain ⟨hotherId, hmem⟩ := Finset.mem_erase.mp hother
      rcases h.known hstate other hmem with hin | ⟨habsurd, -⟩
      · exact .inl hin
      · exact absurd habsurd hotherId
    · rcases h.known hold other hother with hin | ⟨hotherId, hrest⟩
      · exact .inl hin
      · exact .inr ⟨hotherId, (List.mem_cons.mp hrest).resolve_left heq⟩
  · intro another hanother
    have heq : another ≠ tenant := by
      rintro rfl
      exact hnot hanother
    rw [lookup_of_tenants htenants heq]
    exact h.rest another (List.mem_cons_of_mem _ hanother)

/-- A tenant without segments is the member of none. -/
theorem Leaving.dropped (h : ledger.Leaving id current rest) (hnot : tenant ∉ rest)
    (hstate : ledger.tenants.lookup tenant = some state) (hempty : state.segments = ∅) :
    (ledger.dropped tenant state).Leaving id current rest := by
  have hzero : state.behind = 0 := by
    rw [h.behind hstate, hempty, Finset.filter_empty, Finset.card_empty]
  have hself : (ledger.dropped tenant state).tenants.lookup tenant = none :=
    AList.lookup_erase _ _
  have hother : ∀ {another}, another ≠ tenant →
      (ledger.dropped tenant state).tenants.lookup another = ledger.tenants.lookup another :=
    fun hne => AList.lookup_erase_ne hne
  have hnone : ∀ {other segment}, ledger.segments.lookup other = some segment →
      tenant ∉ segment.members := by
    intro other segment hlookup hmember
    obtain ⟨found, hfound, hmem⟩ := (h.members hlookup tenant).mp hmember
    rw [hstate] at hfound
    cases hfound
    rw [hempty] at hmem
    cases hmem
  refine { toTallied := ⟨h.unpinned, h.reclaiming, h.heldBytes, h.heldSegments⟩,
           toCounted := ⟨?_, ?_⟩, unsaturated := ?_,
           within := ⟨h.within.segments, ?_, h.within.eligible⟩,
           gone := h.gone, pending := ?_, members := ?_, known := ?_, rest := ?_ }
  · intro another found hfound
    exact h.behind (lookup_erase_cases hfound).2
  · have htotal := total_eq_add_erase Tenant.behind hstate
    have hbefore := h.behindTotal
    change ledger.behindTotal - state.behind = total Tenant.behind (ledger.tenants.erase tenant)
    omega
  · change (ledger.saturated || decide (ledger.behindTotal < state.behind)) = false
    rw [h.unsaturated, hzero]
    rfl
  · intro another found bound hfound hbound
    exact h.within.cursor (lookup_erase_cases hfound).2 hbound
  · intro other segment hlookup another
    by_cases heq : another = tenant
    · subst heq
      refine iff_of_false ?_ fun hand => hnone hlookup hand.1
      rw [h.pending hlookup]
      exact fun hand => hnone hlookup hand.1
    · unfold cursor
      rw [hother heq]
      exact h.pending hlookup another
  · intro other segment hlookup another
    by_cases heq : another = tenant
    · subst heq
      refine iff_of_false (hnone hlookup) ?_
      rintro ⟨found, hfound, -⟩
      rw [hself] at hfound
      cases hfound
    · rw [hother heq]
      exact h.members hlookup another
  · intro another found hfound other hmem
    exact h.known (lookup_erase_cases hfound).2 other hmem
  · intro another hanother
    have heq : another ≠ tenant := by
      rintro rfl
      exact hnot hanother
    rw [hother heq]
    exact h.rest another hanother

theorem Leaving.leave (h : ledger.Leaving id current (tenant :: rest)) (hnot : tenant ∉ rest)
    (hne : id ≠ current) :
    (ledger.leave id tenant).Leaving id current rest := by
  obtain ⟨state, hstate, hid⟩ := h.rest tenant List.mem_cons_self
  have hlowered := h.lowered hnot hne hstate hid
  rw [leave_eq hstate]
  split
  · rename_i hempty
    exact hlowered.dropped hnot (AList.lookup_insert _) hempty
  · exact hlowered

theorem Leaving.leaveAll {tenants : List TenantId} (h : ledger.Leaving id current tenants)
    (hnodup : tenants.Nodup) (hne : id ≠ current) :
    (tenants.foldl (fun ledger tenant => ledger.leave id tenant) ledger).Leaving id current [] := by
  induction tenants generalizing ledger with
  | nil => exact h
  | cons tenant rest ih =>
    obtain ⟨hnot, hrest⟩ := List.nodup_cons.mp hnodup
    exact ih (h.leave hnot hne) hrest

theorem Leaving.sound (h : ledger.Leaving id current []) : ledger.Sound current := by
  refine ⟨⟨h.toTallied, h.toCounted, ⟨h.pending, h.members, ?_⟩, h.unsaturated⟩, h.within⟩
  intro tenant state hstate other hother
  rcases h.known hstate other hother with hin | ⟨-, hrest⟩
  · exact hin
  · cases hrest

theorem lookup_strike {found : Segment} {other : Uuid}
    (h : (ledger.strike id segment).segments.lookup other = some found) :
    other ≠ id ∧ ledger.segments.lookup other = some found :=
  lookup_erase_cases h

theorem Tallied.strike (h : ledger.Tallied) (hlookup : ledger.segments.lookup id = some segment) :
    (ledger.strike id segment).Tallied ∧
      (ledger.strike id segment).saturated = ledger.saturated := by
  have hbytes := total_eq_add_erase Segment.heldBytes hlookup
  have hcount := total_eq_add_erase Segment.heldCount hlookup
  have hheldBytes := h.heldBytes
  have hheldSegments := h.heldSegments
  have hreclaiming : (ledger.strike id segment).reclaiming = ledger.reclaiming.erase id := by
    change (if segment.state = .eligible then ledger.reclaiming
      else ledger.reclaiming.erase id) = _
    split
    · rename_i hstate
      rw [Finset.erase_eq_of_notMem]
      rw [h.reclaiming.mem_iff hlookup]
      exact fun hreclaiming => hreclaiming hstate
    · rfl
  have hbytesEq : (ledger.strike id segment).heldBytes = if decide (segment.pending ≠ ∅) then
      ledger.heldBytes - segment.bytes else ledger.heldBytes := rfl
  have hcountEq : (ledger.strike id segment).heldSegments = if decide (segment.pending ≠ ∅) then
      ledger.heldSegments - 1 else ledger.heldSegments := rfl
  have hsaturated : (ledger.strike id segment).saturated =
      (ledger.saturated || (decide (segment.pending ≠ ∅) &&
        (decide (ledger.heldBytes < segment.bytes) || decide (ledger.heldSegments < 1)))) := rfl
  have hunpinned := h.unpinned.erase id
  by_cases hempty : segment.pending = ∅
  · rw [decide_eq_false (not_not.mpr hempty)] at hbytesEq hcountEq hsaturated
    rw [Segment.heldBytes_of_empty hempty] at hbytes
    rw [Segment.heldCount_of_empty hempty] at hcount
    refine ⟨⟨hunpinned, hreclaiming ▸ h.reclaiming.erase id, ?_, ?_⟩, ?_⟩
    · exact hbytesEq.trans (hheldBytes.trans (hbytes.trans (Nat.zero_add _)))
    · exact hcountEq.trans (hheldSegments.trans (hcount.trans (Nat.zero_add _)))
    · rw [hsaturated, Bool.false_and, Bool.or_false]
  · rw [decide_eq_true hempty] at hbytesEq hcountEq hsaturated
    rw [Segment.heldBytes_of_ne hempty] at hbytes
    rw [Segment.heldCount_of_ne hempty] at hcount
    refine ⟨⟨hunpinned, hreclaiming ▸ h.reclaiming.erase id, ?_, ?_⟩, ?_⟩
    · refine hbytesEq.trans ?_
      change ledger.heldBytes - segment.bytes = total Segment.heldBytes (ledger.segments.erase id)
      omega
    · refine hcountEq.trans ?_
      change ledger.heldSegments - 1 = total Segment.heldCount (ledger.segments.erase id)
      omega
    · rw [hsaturated, decide_eq_false (by omega), decide_eq_false (by omega), Bool.or_false,
        Bool.and_false, Bool.or_false]

/-- A struck segment is still to leave its members. -/
theorem Sound.strike (h : ledger.Sound current) (hne : id ≠ current)
    (hlookup : ledger.segments.lookup id = some segment) :
    (ledger.strike id segment).Leaving id current segment.members.keys := by
  obtain ⟨htallied, hsaturated⟩ := h.1.toTallied.strike hlookup
  refine { toTallied := htallied, toCounted := ⟨h.1.behind, h.1.behindTotal⟩,
           unsaturated := hsaturated.trans h.1.unsaturated, within := ⟨?_, h.2.cursor, ?_⟩,
           gone := ?_, pending := ?_, members := ?_, known := ?_, rest := ?_ }
  · intro other hother
    obtain ⟨found, hfound⟩ := mem_iff_lookup.mp hother
    exact h.2.segments other (mem_iff_lookup.mpr ⟨found, (lookup_strike hfound).2⟩)
  · intro found hfound
    exact h.2.eligible found (lookup_strike hfound).2
  · intro hmem
    obtain ⟨found, hfound⟩ := mem_iff_lookup.mp hmem
    exact (lookup_strike hfound).1 rfl
  · intro other found hfound tenant
    exact h.1.pending (lookup_strike hfound).2 tenant
  · intro other found hfound tenant
    exact h.1.members (lookup_strike hfound).2 tenant
  · intro tenant state hstate other hother
    by_cases heq : other = id
    · subst heq
      exact .inr ⟨rfl, AList.mem_keys.mp ((h.1.mem_members_iff hlookup hstate).mpr hother)⟩
    · obtain ⟨found, hfound⟩ := mem_iff_lookup.mp (h.1.known hstate other hother)
      exact .inl (mem_iff_lookup.mpr ⟨found, (AList.lookup_erase_ne heq).trans hfound⟩)
  · intro tenant htenant
    exact (h.1.members hlookup tenant).mp (AList.mem_keys.mpr htenant)

/-- Removing a segment keeps the ledger exact. -/
theorem Sound.remove (h : ledger.Sound current) (hne : id ≠ current) :
    (ledger.remove id).1.Sound current := by
  unfold SegmentLedger.remove
  split
  · exact h
  · rename_i segment hlookup
    exact ((h.strike hne hlookup).leaveAll segment.members.keys_nodup hne).sound

end Remove

/-! ## What other segments see -/

section Frame

variable {ledger : SegmentLedger} {id : Uuid}

/-- Leaving a tenant is no change of the segments. -/
theorem leave_frame (ledger : SegmentLedger) (id : Uuid) (tenant : TenantId) :
    (ledger.leave id tenant).segments = ledger.segments ∧
      (ledger.leave id tenant).unpinned = ledger.unpinned := by
  unfold leave
  split
  · exact ⟨rfl, rfl⟩
  · dsimp only
    split <;> exact ⟨rfl, rfl⟩

theorem leaveAll_frame (tenants : List TenantId) (ledger : SegmentLedger) (id : Uuid) :
    (tenants.foldl (fun ledger tenant => ledger.leave id tenant) ledger).segments =
        ledger.segments ∧
      (tenants.foldl (fun ledger tenant => ledger.leave id tenant) ledger).unpinned =
        ledger.unpinned := by
  induction tenants generalizing ledger with
  | nil => exact ⟨rfl, rfl⟩
  | cons tenant tenants ih =>
    have hleave := leave_frame ledger id tenant
    have hrest := ih (ledger.leave id tenant)
    exact ⟨hrest.1.trans hleave.1, hrest.2.trans hleave.2⟩

theorem segments_remove (ledger : SegmentLedger) (id : Uuid) :
    (ledger.remove id).1.segments = ledger.segments.erase id := by
  unfold remove
  split
  · rename_i hlookup
    exact (AList.ext (entries_erase_of_lookup_none hlookup)).symm
  · exact (leaveAll_frame _ _ id).1

variable {other : Uuid}

theorem lookup_repin_ne (ledger : SegmentLedger) (tenant : TenantId) (hne : other ≠ id) :
    (ledger.repin tenant id).segments.lookup other = ledger.segments.lookup other := by
  have ht := touches_pin ledger tenant id
  unfold repin
  split
  · rfl
  · rw [← ht.lookup_ne hne]
    dsimp only
    split
    · split
      · rfl
      · split
        · rfl
        · rfl
    · rfl

/-- A tenant joins a segment by entering its span and being pinned. -/
theorem join_frame (ledger : SegmentLedger) (tenant : TenantId) (offset : WalOffset) :
    ∃ joined : SegmentLedger,
      (joined = ledger ∨ ∃ entry, ledger.segments.lookup offset.segment = some entry ∧
        joined = { ledger with
          segments := ledger.segments.insert offset.segment
            (entry.spanning tenant ⟨offset, offset⟩) }) ∧
      (ledger.join tenant offset).segments = (joined.pin tenant offset.segment).1.segments ∧
      (ledger.join tenant offset).unpinned = (joined.pin tenant offset.segment).1.unpinned := by
  unfold join
  dsimp only
  split
  · refine ⟨ledger, .inl rfl, ?_⟩
    split <;> exact ⟨rfl, rfl⟩
  · rename_i entry hentry
    refine ⟨_, .inr ⟨entry, hentry, rfl⟩, ?_⟩
    split <;> exact ⟨rfl, rfl⟩

theorem lookup_join_ne (ledger : SegmentLedger) (tenant : TenantId) {offset : WalOffset}
    (hne : other ≠ offset.segment) :
    (ledger.join tenant offset).segments.lookup other = ledger.segments.lookup other := by
  obtain ⟨joined, hjoined, hsegments, -⟩ := join_frame ledger tenant offset
  rw [hsegments, (touches_pin joined tenant offset.segment).lookup_ne hne]
  rcases hjoined with rfl | ⟨entry, -, rfl⟩
  · rfl
  · exact AList.lookup_insert_ne hne

/-- A frame changes the segment it is in and no other. -/
theorem lookup_observe_ne (ledger : SegmentLedger) {frame : FrameAt}
    (hne : other ≠ frame.offset.segment) :
    (ledger.observe frame).segments.lookup other = ledger.segments.lookup other := by
  have hrecorded : (ledger.recordFrame frame).segments.lookup other =
      ledger.segments.lookup other := by
    rw [lookup_recordFrame, if_neg hne]
  unfold observe
  dsimp only
  split
  · exact hrecorded
  · split
    · rename_i extended hextended
      obtain ⟨_, _, -, -, ht⟩ := touches_extendSpan hextended
      rw [lookup_repin_ne _ _ hne, ht.lookup_ne hne, hrecorded]
    · rw [lookup_join_ne _ _ hne, hrecorded]

end Frame

end SegmentLedger

/-! ## The calls -/

/-- The calls on the ledger. `rotate` is none: the append target moves to a new segment. -/
inductive Call
  | rotate (fresh : Uuid)
  | observe (byte bytes : ℕ) (tenant : Option TenantId) (path : Text)
  | describeRoot
  | withdraw (id : Uuid)
  | abandon
  | apply (horizons : SnapshotHorizons) (budget : ℕ) (order : List TenantId)
  | pop (checkpoint : WalOffset) (tenantAware : Bool) (rows : PlannedRows) (budget : ℕ)
  | restore (id : Uuid)
  | hold (id : Uuid) (uncertain : Bool)
  | remove (id : Uuid)

/-- The ledger, the append target, and the segments of the outstanding plan that are not
settled yet. -/
structure Desk where
  ledger : SegmentLedger
  current : Uuid
  outstanding : List Uuid

namespace Desk

/-- A root whose append target is `current`, before any frame is observed. -/
def new (current : Uuid) : Desk := ⟨{}, current, []⟩

/-- A segment of the outstanding plan is settled. -/
def settle (desk : Desk) (id : Uuid) (ledger : SegmentLedger) : Desk :=
  { desk with ledger := ledger, outstanding := desk.outstanding.filter (· ≠ id) }

def call (desk : Desk) : Call → Desk
  | .rotate fresh => { desk with current := fresh }
  | .observe byte bytes tenant path =>
    { desk with ledger := desk.ledger.observe ⟨⟨desk.current, byte⟩, bytes, tenant, path⟩ }
  | .describeRoot => { desk with ledger := desk.ledger.describeRoot }
  | .withdraw id => desk.settle id (desk.ledger.withdraw id)
  | .abandon => { desk with outstanding := [] }
  | .apply horizons budget order =>
    { desk with ledger := (desk.ledger.apply horizons budget order).1 }
  | .pop checkpoint tenantAware rows budget =>
    let popped := desk.ledger.pop ⟨checkpoint, desk.current, tenantAware, rows⟩ budget
    { desk with ledger := popped.1, outstanding := popped.2.1.map Popped.segment }
  | .restore id => desk.settle id (desk.ledger.restore id)
  | .hold id uncertain => desk.settle id (desk.ledger.hold id uncertain)
  | .remove id => desk.settle id (desk.ledger.remove id).1

/-- How the calls are issued: the append target moves up, a pass starts with no
outstanding plan, a plan's segments are withdrawn, restored and held once, and the append
target is not removed. -/
def Issued (desk : Desk) : Call → Prop
  | .rotate fresh => desk.current < fresh
  | .withdraw id | .restore id | .hold id _ => id ∈ desk.outstanding
  | .remove id => id ≠ desk.current
  | .apply _ _ _ | .pop _ _ _ _ => desk.outstanding = []
  | .observe _ _ _ _ | .describeRoot | .abandon => True

instance (desk : Desk) : DecidablePred desk.Issued
  | .rotate _ | .withdraw _ | .restore _ | .hold _ _ | .remove _ | .apply _ _ _ | .pop _ _ _ _
  | .observe _ _ _ _ | .describeRoot | .abandon => by unfold Issued; infer_instance

def machine : Machine Desk Call Unit := ⟨fun desk call => (desk.call call, [])⟩

/-- The ledger is exact, and the outstanding plan's segments are in a pass. -/
structure Sound (desk : Desk) : Prop where
  ledger : desk.ledger.Sound desk.current
  outstanding : ∀ id ∈ desk.outstanding, desk.ledger.InPass desk.current id

open SegmentLedger

section Steps

variable {desk : Desk}

theorem sound_new (current : Uuid) : (new current).Sound := by
  have hnone : ∀ p : Segment → Prop, Indexes p (∅ : AList fun _ : Uuid => Segment) ∅ := by
    intro p id
    refine iff_of_false (Finset.notMem_empty _) ?_
    rintro ⟨segment, hlookup, -⟩
    cases hlookup
  exact ⟨⟨⟨⟨hnone _, hnone _, rfl, rfl⟩, ⟨nofun, rfl⟩, ⟨nofun, nofun, nofun⟩, rfl⟩,
    ⟨fun id hid => absurd hid (AList.notMem_empty id), nofun, nofun⟩⟩, nofun⟩

/-- Settling one segment leaves the others of the plan in their pass. -/
theorem Sound.settle {id : Uuid} {ledger : SegmentLedger} (h : desk.Sound)
    (hledger : ledger.Sound desk.current)
    (hothers : ∀ {other}, other ≠ id →
      ledger.segments.lookup other = desk.ledger.segments.lookup other) :
    (desk.settle id ledger).Sound := by
  refine ⟨hledger, ?_⟩
  intro other hother
  obtain ⟨hmem, hne⟩ := List.mem_filter.mp hother
  obtain ⟨hlt, hreclaiming⟩ := h.outstanding other hmem
  refine ⟨hlt, ?_⟩
  intro segment hlookup
  exact hreclaiming segment ((hothers (of_decide_eq_true hne)).symm.trans hlookup)

theorem Sound.call (h : desk.Sound) {call : Call} (hissued : desk.Issued call) :
    (desk.call call).Sound := by
  cases call with
  | rotate fresh =>
    have hlt : desk.current < fresh := hissued
    refine ⟨⟨h.ledger.1, ?_, ?_, ?_⟩, ?_⟩
    · intro id hid
      exact le_of_lt (lt_of_le_of_lt (h.ledger.2.segments id hid) hlt)
    · intro tenant state bound hstate hbound
      have hbelow := lt_of_le_of_lt (h.ledger.2.cursor hstate hbound).1 hlt
      exact ⟨le_of_lt hbelow, fun heq => absurd heq (ne_of_lt hbelow)⟩
    · intro segment hlookup
      exact absurd (h.ledger.2.segments fresh (mem_iff_lookup.mpr ⟨segment, hlookup⟩))
        (not_le_of_gt hlt)
    · intro id hid
      obtain ⟨hold, hreclaiming⟩ := h.outstanding id hid
      exact ⟨lt_trans hold hlt, hreclaiming⟩
  | observe byte bytes tenant path =>
    refine ⟨h.ledger.1.observe h.ledger.2, ?_⟩
    intro id hid
    obtain ⟨hlt, hreclaiming⟩ := h.outstanding id hid
    refine ⟨hlt, ?_⟩
    intro segment hlookup
    change (desk.ledger.observe ⟨⟨desk.current, byte⟩, bytes, tenant, path⟩).segments.lookup id =
      some segment at hlookup
    rw [lookup_observe_ne _ (ne_of_lt hlt)] at hlookup
    exact hreclaiming segment hlookup
  | describeRoot =>
    obtain ⟨⟨⟨⟨hunpinned, hreclaiming, hbytes, hcount⟩, ⟨hbehind, htotal⟩,
      ⟨hpending, hmembers, hknown⟩, hsaturated⟩, ⟨hsegments, hcursor, heligible⟩⟩, hplan⟩ := h
    exact ⟨⟨⟨⟨hunpinned, hreclaiming, hbytes, hcount⟩, ⟨hbehind, htotal⟩,
      ⟨hpending, hmembers, hknown⟩, hsaturated⟩, ⟨hsegments, hcursor, heligible⟩⟩, hplan⟩
  | withdraw id =>
    have ht := touches_withdraw desk.ledger id
    refine h.settle ⟨h.ledger.1.withdraw id, ht.within h.ledger.2 ?_⟩ ht.lookup_ne
    exact fun _ _ _ => Segment.state_withdrawn
  | abandon => exact ⟨h.ledger, nofun⟩
  | apply horizons budget order =>
    refine ⟨h.ledger.apply horizons budget order, ?_⟩
    rw [show (desk.call (.apply horizons budget order)).outstanding = [] from hissued]
    exact nofun
  | pop checkpoint tenantAware rows budget =>
    obtain ⟨hsound, hpopped⟩ :=
      SegmentLedger.Sound.pop ⟨checkpoint, desk.current, tenantAware, rows⟩ h.ledger budget
    refine ⟨hsound, ?_⟩
    intro id hid
    obtain ⟨popped, hmem, rfl⟩ := List.mem_map.mp hid
    exact hpopped popped hmem
  | restore id =>
    have ht := touches_restore desk.ledger id
    exact h.settle ⟨h.ledger.1.restore id, ht.within h.ledger.2 fun _ _ _ => rfl⟩ ht.lookup_ne
  | hold id uncertain =>
    obtain ⟨hlt, hreclaiming⟩ := h.outstanding id hissued
    have ht := touches_hold hreclaiming uncertain
    refine h.settle ⟨h.ledger.1.hold hreclaiming uncertain, ht.within h.ledger.2 ?_⟩ ht.lookup_ne
    exact fun heq => absurd heq (ne_of_lt hlt)
  | remove id =>
    refine h.settle (h.ledger.remove hissued) ?_
    intro other hne
    rw [segments_remove, AList.lookup_erase_ne hne]

end Steps

/-- What one segment contributes to the held figures is part of them. -/
theorem heldOf_le {ledger : SegmentLedger} (h : ledger.Tallied) (id : Uuid) :
    (ledger.heldOf id).1 ≤ ledger.heldBytes ∧ (ledger.heldOf id).2 ≤ ledger.heldSegments := by
  unfold heldOf
  split
  · exact ⟨Nat.zero_le _, Nat.zero_le _⟩
  · rename_i segment hlookup
    split
    · exact ⟨Nat.zero_le _, Nat.zero_le _⟩
    · rename_i hne
      rw [h.heldBytes, h.heldSegments, ← Segment.heldBytes_of_ne hne,
        ← Segment.heldCount_of_ne hne]
      exact ⟨measure_le_total Segment.heldBytes hlookup, measure_le_total Segment.heldCount hlookup⟩

/-- In every run of calls as they are issued, every set and counter of the ledger is exact
and no subtraction stops at zero, those of the lag figures included. -/
theorem ledger_exact (current : Uuid) (calls : List Call)
    (h : machine.Meets Issued (new current) calls) :
    (machine.run (new current) calls).1.ledger.Exact ∧
      ∀ id, ((machine.run (new current) calls).1.ledger.heldOf id).1 ≤
          (machine.run (new current) calls).1.ledger.heldBytes ∧
        ((machine.run (new current) calls).1.ledger.heldOf id).2 ≤
          (machine.run (new current) calls).1.ledger.heldSegments := by
  have hsound : (machine.run (new current) calls).1.Sound :=
    machine.run_preserves_of_meets Sound (fun _ _ hdesk hissued => hdesk.call hissued)
      (sound_new current) h
  exact ⟨hsound.ledger.1, heldOf_le hsound.ledger.1.toTallied⟩

/-- Two tenants in two segments, one covered and one pinned, a pass that pops the covered
segment, a frame after it, and a commit. -/
def passOfTwo : List Call :=
  [.describeRoot, .observe 50 26 (some ['a']) [], .observe 90 40 none [], .rotate 2,
    .observe 50 26 (some ['b']) [], .rotate 3,
    .apply (.known ((∅ : Marks).insert ['a'] (.restorable ⟨1, 50⟩))) 4 [['a'], ['b']],
    .pop ⟨2, 50⟩ true ⟨∅, 4⟩ 4, .observe 50 26 (some ['a']) [], .remove 1]

theorem ledger_exact_passOfTwo :
    machine.Meets Issued (new 1) passOfTwo ∧
      (machine.run (new 1) (passOfTwo.take 8)).1.outstanding = [1] ∧
      (machine.run (new 1) passOfTwo).1.ledger.heldBytes = 52 ∧
      (machine.run (new 1) passOfTwo).1.ledger.Exact :=
  ⟨by decide +kernel, by decide +kernel, by decide +kernel,
    (ledger_exact 1 passOfTwo (by decide +kernel)).1⟩

end Desk

end Ourios.Retain
