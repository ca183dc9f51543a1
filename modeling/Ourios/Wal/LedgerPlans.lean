/-
# What a pass plans

The segments a pass pops are distinct, no more than its budget, and need no more new rows
of the planned array than there is room for. Every eligible segment that has a row
already is popped before any that has none, unless the budget runs out. The offsets a
popped segment carries lie in that segment and belong to tenants a record can name.
-/

import Ourios.Wal.LedgerCalls
import Ourios.Wal.Payload

namespace Ourios.Retain

open Ourios.Foundation

/-! ## Offsets of a segment's own -/

/-- The last offset of each tenant lies in the segment, and a record can hold both. -/
def Segment.Located (id : Uuid) (segment : Segment) : Prop :=
  ∀ tenant span, segment.members.lookup tenant = some span →
    span.last.segment = id ∧ span.last.byte < 2 ^ 64 ∧
      1 ≤ tenant.toUtf8.length ∧ tenant.toUtf8.length ≤ maxTenantBytes

/-- A member whose last offset is in the segment joins it. -/
theorem Segment.Located.spanning {id : Uuid} {tenant : TenantId} {segment : Segment} {span : Span}
    (h : segment.Located id)
    (hspan : span.last.segment = id ∧ span.last.byte < 2 ^ 64)
    (htenant : 1 ≤ tenant.toUtf8.length ∧ tenant.toUtf8.length ≤ maxTenantBytes) :
    (segment.spanning tenant span).Located id := by
  intro other found hfound
  rcases lookup_insert_cases hfound with ⟨rfl, rfl⟩ | ⟨-, hold⟩
  · exact ⟨hspan.1, hspan.2, htenant⟩
  · exact h other found hold

/-- A frame a live append or the recovery walk can show: its offset is one of 64 bits and
its tenant one that was decoded. -/
structure FrameAt.Plain (frame : FrameAt) : Prop where
  byte : frame.offset.byte < 2 ^ 64
  tenant : ∀ tenant, frame.tenant = some tenant →
    1 ≤ tenant.toUtf8.length ∧ tenant.toUtf8.length ≤ maxTenantBytes

namespace SegmentLedger

/-- Every segment's offsets are its own. -/
def Located (ledger : SegmentLedger) : Prop :=
  ∀ id segment, ledger.segments.lookup id = some segment → segment.Located id

/-- Every free segment is among the unpinned ones. -/
def Offered (ledger : SegmentLedger) : Prop :=
  ∀ id segment, ledger.segments.lookup id = some segment → segment.IsFree → id ∈ ledger.unpinned

/-- Every segment's offsets are its own, and every free segment is offered. -/
structure Listed (ledger : SegmentLedger) : Prop where
  located : ledger.Located
  offered : ledger.Offered

/-- Every segment has the members of one that was there, and free ones stay offered. -/
structure Moves (ledger after : SegmentLedger) : Prop where
  members : ∀ id segment, after.segments.lookup id = some segment →
    ∃ old, ledger.segments.lookup id = some old ∧ segment.members = old.members
  offered : ledger.Offered → after.Offered

section Members

variable {ledger after last : SegmentLedger} {id : Uuid} {tenant : TenantId}

theorem Listed.of_empty (h : ledger.segments = ∅) : ledger.Listed := by
  constructor
  all_goals
    intro id segment hlookup
    rw [h, AList.lookup_empty] at hlookup
    cases hlookup

theorem Moves.refl (ledger : SegmentLedger) : ledger.Moves ledger where
  members _ segment h := ⟨segment, h, rfl⟩
  offered h := h

theorem Moves.trans (h : ledger.Moves after) (hnext : after.Moves last) : ledger.Moves last where
  members := by
    intro id segment hlookup
    obtain ⟨middle, hmiddle, hmembers⟩ := hnext.members id segment hlookup
    obtain ⟨old, hold, hsame⟩ := h.members id middle hmiddle
    exact ⟨old, hold, hmembers.trans hsame⟩
  offered hoffered := hnext.offered (h.offered hoffered)

theorem Moves.of_segments (hsegments : after.segments = ledger.segments)
    (hunpinned : after.unpinned = ledger.unpinned) : ledger.Moves after where
  members := by
    intro id segment hlookup
    rw [hsegments] at hlookup
    exact ⟨segment, hlookup, rfl⟩
  offered := by
    intro h id segment hlookup hfree
    rw [hsegments] at hlookup
    rw [hunpinned]
    exact h id segment hlookup hfree

theorem Moves.foldl {ι : Type} {operate : SegmentLedger → ι → SegmentLedger}
    (hoperate : ∀ ledger item, Moves ledger (operate ledger item)) (items : List ι)
    (ledger : SegmentLedger) : ledger.Moves (items.foldl operate ledger) := by
  induction items generalizing ledger with
  | nil => exact .refl ledger
  | cons item items ih => exact (hoperate ledger item).trans (ih _)

variable {segment : Segment}

/-- One segment is replaced, and offered where it is free. -/
theorem Offered.set (h : ledger.Offered)
    (hsegments : after.segments = ledger.segments.insert id segment)
    (hothers : ∀ other, other ≠ id → other ∈ ledger.unpinned → other ∈ after.unpinned)
    (hfree : segment.IsFree → id ∈ after.unpinned) : after.Offered := by
  intro other found hlookup hfound
  rw [hsegments] at hlookup
  rcases lookup_insert_cases hlookup with ⟨rfl, rfl⟩ | ⟨hne, hold⟩
  · exact hfree hfound
  · exact hothers other hne (h other found hold hfound)

/-- One segment is replaced by one of the same members, and offered where it is free. -/
theorem Moves.set {old : Segment} (hlookup : ledger.segments.lookup id = some old)
    (hsegments : after.segments = ledger.segments.insert id segment)
    (hmembers : segment.members = old.members)
    (hothers : ∀ other, other ≠ id → other ∈ ledger.unpinned → other ∈ after.unpinned)
    (hfree : (old.IsFree → id ∈ ledger.unpinned) → segment.IsFree → id ∈ after.unpinned) :
    ledger.Moves after where
  members := by
    intro other found hfound
    rw [hsegments] at hfound
    rcases lookup_insert_cases hfound with ⟨rfl, rfl⟩ | ⟨-, hold⟩
    · exact ⟨old, hlookup, hmembers⟩
    · exact ⟨found, hold, rfl⟩
  offered h := h.set hsegments hothers (hfree (h id old hlookup))

theorem moves_pin (ledger : SegmentLedger) (tenant : TenantId) (id : Uuid) :
    ledger.Moves (ledger.pin tenant id).1 := by
  unfold pin
  split
  · exact .refl ledger
  · rename_i segment hlookup
    split
    · exact .refl ledger
    · refine .set hlookup rfl rfl ?_ ?_
      · exact fun other hne hother => Finset.mem_erase.mpr ⟨hne, hother⟩
      · exact fun _ hfree => absurd hfree.2 (Finset.insert_ne_empty _ _)

theorem moves_unpin (ledger : SegmentLedger) (tenant : TenantId) (id : Uuid) :
    ledger.Moves (ledger.unpin tenant id) := by
  unfold unpin
  split
  · exact .refl ledger
  · rename_i segment hlookup
    dsimp only
    split
    · rename_i hheld
      refine .set hlookup rfl rfl (fun _ _ hother => hother) ?_
      intro hold hfree
      rcases hheld with hnot | hpending
      · refine hold ⟨hfree.1, ?_⟩
        rw [← Finset.erase_eq_of_notMem hnot]
        exact hfree.2
      · exact absurd hfree.2 hpending
    · refine .set hlookup rfl rfl ?_ ?_
      · intro other hne hother
        split
        · exact Finset.mem_insert_of_mem hother
        · exact hother
      · intro hold hfree
        rw [if_pos hfree.1]
        exact Finset.mem_insert_self _ _

/-- A segment no pass has any more is offered where nothing holds it. -/
theorem mem_offer {unpinned : Finset Uuid} (h : segment.pending = ∅) :
    id ∈ if segment.pending = ∅ then insert id unpinned else unpinned := by
  rw [if_pos h]
  exact Finset.mem_insert_self _ _

theorem mem_offer_of_mem {unpinned : Finset Uuid} {other : Uuid} (h : other ∈ unpinned) :
    other ∈ if segment.pending = ∅ then insert id unpinned else unpinned := by
  split
  · exact Finset.mem_insert_of_mem h
  · exact h

theorem moves_withdraw (ledger : SegmentLedger) (id : Uuid) :
    ledger.Moves (ledger.withdraw id) := by
  unfold withdraw
  split
  · exact .refl ledger
  · rename_i segment hlookup
    split
    · exact .refl ledger
    · exact .set hlookup rfl rfl (fun _ _ hother => mem_offer_of_mem hother)
        fun _ hfree => mem_offer hfree.2

theorem moves_restore (ledger : SegmentLedger) (id : Uuid) :
    ledger.Moves (ledger.restore id) := by
  unfold restore
  split
  · exact .refl ledger
  · rename_i segment hlookup
    exact .set hlookup rfl rfl (fun _ _ hother => mem_offer_of_mem hother)
      fun _ hfree => mem_offer hfree.2

theorem moves_hold (ledger : SegmentLedger) (id : Uuid) (uncertain : Bool) :
    ledger.Moves (ledger.hold id uncertain) := by
  unfold hold
  split
  · exact .refl ledger
  · rename_i segment hlookup
    exact .set hlookup rfl rfl (fun _ _ hother => hother) fun _ hfree => nomatch hfree.1

theorem moves_take {current : Uuid} {popped : Popped}
    (h : ledger.take id current = some (after, popped)) : ledger.Moves after := by
  unfold take at h
  split at h
  · cases h
  split at h
  · cases h
  rename_i segment hlookup
  cases h
  refine .set hlookup rfl rfl ?_ fun _ hfree => nomatch hfree.1
  exact fun other hne hother => Finset.mem_erase.mpr ⟨hne, hother⟩

theorem unpinned_remove (ledger : SegmentLedger) (id : Uuid)
    (hlookup : ledger.segments.lookup id = some segment) :
    (ledger.remove id).1.unpinned = ledger.unpinned.erase id := by
  unfold remove
  rw [hlookup]
  exact (leaveAll_frame _ _ id).2

theorem moves_remove (ledger : SegmentLedger) (id : Uuid) :
    ledger.Moves (ledger.remove id).1 := by
  cases hlookup : ledger.segments.lookup id with
  | none =>
    unfold remove
    rw [hlookup]
    exact .refl ledger
  | some segment =>
    have hkept : ∀ other found, (ledger.remove id).1.segments.lookup other = some found →
        other ≠ id ∧ ledger.segments.lookup other = some found := by
      intro other found hfound
      rw [segments_remove] at hfound
      exact lookup_erase_cases hfound
    constructor
    · intro other found hfound
      exact ⟨found, (hkept other found hfound).2, rfl⟩
    · intro h other found hfound hfree
      obtain ⟨hne, hlookupOther⟩ := hkept other found hfound
      rw [unpinned_remove ledger id hlookup]
      exact Finset.mem_erase.mpr ⟨hne, h other found hlookupOther hfree⟩

theorem moves_repossess (ledger : SegmentLedger) (tenant : TenantId) (id : Uuid) :
    ledger.Moves (ledger.repossess tenant id) := by
  have hmoves := (moves_pin ledger tenant id).trans (moves_withdraw _ id)
  refine ⟨hmoves.members, ?_⟩
  intro h other found hfound hfree
  by_cases heq : other = id
  · -- the tenant holds the segment
    subst heq
    rcases (touches_repossess ledger tenant other).lookup_cases hfound with
      ⟨-, old, -, rfl⟩ | ⟨hne, -⟩
    · have hpending : (Segment.withdrawn (Segment.pinnedBy tenant old)).pending =
          insert tenant old.pending := Segment.pending_withdrawn
      have hempty := hfree.2
      change (Segment.withdrawn (Segment.pinnedBy tenant old)).pending = ∅ at hempty
      rw [hpending] at hempty
      exact absurd hempty (Finset.insert_ne_empty _ _)
    · exact absurd rfl hne
  · exact Finset.mem_erase.mpr ⟨heq, hmoves.offered h other found hfound hfree⟩

theorem Located.of_moves (h : ledger.Located) (hmoves : ledger.Moves after) :
    after.Located := by
  intro id segment hlookup tenant span hspan
  obtain ⟨old, hold, hmembers⟩ := hmoves.members id segment hlookup
  rw [hmembers] at hspan
  exact h id old hold tenant span hspan

theorem moves_rewind (ledger : SegmentLedger) (tenant : TenantId) :
    ledger.Moves (ledger.rewind tenant) := by
  unfold rewind
  split
  · exact .refl ledger
  · refine Moves.trans (.of_segments ?_ ?_) (Moves.foldl ?_ _ _)
    · rfl
    · rfl
    · exact fun start id => moves_repossess start tenant id

theorem moves_receive (ledger : SegmentLedger) (marks : Marks) :
    ledger.Moves (ledger.receive marks) := by
  refine Moves.trans (Moves.foldl moves_rewind _ _) (Moves.foldl ?_ _ _)
  intro start tenant
  unfold setHorizon
  split
  · exact .refl start
  · exact .of_segments rfl rfl

theorem moves_step (h : ledger.step tenant = some after) : ledger.Moves after := by
  obtain ⟨id, -, rfl⟩ := Option.map_eq_some_iff.mp h
  unfold applyTo
  dsimp only
  split
  · exact moves_unpin ledger tenant id
  · exact (moves_unpin ledger tenant id).trans (.of_segments rfl rfl)

theorem moves_apply (ledger : SegmentLedger) (horizons : SnapshotHorizons) (budget : ℕ)
    (order : List TenantId) : ledger.Moves (ledger.apply horizons budget order).1 := by
  unfold apply
  split
  · exact .of_segments rfl rfl
  · rename_i marks
    have hconsumer : ledger.Moves { ledger with consumer := true } := .of_segments rfl rfl
    have hreceived := hconsumer.trans (moves_receive _ marks)
    have hstep : ∀ {start next tenant}, Moves ledger start →
        step start tenant = some next → Moves ledger next :=
      fun hmoves hnext => hmoves.trans (moves_step hnext)
    exact (walkFrom_keeps hstep _ hreceived _ _).trans (.of_segments rfl rfl)

theorem moves_repin (ledger : SegmentLedger) (tenant : TenantId) (id : Uuid) :
    ledger.Moves (ledger.repin tenant id) := by
  have hpin := moves_pin ledger tenant id
  unfold repin
  split
  · exact .refl ledger
  · dsimp only
    split
    · split
      · exact hpin
      · split
        · exact hpin
        · exact hpin.trans (.of_segments rfl rfl)
    · exact hpin

theorem Listed.of_moves (h : ledger.Listed) (hmoves : ledger.Moves after) : after.Listed :=
  ⟨h.located.of_moves hmoves, hmoves.offered h.offered⟩

theorem Listed.set (h : ledger.Listed)
    (hsegments : after.segments = ledger.segments.insert id segment)
    (hlocated : segment.Located id)
    (hothers : ∀ other, other ≠ id → other ∈ ledger.unpinned → other ∈ after.unpinned)
    (hfree : segment.IsFree → id ∈ after.unpinned) : after.Listed where
  located := by
    intro other found hlookup
    rw [hsegments] at hlookup
    rcases lookup_insert_cases hlookup with ⟨rfl, rfl⟩ | ⟨-, hold⟩
    · exact hlocated
    · exact h.located other found hold
  offered := h.offered.set hsegments hothers hfree

theorem Listed.recordFrame (h : ledger.Listed) (frame : FrameAt) :
    (ledger.recordFrame frame).Listed := by
  refine h.set rfl ?_ ?_ ?_
  · intro tenant span hspan
    change (ledger.entryWith frame).members.lookup tenant = some span at hspan
    cases hentry : ledger.segments.lookup frame.offset.segment with
    | none =>
      rw [entryWith, entryFor, hentry] at hspan
      cases hspan
    | some entry =>
      rw [entryWith, entryFor, hentry] at hspan
      exact h.located _ entry hentry tenant span hspan
  · intro other _ hother
    change other ∈ if _ then _ else _
    split
    · exact Finset.mem_insert_of_mem hother
    · exact hother
  · intro hfree
    change frame.offset.segment ∈ if _ then _ else _
    split
    · exact Finset.mem_insert_self _ _
    · rename_i hnot
      exact absurd hfree hnot

variable {offset : WalOffset}

/-- A tenant's span in a segment becomes one that ends there. -/
theorem Listed.spanning {span : Span} (h : ledger.Listed)
    (hlookup : ledger.segments.lookup id = some segment)
    (hspan : span.last.segment = id ∧ span.last.byte < 2 ^ 64)
    (htenant : 1 ≤ tenant.toUtf8.length ∧ tenant.toUtf8.length ≤ maxTenantBytes) :
    Listed { ledger with
      segments := ledger.segments.insert id (segment.spanning tenant span) } :=
  h.set rfl ((h.located id segment hlookup).spanning hspan htenant) (fun _ _ hother => hother)
    fun hfree => h.offered id segment hlookup hfree

theorem Listed.extendSpan (h : ledger.Listed) (hbyte : offset.byte < 2 ^ 64)
    (hextend : ledger.extendSpan tenant offset = some after) : after.Listed := by
  unfold SegmentLedger.extendSpan at hextend
  split at hextend
  · cases hextend
  rename_i entry hentry
  split at hextend
  · cases hextend
  rename_i span hspan
  cases hextend
  obtain ⟨hsegment, hlast, htenant⟩ := h.located _ entry hentry tenant span hspan
  apply h.spanning hentry _ htenant
  rcases max_choice span.last offset with hmax | hmax
  · rw [hmax]
    exact ⟨hsegment, hlast⟩
  · rw [hmax]
    exact ⟨rfl, hbyte⟩

theorem Listed.join (h : ledger.Listed) (hbyte : offset.byte < 2 ^ 64)
    (htenant : 1 ≤ tenant.toUtf8.length ∧ tenant.toUtf8.length ≤ maxTenantBytes) :
    (ledger.join tenant offset).Listed := by
  obtain ⟨joined, hjoined, hsegments, hunpinned⟩ := join_frame ledger tenant offset
  have hlisted : joined.Listed := by
    rcases hjoined with rfl | ⟨entry, hentry, rfl⟩
    · exact h
    · exact h.spanning hentry ⟨rfl, hbyte⟩ htenant
  exact hlisted.of_moves
    ((moves_pin joined tenant offset.segment).trans (.of_segments hsegments hunpinned))

/-- Observing a frame leaves every segment's offsets its own and every free one offered. -/
theorem Listed.observe {frame : FrameAt} (h : ledger.Listed) (hplain : frame.Plain) :
    (ledger.observe frame).Listed := by
  have hrecorded := h.recordFrame frame
  unfold SegmentLedger.observe
  dsimp only
  split
  · exact hrecorded
  · rename_i tenant htenant
    split
    · rename_i extended hextended
      exact (hrecorded.extendSpan hplain.byte hextended).of_moves (moves_repin _ _ _)
    · exact hrecorded.join hplain.byte (hplain.tenant tenant htenant)

end Members

theorem moves_drainFrom (drain : Drain) (pops : Pops) (refused : Bool) (ids : List Uuid) :
    pops.ledger.Moves (drainFrom drain pops refused ids).1.ledger := by
  let holds (now : Pops) (_ : List Uuid) : Prop := pops.ledger.Moves now.ledger
  have hpop : PopKeeps drain holds := by
    intro now id rest taken popped hnow _ _ _ htake
    exact (hnow.trans (moves_take htake)).trans (.of_segments rfl rfl)
  obtain ⟨rest, hend⟩ := drainFrom_rule (fun _ _ _ h => h) hpop
    (show holds pops ids from .refl _) refused
  exact hend

theorem moves_pop (ledger : SegmentLedger) (bound : PopBound) (budget : ℕ) :
    ledger.Moves (ledger.pop bound budget).1 := by
  unfold pop
  split
  · exact ((moves_drainFrom _ ⟨ledger, [], bound.rows⟩ _ _).trans
      (moves_drainFrom _ _ _ _)).trans (moves_drainFrom _ _ _ _)
  · exact .refl ledger

/-! ## Rows and budgets -/

/-- A popped segment needs a row the record does not have. -/
def NeedsRow (rows : PlannedRows) (popped : Popped) : Bool := popped.segment ∉ rows.durable

/-- A popped segment's offsets are its own, of tenants a record can name. -/
def Plannable (popped : Popped) : Prop :=
  ∀ pair ∈ popped.lastOffsets, pair.2.segment = popped.segment ∧ pair.2.byte < 2 ^ 64 ∧
    1 ≤ pair.1.toUtf8.length ∧ pair.1.toUtf8.length ≤ maxTenantBytes

variable {ledger after : SegmentLedger} {id : Uuid} {bound : PopBound}

theorem plannable_take {current : Uuid} {popped : Popped} (h : ledger.Located)
    (htake : ledger.take id current = some (after, popped)) :
    Plannable popped := by
  unfold take at htake
  split at htake
  · cases htake
  · split at htake
    · cases htake
    · rename_i segment hlookup
      cases htake
      intro pair hpair
      obtain ⟨tenant, -, hsome⟩ := List.mem_filterMap.mp hpair
      obtain ⟨span, hspan, rfl⟩ := Option.map_eq_some_iff.mp hsome
      exact h id segment hlookup tenant span hspan

/-- What a pass keeps of its bounds while it pops. -/
structure Pops.Bounded (rows : PlannedRows) (budget : ℕ) (pops : Pops) : Prop where
  durable : pops.rows.durable = rows.durable
  free : (pops.out.filter (NeedsRow rows)).length + pops.rows.free = rows.free
  budget : pops.out.length ≤ budget
  distinct : (pops.out.map Popped.segment).Nodup
  reclaiming : ∀ popped ∈ pops.out, ∀ segment,
    pops.ledger.segments.lookup popped.segment = some segment → segment.IsReclaiming
  located : pops.ledger.Located
  plannable : ∀ popped ∈ pops.out, Plannable popped

theorem durable_spend (rows : PlannedRows) (id : Uuid) :
    (rows.spend id).durable = rows.durable := by
  unfold PlannedRows.spend
  split
  · rfl
  · rfl

section Bounded

variable {rows : PlannedRows} {pops : Pops} {drain : Drain}

/-- A segment a pass has is not admitted again as an eligible one. -/
theorem Pops.Bounded.not_mem_of_admits {budget : ℕ} (h : pops.Bounded rows budget) {id : Uuid}
    (hadmits : pops.ledger.admits id drain = true) (hadmission : drain.admission ≠ .reclaiming) :
    id ∉ pops.out.map Popped.segment := by
  intro hmem
  obtain ⟨popped, hpopped, rfl⟩ := List.mem_map.mp hmem
  unfold admits at hadmits
  split at hadmits
  · cases hadmits
  · rename_i segment hlookup
    have hreclaiming := h.reclaiming popped hpopped segment hlookup
    split at hadmits
    · rename_i hcase
      exact hadmission hcase
    all_goals exact hreclaiming (of_decide_eq_true (Bool.and_eq_true_iff.mp hadmits).1)

theorem Pops.Bounded.push (h : pops.Bounded rows drain.budget) {id : Uuid}
    {taken : SegmentLedger} {popped : Popped} (hfresh : id ∉ pops.out.map Popped.segment)
    (hbudget : pops.out.length < drain.budget) (haffords : pops.rows.affords id = true)
    (htake : pops.ledger.take id drain.bound.current = some (taken, popped)) :
    (pops.push id taken popped).Bounded rows drain.budget := by
  obtain ⟨-, -, hid, ht⟩ := touches_take htake
  refine ⟨?_, ?_, ?_, ?_, ?_, ?_, ?_⟩
  · exact (durable_spend _ _).trans h.durable
  · have hfree := h.free
    unfold Pops.push PlannedRows.spend
    rw [List.filter_append, List.length_append]
    by_cases hdurable : id ∈ pops.rows.durable
    · have hneeds : NeedsRow rows popped = false := by
        rw [NeedsRow, hid, ← h.durable]
        simpa using hdurable
      rw [if_pos hdurable, List.filter_cons_of_neg (by rw [hneeds]; decide)]
      simpa using hfree
    · have hneeds : NeedsRow rows popped = true := by
        rw [NeedsRow, hid, ← h.durable]
        simpa using hdurable
      have hpos : 0 < pops.rows.free := by
        rcases Bool.or_eq_true_iff.mp haffords with hpos | hmem
        · exact of_decide_eq_true hpos
        · exact absurd (of_decide_eq_true hmem) hdurable
      rw [if_neg hdurable, List.filter_cons_of_pos hneeds]
      simp only [List.filter_nil, List.length_cons, List.length_nil]
      omega
  · change (pops.out ++ [popped]).length ≤ drain.budget
    rw [List.length_append]
    exact hbudget
  · change ((pops.out ++ [popped]).map Popped.segment).Nodup
    rw [List.map_append, List.nodup_append]
    refine ⟨h.distinct, List.nodup_singleton _, ?_⟩
    intro other hother last hlast heq
    rw [List.map_cons, List.map_nil, List.mem_singleton, hid] at hlast
    rw [heq, hlast] at hother
    exact hfresh hother
  · intro other hother segment hlookup
    rcases ht.lookup_cases hlookup with ⟨-, old, -, rfl⟩ | ⟨hne, hold⟩
    · intro hstate
      cases hstate
    · rcases List.mem_append.mp hother with hbefore | hlast
      · exact h.reclaiming other hbefore segment hold
      · rw [List.mem_singleton.mp hlast] at hne
        exact absurd hid hne
  · exact h.located.of_moves ((moves_take htake).trans (.of_segments rfl rfl))
  · exact List.forall_mem_append.mpr
      ⟨h.plannable, List.forall_mem_singleton.mpr (plannable_take h.located htake)⟩

/-- A drain keeps the bounds, when its candidates are distinct and a walk of the segments
that are in a pass has none of them popped yet. -/
theorem Pops.Bounded.drainFrom (h : pops.Bounded rows drain.budget) {ids : List Uuid}
    (hnodup : ids.Nodup)
    (hfresh : drain.admission = .reclaiming → ∀ id ∈ ids, id ∉ pops.out.map Popped.segment)
    (refused : Bool) :
    (SegmentLedger.drainFrom drain pops refused ids).1.Bounded rows drain.budget := by
  let holds (pops : Pops) (ids : List Uuid) : Prop :=
    pops.Bounded rows drain.budget ∧ ids.Nodup ∧
      (drain.admission = .reclaiming → ∀ id ∈ ids, id ∉ pops.out.map Popped.segment)
  have hskip : ∀ pops id ids, holds pops (id :: ids) → holds pops ids := by
    rintro pops id ids ⟨hbounded, hdistinct, hnew⟩
    exact ⟨hbounded, hdistinct.of_cons,
      fun hadmission other hother => hnew hadmission other (List.mem_cons_of_mem _ hother)⟩
  have hpop : PopKeeps drain holds := by
    rintro pops id ids taken popped ⟨hbounded, hdistinct, hnew⟩ hbudget hadmits haffords htake
    have hid : id ∉ pops.out.map Popped.segment := by
      by_cases hadmission : drain.admission = .reclaiming
      · exact hnew hadmission id List.mem_cons_self
      · exact hbounded.not_mem_of_admits hadmits hadmission
    refine ⟨hbounded.push hid hbudget haffords htake, hdistinct.of_cons, ?_⟩
    intro hadmission other hother hmem
    change other ∈ (pops.out ++ [popped]).map Popped.segment at hmem
    rw [List.map_append] at hmem
    rcases List.mem_append.mp hmem with hbefore | hlast
    · exact hnew hadmission other (List.mem_cons_of_mem _ hother) hbefore
    · obtain ⟨-, -, hsegment, -⟩ := touches_take htake
      rw [List.map_cons, List.map_nil, List.mem_singleton, hsegment] at hlast
      subst hlast
      exact (List.nodup_cons.mp hdistinct).1 hother
  obtain ⟨rest, hend, -⟩ := drainFrom_rule hskip hpop (show holds pops ids from
    ⟨h, hnodup, hfresh⟩) refused
  exact hend

theorem nodup_candidates (ledger : SegmentLedger) (drain : Drain) :
    (ledger.candidates drain).Nodup := by
  unfold candidates
  split
  · exact nodup_ascending _
  · exact (nodup_ascending _).filter _
  · split <;> exact (((nodup_ascending _).sublist (List.takeWhile_sublist _)).filter _).sublist
      (List.take_sublist _ _)

end Bounded

theorem Pops.Bounded.drain {rows : PlannedRows} {pops : Pops} (drain : Drain)
    (h : pops.Bounded rows drain.budget)
    (hfresh : drain.admission = .reclaiming → pops.out = []) :
    (SegmentLedger.drain drain pops).1.Bounded rows drain.budget := by
  apply h.drainFrom (nodup_candidates _ _)
  intro hadmission id _
  rw [hfresh hadmission]
  exact List.not_mem_nil

/-- The bounds a pass keeps to, whatever the ledger holds. -/
theorem pop_bounded (h : ledger.Located) (bound : PopBound) (budget : ℕ) :
    ((ledger.pop bound budget).2.1.filter (NeedsRow bound.rows)).length ≤ bound.rows.free ∧
      (ledger.pop bound budget).2.1.length ≤ budget ∧
      ((ledger.pop bound budget).2.1.map Popped.segment).Nodup ∧
      (ledger.pop bound budget).1.Located ∧
      ∀ popped ∈ (ledger.pop bound budget).2.1, Plannable popped := by
  have hstart : Pops.Bounded bound.rows budget ⟨ledger, [], bound.rows⟩ :=
    ⟨rfl, Nat.zero_add _, Nat.zero_le _, List.nodup_nil, by simp, h, by simp⟩
  unfold pop
  split
  · have hfirst := Pops.Bounded.drain ⟨bound, budget, .reclaiming⟩ hstart fun _ => rfl
    have hsecond := Pops.Bounded.drain ⟨bound, budget, .rowed⟩ hfirst nofun
    have hthird := Pops.Bounded.drain ⟨bound, budget, .eligible⟩ hsecond nofun
    have hfree := hthird.free
    exact ⟨Nat.le.intro hfree, hthird.budget, hthird.distinct, hthird.located, hthird.plannable⟩
  · exact ⟨Nat.zero_le _, Nat.zero_le _, List.nodup_nil, h, by simp⟩

/-! ## Rows come first -/

/-- A pass may plan a segment: no pass has it, the checkpoint covers it, it is not the
append target and, where tenants constrain, none holds it back. -/
def Eligible (ledger : SegmentLedger) (bound : PopBound) (id : Uuid) : Prop :=
  id ≠ bound.current ∧ ∃ segment, ledger.segments.lookup id = some segment ∧
    segment.state = .eligible ∧ segment.highest ≤ bound.checkpoint ∧
      (bound.tenantAware = true → segment.pending = ∅)

/-- An operation leaves a segment and its places in the sets alone. -/
structure Spares (ledger after : SegmentLedger) (id : Uuid) : Prop where
  lookup : after.segments.lookup id = ledger.segments.lookup id
  unpinned : id ∈ after.unpinned ↔ id ∈ ledger.unpinned
  reclaiming : id ∈ after.reclaiming ↔ id ∈ ledger.reclaiming

theorem Spares.refl (ledger : SegmentLedger) (id : Uuid) : ledger.Spares ledger id :=
  ⟨rfl, Iff.rfl, Iff.rfl⟩

theorem Spares.trans {last : SegmentLedger} (h : ledger.Spares after id)
    (hnext : after.Spares last id) : ledger.Spares last id :=
  ⟨hnext.lookup.trans h.lookup, hnext.unpinned.trans h.unpinned,
    hnext.reclaiming.trans h.reclaiming⟩

theorem Spares.eligible (hspares : ledger.Spares after id) (h : ledger.Eligible bound id) :
    after.Eligible bound id := by
  obtain ⟨hcurrent, segment, hlookup, hrest⟩ := h
  exact ⟨hcurrent, segment, hspares.lookup.trans hlookup, hrest⟩

/-- Popping one segment leaves every other one alone. -/
theorem spares_take {other current : Uuid} {popped : Popped}
    (htake : ledger.take id current = some (after, popped)) (hne : other ≠ id) :
    ledger.Spares after other := by
  unfold take at htake
  split at htake
  · cases htake
  split at htake
  · cases htake
  rename_i segment hlookup
  cases htake
  refine ⟨AList.lookup_insert_ne hne, ?_, ?_⟩
  · rw [Finset.mem_erase, and_iff_right hne]
  · split
    · rw [Finset.mem_insert, or_iff_right hne]
    · rfl

/-- What a drain popped stays popped, and what it did not pop it left alone. -/
theorem drainFrom_spares (drain : Drain) (pops : Pops) (refused : Bool) (ids : List Uuid) :
    pops.out <+: (drainFrom drain pops refused ids).1.out ∧
      ∀ id, id ∉ (drainFrom drain pops refused ids).1.out.map Popped.segment →
        pops.ledger.Spares (drainFrom drain pops refused ids).1.ledger id := by
  let holds (now : Pops) (_ : List Uuid) : Prop :=
    pops.out <+: now.out ∧ ∀ id, id ∉ now.out.map Popped.segment →
      pops.ledger.Spares now.ledger id
  have hpop : PopKeeps drain holds := by
    rintro now id ids taken popped ⟨hout, hspared⟩ - - - htake
    refine ⟨hout.trans (List.prefix_append _ _), ?_⟩
    intro other hother
    change other ∉ (now.out ++ [popped]).map Popped.segment at hother
    rw [List.map_append, List.mem_append, not_or] at hother
    obtain ⟨-, -, hid, -⟩ := touches_take htake
    have hne : other ≠ id := by
      rintro rfl
      exact hother.2 (by rw [List.map_cons, hid]; exact List.mem_cons_self)
    obtain ⟨hlookup, hunpinned, hreclaiming⟩ := spares_take htake hne
    exact (hspared other hother.1).trans ⟨hlookup, hunpinned, hreclaiming⟩
  obtain ⟨rest, hend⟩ := drainFrom_rule (fun _ _ _ h => h) hpop
    (show holds pops ids from ⟨List.prefix_rfl, fun id _ => .refl _ id⟩) refused
  exact hend

theorem exists_take {drain : Drain} (hadmits : ledger.admits id drain = true)
    (hcurrent : id ≠ drain.bound.current) :
    ∃ taken popped, ledger.take id drain.bound.current = some (taken, popped) := by
  unfold admits at hadmits
  split at hadmits
  · cases hadmits
  · rename_i segment hlookup
    unfold take
    rw [if_neg hcurrent, hlookup]
    exact ⟨_, _, rfl⟩

/-- A candidate that is admitted, has a row and is not the append target is popped, unless
the budget runs out. -/
theorem drainFrom_complete {drain : Drain} {pops : Pops} {ids : List Uuid} (hid : id ∈ ids)
    (hcurrent : id ≠ drain.bound.current) (hrow : id ∈ pops.rows.durable)
    (hadmits : pops.ledger.admits id drain = true) (refused : Bool) :
    id ∈ (drainFrom drain pops refused ids).1.out.map Popped.segment ∨
      drain.budget ≤ (drainFrom drain pops refused ids).1.out.length := by
  induction ids generalizing pops refused with
  | nil => cases hid
  | cons head tail ih =>
    by_cases hbudget : drain.budget ≤ pops.out.length
    · right
      unfold drainFrom
      rw [if_pos hbudget]
      exact hbudget
    by_cases heq : id = head
    · subst heq
      have haffords : pops.rows.affords id = true :=
        Bool.or_eq_true_iff.mpr (.inr (decide_eq_true hrow))
      obtain ⟨taken, popped, htake⟩ := exists_take hadmits hcurrent
      obtain ⟨-, -, hsegment, -⟩ := touches_take htake
      left
      have hstep : drainFrom drain pops refused (id :: tail) =
          drainFrom drain (pops.push id taken popped) refused tail := by
        conv_lhs => unfold drainFrom
        rw [if_neg hbudget, if_pos hadmits, if_pos haffords, htake]
        rfl
      rw [hstep]
      have hkept := (drainFrom_spares drain (pops.push id taken popped) refused tail).1
      refine List.mem_map.mpr ⟨popped, hkept.subset ?_, hsegment⟩
      exact List.mem_append_right _ List.mem_cons_self
    · have htail : id ∈ tail := (List.mem_cons.mp hid).resolve_left heq
      unfold drainFrom
      rw [if_neg hbudget]
      split
      · split
        · split
          · exact ih htail hrow hadmits refused
          · rename_i taken popped htake
            have hspared := spares_take htake heq
            apply ih htail
            · rwa [durable_spend]
            · unfold admits
              rw [show ({ taken with saturated := _ } : SegmentLedger).segments.lookup id =
                pops.ledger.segments.lookup id from hspared.lookup]
              exact hadmits
        · exact ih htail hrow hadmits true
      · exact ih htail hrow hadmits refused

theorem drainFrom_durable (drain : Drain) (pops : Pops) (refused : Bool) (ids : List Uuid) :
    (drainFrom drain pops refused ids).1.rows.durable = pops.rows.durable := by
  let holds (now : Pops) (_ : List Uuid) : Prop := now.rows.durable = pops.rows.durable
  have hpop : PopKeeps drain holds := by
    intro now id rest taken popped hnow _ _ _ _
    exact (durable_spend _ _).trans hnow
  obtain ⟨rest, hend⟩ := drainFrom_rule (fun _ _ _ h => h) hpop (show holds pops ids from rfl)
    refused
  exact hend

/-- An eligible segment with a row is a candidate of the walk over the rows. -/
theorem mem_candidates_rowed {budget : ℕ} (heligible : ledger.Eligible bound id)
    (hrow : id ∈ bound.rows.durable) (hunpinned : bound.tenantAware = true → id ∈ ledger.unpinned)
    (hfree : id ∉ ledger.reclaiming) : id ∈ ledger.candidates ⟨bound, budget, .rowed⟩ := by
  obtain ⟨hcurrent, segment, hlookup, -, hhighest, -⟩ := heligible
  refine List.mem_filter.mpr ⟨mem_ascending.mpr hrow, ?_⟩
  have hcovered : ledger.coveredBy bound id = true := by
    unfold coveredBy
    rw [hlookup]
    exact decide_eq_true hhighest
  have hunclaimed : ledger.unclaimed bound id = true := by
    unfold unclaimed
    split
    · rename_i haware
      exact decide_eq_true (hunpinned haware)
    · exact decide_eq_true hfree
  rw [hcovered, hunclaimed, Bool.and_true, Bool.and_true]
  exact decide_eq_true hcurrent

theorem Eligible.mem_unpinned (h : ledger.Eligible bound id) (hoffered : ledger.Offered)
    (haware : bound.tenantAware = true) : id ∈ ledger.unpinned := by
  obtain ⟨-, segment, hlookup, hstate, -, hpending⟩ := h
  exact hoffered id segment hlookup ⟨hstate, hpending haware⟩

theorem Eligible.admits (h : ledger.Eligible bound id) (budget : ℕ) (admission : Admit) :
    ledger.admits id ⟨bound, budget, admission⟩ = true := by
  obtain ⟨-, segment, hlookup, hstate, hhighest, -⟩ := h
  unfold SegmentLedger.admits
  rw [hlookup]
  cases admission with
  | reclaiming => rfl
  | rowed | eligible =>
    exact Bool.and_eq_true_iff.mpr ⟨decide_eq_true hstate, decide_eq_true hhighest⟩

/-- The first two walks pop an eligible segment that has a row, unless the budget runs
out within them. -/
theorem drains_complete (budget : ℕ) (hoffered : ledger.Offered)
    (heligible : ledger.Eligible bound id) (hrow : id ∈ bound.rows.durable) :
    let first := (drain ⟨bound, budget, .reclaiming⟩ ⟨ledger, [], bound.rows⟩).1
    let second := (drain ⟨bound, budget, .rowed⟩ first).1
    id ∈ second.out.map Popped.segment ∨ budget ≤ second.out.length := by
  intro first second
  obtain ⟨-, hfirst⟩ := drainFrom_spares ⟨bound, budget, .reclaiming⟩ ⟨ledger, [], bound.rows⟩
    false (ledger.candidates ⟨bound, budget, .reclaiming⟩)
  obtain ⟨hsecond, -⟩ := drainFrom_spares ⟨bound, budget, .rowed⟩ first false
    (first.ledger.candidates ⟨bound, budget, .rowed⟩)
  by_cases hpopped : id ∈ first.out.map Popped.segment
  · left
    exact (hsecond.map Popped.segment).subset hpopped
  have hspared := hfirst id hpopped
  by_cases hreclaiming : id ∈ ledger.reclaiming
  · have hcomplete : id ∈ first.out.map Popped.segment ∨ budget ≤ first.out.length := by
      apply drainFrom_complete (mem_ascending.mpr hreclaiming) heligible.1
      · exact hrow
      · exact heligible.admits budget .reclaiming
    rcases hcomplete with hid | hspent
    · exact absurd hid hpopped
    · right
      exact hspent.trans hsecond.length_le
  · have hfirstRow : id ∈ first.rows.durable := by
      rw [show first.rows.durable = bound.rows.durable from drainFrom_durable _ _ _ _]
      exact hrow
    have hfirstEligible := hspared.eligible heligible
    exact drainFrom_complete
      (mem_candidates_rowed hfirstEligible hrow
        (fun haware => hspared.unpinned.mpr (heligible.mem_unpinned hoffered haware))
        fun h => hreclaiming (hspared.reclaiming.mp h))
      heligible.1 hfirstRow (hfirstEligible.admits budget .rowed) false

/-- An eligible segment that has a row is planned, or the budget was spent before the pass
came to segments without one. -/
theorem pop_rows_first {budget : ℕ} (hoffered : ledger.Offered)
    (heligible : ledger.Eligible bound id) (hrow : id ∈ bound.rows.durable)
    (hsome : (ledger.pop bound budget).2.1 ≠ [])
    (hunplanned : id ∉ (ledger.pop bound budget).2.1.map Popped.segment) :
    budget ≤ (ledger.pop bound budget).2.1.length := by
  unfold pop at hsome hunplanned ⊢
  split at hsome
  case isFalse => exact absurd rfl hsome
  rename_i hdescribes
  rw [if_pos hdescribes] at hunplanned ⊢
  obtain ⟨hthird, -⟩ := drainFrom_spares ⟨bound, budget, .eligible⟩
    (drain ⟨bound, budget, .rowed⟩
      (drain ⟨bound, budget, .reclaiming⟩ ⟨ledger, [], bound.rows⟩).1).1 false
    (candidates _ ⟨bound, budget, .eligible⟩)
  rcases drains_complete budget hoffered heligible hrow with hid | hspent
  · exact absurd ((hthird.map Popped.segment).subset hid) hunplanned
  · exact hspent.trans hthird.length_le

end SegmentLedger

end Ourios.Retain
