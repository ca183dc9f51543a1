/-
# The id allocator over whole runs

Any sequence of calls on an allocator, with reservers that answer as they like: blocks
that overlap issued ids, leave gaps, reach past the id domain, or no block at all. A run
that meets `u64` arithmetic is the same run (`callWrapping`), so the natural numbers of
the model stand for what the machine computes.

An id is inside a block that the reserver installed last returned, or in the range a new
allocator starts with. A reserver that was asked nothing has returned nothing: installing
one forgets the range in hand.
-/

import Ourios.Foundation.Machine
import Ourios.Miner.State

namespace Ourios.Miner

open Ourios.Foundation

inductive IdCall
  | take
  | reserveCurrentBlock
  | allocatePastIssued (issued : Nat)
  | withIdReserver (reserve : List Nat → Nat → Option IdBlock)

/-- What a call returns. -/
inductive IdAnswer
  | id (id : Nat)
  | done
  | failed
  deriving DecidableEq, Repr

variable (ids : IdRange)

namespace IdRange

/-- Install a reserver. The range in hand is dropped. -/
def withIdReserver (reserve : List Nat → Nat → Option IdBlock) : IdRange :=
  { ids with stop := ids.next, asked := [], reserve := reserve }

def call : IdCall → IdAnswer × IdRange
  | .take =>
    match ids.take with
    | (some id, next) => (.id id, next)
    | (none, next) => (.failed, next)
  | .reserveCurrentBlock =>
    match ids.ensure with
    | (true, next) => (.done, next)
    | (false, next) => (.failed, next)
  | .allocatePastIssued issued =>
    match ids.allocatePast issued with
    | some next => (.done, next)
    | none => (.failed, ids)
  | .withIdReserver reserve => (.done, ids.withIdReserver reserve)

/-- The allocator as a machine that emits the ids it issues. -/
def machine : Machine IdRange IdCall Nat where
  step := fun ids call =>
    match ids.call call with
    | (.id id, next) => (next, [id])
    | (_, next) => (next, [])

/-- The allocator after some calls. -/
def after (calls : List IdCall) : IdRange := (machine.run ids calls).1

/-- The ids some calls issue, in order. -/
def issued (calls : List IdCall) : List Nat := (machine.run ids calls).2

/-- The blocks the reserver in use has returned. -/
def granted : List IdBlock :=
  (List.range ids.asked.length).filterMap fun i =>
    ids.reserve (ids.asked.take i) (ids.asked.getD i 0)

/-! ## Machine arithmetic -/

def wrappingAdd (a b : Nat) : Nat := (a + b) % 2 ^ 64

def wrappingSub (a b : Nat) : Nat := (a + 2 ^ 64 - b) % 2 ^ 64

/-- The fields of an allocator, as a call with `u64` arithmetic leaves them. -/
structure Fields where
  next : Nat
  stop : Nat
  deriving DecidableEq, Repr

def ensureWrapping : Bool × Fields :=
  if ids.next < ids.stop then (true, ⟨ids.next, ids.stop⟩)
  else
    let floor := wrappingSub ids.next 1
    match ids.reserve ids.asked floor with
    | none => (false, ⟨ids.next, ids.stop⟩)
    | some block =>
      if block.after < floor then (false, ⟨ids.next, ids.stop⟩)
      else if maxTemplateId < block.through then (false, ⟨ids.next, ids.stop⟩)
      else (true, ⟨wrappingAdd block.after 1, wrappingAdd block.through 1⟩)

def callWrapping : IdCall → IdAnswer × Fields
  | .take =>
    match ids.ensureWrapping with
    | (true, ready) => (.id ready.next, { ready with next := wrappingAdd ready.next 1 })
    | (false, failed) => (.failed, failed)
  | .reserveCurrentBlock =>
    match ids.ensureWrapping with
    | (true, ready) => (.done, ready)
    | (false, failed) => (.failed, failed)
  | .allocatePastIssued issued =>
    if maxTemplateId < issued then (.failed, ⟨ids.next, ids.stop⟩)
    else (.done, ⟨max ids.next (wrappingAdd issued 1), ids.stop⟩)
  | .withIdReserver _ => (.done, ⟨ids.next, ids.next⟩)

/-! ## What a call can do -/

/-- What `ensure` can do: nothing, fail, or move into a reserved block. -/
inductive Ensures (ids : IdRange) : Bool → IdRange → Prop
  | ready (h : ids.next < ids.stop) : Ensures ids true ids
  | refused (h : ¬ ids.next < ids.stop) :
      Ensures ids false { ids with asked := ids.asked ++ [ids.next - 1] }
  | reserved {block : IdBlock} (h : ¬ ids.next < ids.stop)
      (hblock : ids.reserve ids.asked (ids.next - 1) = some block)
      (hafter : ids.next - 1 ≤ block.after) (hthrough : block.through ≤ maxTemplateId) :
      Ensures ids true { ids with
        asked := ids.asked ++ [ids.next - 1]
        stop := block.through + 1
        next := block.after + 1
        next_pos := Nat.succ_pos _ }

theorem ensures_ensure : Ensures ids ids.ensure.1 ids.ensure.2 := by
  unfold ensure
  split
  · rename_i hready
    exact .ready hready
  · rename_i hused
    dsimp only
    split
    · exact .refused hused
    · rename_i block hblock
      split
      · exact .refused hused
      · rename_i hafter
        split
        · exact .refused hused
        · rename_i hthrough
          exact .reserved hused hblock (Nat.le_of_not_lt hafter) (Nat.le_of_not_lt hthrough)

/-- What a call can do. -/
inductive Calls (ids : IdRange) : IdCall → IdAnswer → IdRange → Prop
  | take {ready : IdRange} (h : Ensures ids true ready) :
      Calls ids .take (.id ready.next)
        { ready with next := ready.next + 1, next_pos := Nat.succ_pos _ }
  | takeFailed {failed : IdRange} (h : Ensures ids false failed) : Calls ids .take .failed failed
  | reserve {ready : IdRange} (h : Ensures ids true ready) :
      Calls ids .reserveCurrentBlock .done ready
  | reserveFailed {failed : IdRange} (h : Ensures ids false failed) :
      Calls ids .reserveCurrentBlock .failed failed
  | seat {issued : Nat} (h : issued ≤ maxTemplateId) :
      Calls ids (.allocatePastIssued issued) .done
        { ids with
          next := max ids.next (issued + 1)
          next_pos := lt_max_of_lt_left ids.next_pos }
  | seatFailed {issued : Nat} (h : maxTemplateId < issued) :
      Calls ids (.allocatePastIssued issued) .failed ids
  | install (reserve : List Nat → Nat → Option IdBlock) :
      Calls ids (.withIdReserver reserve) .done (ids.withIdReserver reserve)

theorem calls_call (call : IdCall) : Calls ids call (ids.call call).1 (ids.call call).2 := by
  have hensure := ids.ensures_ensure
  cases call with
  | take =>
    unfold IdRange.call IdRange.take
    rcases hready : ids.ensure with ⟨_ | _, ready⟩
    · rw [hready] at hensure
      exact .takeFailed hensure
    · rw [hready] at hensure
      exact .take hensure
  | reserveCurrentBlock =>
    unfold IdRange.call
    rcases hready : ids.ensure with ⟨_ | _, ready⟩
    · rw [hready] at hensure
      exact .reserveFailed hensure
    · rw [hready] at hensure
      exact .reserve hensure
  | allocatePastIssued issued =>
    by_cases hlt : maxTemplateId < issued
    · have hpast : ids.allocatePast issued = none := if_pos hlt
      simp only [IdRange.call, hpast]
      exact .seatFailed hlt
    · have hpast : ids.allocatePast issued = some { ids with
          next := max ids.next (issued + 1)
          next_pos := lt_max_of_lt_left ids.next_pos } := if_neg hlt
      simp only [IdRange.call, hpast]
      exact .seat (Nat.le_of_not_lt hlt)
  | withIdReserver reserve => exact .install reserve

/-! ## One call -/

section Step

variable {ids next : IdRange} {call : IdCall} {answer : IdAnswer}

variable {ok : Bool} {ready : IdRange} {initial : Prop}

theorem Ensures.next_le (h : Ensures ids ok ready) :
    ids.next ≤ ready.next := by
  cases h with
  | ready | refused => exact le_rfl
  | reserved hused hblock hafter hthrough =>
    change ids.next ≤ _ + 1
    omega

theorem Ensures.lt_stop (h : Ensures ids true ready) :
    ready.next < ready.stop := by
  cases h with
  | ready hlt => exact hlt
  | @reserved block hused hblock hafter hthrough => exact Nat.succ_lt_succ block.nonempty

/-- The next id never goes back. -/
theorem Calls.next_le (h : Calls ids call answer next) : ids.next ≤ next.next := by
  cases h with
  | take h => exact h.next_le.trans (Nat.le_succ _)
  | takeFailed h | reserve h | reserveFailed h => exact h.next_le
  | seat h => exact le_max_left _ _
  | seatFailed | install => exact le_rfl

/-- An issued id is the next one or above it, and the allocator moves past it. -/
theorem Calls.issued {id : Nat} (h : Calls ids call (.id id) next) :
    ids.next ≤ id ∧ id < next.next := by
  cases h with
  | take h => exact ⟨h.next_le, Nat.lt_succ_self _⟩

/-- An allocator seated past a value has it behind. -/
theorem Calls.seated {past : Nat} (h : Calls ids (.allocatePastIssued past) .done next) :
    past < next.next := by
  cases h with
  | seat h => exact Nat.lt_of_succ_le (le_max_right _ _)

/-- A failed call moves nothing. -/
theorem Calls.unchanged_of_failed (h : Calls ids call .failed next) :
    next.next = ids.next ∧ next.stop = ids.stop := by
  cases h with
  | takeFailed h | reserveFailed h =>
    cases h with
    | refused => exact ⟨rfl, rfl⟩
  | seatFailed h => exact ⟨rfl, rfl⟩

/-- The allocator lies within the id domain, or just past its end. -/
structure InDomain (ids : IdRange) : Prop where
  next_le : ids.next ≤ maxTemplateId + 1
  stop_le : ids.stop ≤ maxTemplateId + 1

theorem InDomain.ensures (hdomain : ids.InDomain) (h : Ensures ids ok ready) : ready.InDomain := by
  cases h with
  | ready => exact hdomain
  | refused => exact ⟨hdomain.next_le, hdomain.stop_le⟩
  | @reserved block hused hblock hafter hthrough =>
    have := block.nonempty
    refine ⟨?_, ?_⟩
    · change block.after + 1 ≤ _
      omega
    · exact Nat.succ_le_succ hthrough

theorem InDomain.calls (hdomain : ids.InDomain) (h : Calls ids call answer next) :
    next.InDomain := by
  cases h with
  | take h =>
    have hready := hdomain.ensures h
    exact ⟨h.lt_stop.trans_le hready.stop_le, hready.stop_le⟩
  | takeFailed h | reserve h | reserveFailed h => exact hdomain.ensures h
  | seat h => exact ⟨max_le hdomain.next_le (Nat.succ_le_succ h), hdomain.stop_le⟩
  | seatFailed h => exact hdomain
  | install reserve => exact ⟨hdomain.next_le, hdomain.next_le⟩

/-! ## Where the ids in hand come from -/

theorem mem_granted {block : IdBlock} : block ∈ ids.granted ↔
    ∃ i < ids.asked.length, ids.reserve (ids.asked.take i) (ids.asked.getD i 0) = some block := by
  simp [granted]

/-- The block returned now is one the reserver returned. -/
theorem granted_new (ids : IdRange) {floor : Nat} (hasked : ready.asked = ids.asked ++ [floor])
    (hreserve : ready.reserve = ids.reserve) {block : IdBlock}
    (h : ids.reserve ids.asked floor = some block) : block ∈ ready.granted := by
  refine mem_granted.mpr ⟨ids.asked.length, ?_, ?_⟩
  · rw [hasked, List.length_append]
    exact Nat.lt_succ_self _
  · have hfloor : (ids.asked ++ [floor]).getD ids.asked.length 0 = floor := by simp
    rw [hasked, hreserve, List.take_left, hfloor]
    exact h

/-- Every id in hand is in the first range, while no reserver was installed, or in a block
that the reserver in use returned. -/
def Grounded (initial : Prop) (ids : IdRange) : Prop :=
  ∀ id, ids.next ≤ id → id < ids.stop →
    initial ∨ ∃ block ∈ ids.granted, block.after < id ∧ id ≤ block.through

theorem Grounded.ensures (hground : ids.Grounded initial) (h : Ensures ids ok ready) :
    ready.Grounded initial := by
  cases h with
  | ready => exact hground
  | refused hused =>
    intro id hle hlt
    exact absurd (hle.trans_lt hlt) hused
  | @reserved block hused hblock hafter hthrough =>
    intro id hle hlt
    refine .inr ⟨block, ?_, hle, Nat.lt_succ_iff.mp hlt⟩
    apply granted_new ids _ _ hblock
    · rfl
    · rfl

theorem Grounded.calls (hground : ids.Grounded initial) (h : Calls ids call answer next) :
    next.Grounded (initial ∧ ∀ reserve, call ≠ .withIdReserver reserve) := by
  have hkeep : ∀ {ready : IdRange}, ready.Grounded initial →
      (∀ reserve, call ≠ .withIdReserver reserve) →
      ready.Grounded (initial ∧ ∀ reserve, call ≠ .withIdReserver reserve) := by
    intro ready hready hcall id hle hlt
    exact (hready id hle hlt).imp_left fun hinitial => ⟨hinitial, hcall⟩
  cases h with
  | take h =>
    refine hkeep ?_ (fun _ => nofun)
    intro id hle hlt
    exact hground.ensures h id (Nat.le_of_succ_le hle) hlt
  | takeFailed h | reserve h | reserveFailed h => exact hkeep (hground.ensures h) (fun _ => nofun)
  | seat h =>
    refine hkeep ?_ (fun _ => nofun)
    intro id hle hlt
    exact hground id ((le_max_left _ _).trans hle) hlt
  | seatFailed h => exact hkeep hground (fun _ => nofun)
  | install reserve =>
    intro id hle hlt
    exact absurd (hle.trans_lt hlt) (lt_irrefl _)

/-- An issued id is in the id domain and comes from where the allocator says. -/
theorem Calls.id_origin {id : Nat} (hdomain : ids.InDomain) (hground : ids.Grounded initial)
    (h : Calls ids call (.id id) next) :
    1 ≤ id ∧ id ≤ maxTemplateId ∧
      (initial ∨ ∃ block ∈ next.granted, block.after < id ∧ id ≤ block.through) := by
  cases h with
  | @take ready h =>
    have hlt := h.lt_stop
    refine ⟨ready.next_pos, ?_, hground.ensures h _ le_rfl hlt⟩
    exact Nat.lt_succ_iff.mp (hlt.trans_le (hdomain.ensures h).stop_le)

end Step

/-! ## Whole runs -/

section Runs

variable (ids : IdRange) (calls : List IdCall)

theorem after_append (later : List IdCall) :
    ids.after (calls ++ later) = (ids.after calls).after later := by
  rw [after, machine.run_append]
  rfl

theorem step_fst (call : IdCall) : (machine.step ids call).1 = (ids.call call).2 := by
  simp only [machine]
  split
  · rename_i hcall
    rw [hcall]
  · rename_i hcall
    rw [hcall]

theorem after_singleton (call : IdCall) : ids.after [call] = (ids.call call).2 := step_fst ids call

/-- A step emits the id its call issues and nothing else. -/
theorem mem_step_snd {call : IdCall} {id : Nat} (h : id ∈ (machine.step ids call).2) :
    (machine.step ids call).2 = [id] ∧ (ids.call call).1 = .id id := by
  simp only [machine] at h ⊢
  split at h
  · rename_i issued next hcall
    rw [List.mem_singleton.mp h, hcall]
    exact ⟨rfl, rfl⟩
  · cases h

/-- Every later id is the next one or above it. -/
theorem next_le_of_mem_issued {id : Nat} (h : id ∈ ids.issued calls) : ids.next ≤ id := by
  induction calls generalizing ids with
  | nil => cases h
  | cons call calls ih =>
    have hcall := calls_call ids call
    rw [issued, machine.run_cons, List.mem_append] at h
    rcases h with hhere | hlater
    · rw [(mem_step_snd ids hhere).2] at hcall
      exact hcall.issued.1
    · have hle := ih _ hlater
      rw [step_fst] at hle
      exact hcall.next_le.trans hle

theorem issued_increasing : (ids.issued calls).Pairwise (· < ·) := by
  induction calls generalizing ids with
  | nil => exact .nil
  | cons call calls ih =>
    have hcall := calls_call ids call
    refine List.pairwise_append.mpr ⟨?_, ih _, ?_⟩
    · cases hstep : (machine.step ids call).2 with
      | nil => exact .nil
      | cons id rest =>
        have hmem : id ∈ (machine.step ids call).2 := by
          rw [hstep]
          exact List.mem_cons_self
        rw [← hstep, (mem_step_snd ids hmem).1]
        exact List.pairwise_singleton _ _
    · intro id hid later hlater
      rw [(mem_step_snd ids hid).2] at hcall
      have hle := next_le_of_mem_issued _ calls hlater
      rw [step_fst] at hle
      exact hcall.issued.2.trans_le hle

theorem inDomain_new : new.InDomain := ⟨by decide, le_rfl⟩

theorem InDomain.after {ids : IdRange} (h : ids.InDomain) : (ids.after calls).InDomain := by
  induction calls generalizing ids with
  | nil => exact h
  | cons call calls ih =>
    have hstep : (machine.step ids call).1.InDomain := by
      rw [step_fst]
      exact h.calls (calls_call ids call)
    exact ih hstep

theorem grounded_new : new.Grounded True := fun _ _ _ => .inl trivial

theorem Grounded.after {ids : IdRange} {initial : Prop} (h : ids.Grounded initial) :
    (ids.after calls).Grounded (initial ∧ ∀ reserve, IdCall.withIdReserver reserve ∉ calls) := by
  induction calls generalizing ids initial with
  | nil =>
    intro id hle hlt
    exact (h id hle hlt).imp_left fun hinitial => ⟨hinitial, fun _ => List.not_mem_nil⟩
  | cons call calls ih =>
    have hstep : (machine.step ids call).1.Grounded
        (initial ∧ ∀ reserve, call ≠ .withIdReserver reserve) := by
      rw [step_fst]
      exact h.calls (calls_call ids call)
    intro id hle hlt
    refine (ih hstep id hle hlt).imp_left ?_
    rintro ⟨⟨hinitial, hcall⟩, hcalls⟩
    refine ⟨hinitial, ?_⟩
    intro reserve hmem
    rcases List.mem_cons.mp hmem with heq | htail
    · exact hcall reserve heq.symm
    · exact hcalls reserve htail

end Runs

/-! ## Machine arithmetic agrees -/

section Wrapping

variable {ids : IdRange}

theorem wrappingAdd_one {n : Nat} (h : n ≤ maxTemplateId) : wrappingAdd n 1 = n + 1 := by
  rw [maxTemplateId] at h
  exact Nat.mod_eq_of_lt (by omega)

theorem wrappingSub_one {n : Nat} (hpos : 0 < n) (h : n ≤ maxTemplateId + 1) :
    wrappingSub n 1 = n - 1 := by
  rw [maxTemplateId] at h
  rw [wrappingSub]
  omega

def fields (ids : IdRange) : Fields := ⟨ids.next, ids.stop⟩

theorem ensureWrapping_eq (h : ids.InDomain) :
    ids.ensureWrapping = (ids.ensure.1, ids.ensure.2.fields) := by
  have hfloor := wrappingSub_one ids.next_pos h.next_le
  unfold ensureWrapping ensure
  by_cases hready : ids.next < ids.stop
  · rw [if_pos hready, if_pos hready]
    rfl
  · rw [if_neg hready, if_neg hready]
    dsimp only
    rw [hfloor]
    cases hblock : ids.reserve ids.asked (ids.next - 1) with
    | none => rfl
    | some block =>
      dsimp only
      by_cases hafter : block.after < ids.next - 1
      · rw [if_pos hafter, if_pos hafter]
        rfl
      · rw [if_neg hafter, if_neg hafter]
        by_cases hthrough : maxTemplateId < block.through
        · rw [if_pos hthrough, if_pos hthrough]
          rfl
        · have hle := Nat.le_of_not_lt hthrough
          rw [if_neg hthrough, if_neg hthrough, wrappingAdd_one hle,
            wrappingAdd_one (block.nonempty.le.trans hle)]
          rfl

/-- No call of an allocator in the id domain overflows. -/
theorem callWrapping_eq (h : ids.InDomain) (call : IdCall) :
    ids.callWrapping call = ((ids.call call).1, (ids.call call).2.fields) := by
  have hensure := ensures_ensure ids
  cases call with
  | take =>
    unfold callWrapping IdRange.call IdRange.take
    rw [ensureWrapping_eq h]
    rcases hready : ids.ensure with ⟨_ | _, ready⟩
    · rfl
    · rw [hready] at hensure
      have hlt : ready.next < ready.stop := hensure.lt_stop
      have hstop := (h.ensures hensure).stop_le
      have hadd : wrappingAdd ready.next 1 = ready.next + 1 :=
        wrappingAdd_one (Nat.lt_succ_iff.mp (hlt.trans_le hstop))
      simp only [fields, hadd]
  | reserveCurrentBlock =>
    unfold callWrapping IdRange.call
    rw [ensureWrapping_eq h]
    rcases ids.ensure with ⟨_ | _, ready⟩
    · rfl
    · rfl
  | allocatePastIssued issued =>
    by_cases hlt : maxTemplateId < issued
    · have hpast : ids.allocatePast issued = none := if_pos hlt
      simp only [callWrapping, IdRange.call, hpast, if_pos hlt, fields]
    · have hpast : ids.allocatePast issued = some { ids with
          next := max ids.next (issued + 1)
          next_pos := lt_max_of_lt_left ids.next_pos } := if_neg hlt
      simp only [callWrapping, IdRange.call, hpast, if_neg hlt, fields,
        wrappingAdd_one (Nat.le_of_not_lt hlt)]
  | withIdReserver reserve => rfl

end Wrapping

/-- In every run of a new allocator, whatever its reservers answer: the issued ids
increase, each is in the id domain and in a block of the reserver in use or the first
range, none is at or below a value the allocator was seated past, a failed call moves
nothing, and no arithmetic overflows. -/
theorem allocator_sound (calls : List IdCall) :
    (new.issued calls).Pairwise (· < ·) ∧
    (∀ call id, ((new.after calls).call call).1 = .id id → 1 ≤ id ∧ id ≤ maxTemplateId ∧
      ((∀ reserve, IdCall.withIdReserver reserve ∉ calls) ∨
        ∃ block ∈ (new.after (calls ++ [call])).granted, block.after < id ∧ id ≤ block.through)) ∧
    (∀ past, ((new.after calls).call (.allocatePastIssued past)).1 = .done → ∀ later,
      ∀ id ∈ (new.after (calls ++ [.allocatePastIssued past])).issued later, past < id) ∧
    (∀ call, ((new.after calls).call call).1 = .failed →
      (new.after (calls ++ [call])).fields = (new.after calls).fields) ∧
    ∀ call, (new.after calls).callWrapping call =
      (((new.after calls).call call).1, (new.after (calls ++ [call])).fields) := by
  have hdomain := inDomain_new.after calls
  have hnext : ∀ call, new.after (calls ++ [call]) = ((new.after calls).call call).2 := by
    intro call
    rw [after_append, after_singleton]
  refine ⟨issued_increasing new calls, ?_, ?_, ?_, ?_⟩
  · intro call id hid
    have hcall := calls_call (new.after calls) call
    rw [hid] at hcall
    obtain ⟨hpos, hle, horigin⟩ := hcall.id_origin hdomain (grounded_new.after calls)
    rw [hnext]
    exact ⟨hpos, hle, horigin.imp_left And.right⟩
  · intro past hdone later id hid
    have hcall := calls_call (new.after calls) (.allocatePastIssued past)
    rw [hdone] at hcall
    rw [hnext] at hid
    exact hcall.seated.trans_le (next_le_of_mem_issued _ later hid)
  · intro call hfailed
    have hcall := calls_call (new.after calls) call
    rw [hfailed] at hcall
    obtain ⟨hsame, hstop⟩ := hcall.unchanged_of_failed
    rw [hnext, fields, fields, hsame, hstop]
  · intro call
    rw [hnext]
    exact callWrapping_eq hdomain call

end IdRange

end Ourios.Miner
