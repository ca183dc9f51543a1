/-
# The external merge sort of a compaction

Rows are buffered, spilled as sorted runs and merged level by level; they come out as one
stable sort of them. The merge reads each run in batches, sized run by run: a run whose
widest row is above its share of the budget still holds that row, and the other runs fill
their shares beside it.
-/

import Ourios.Foundation.Sorting
import Ourios.Parquet.Names
import Ourios.Querier.Attributes

namespace Ourios.Parquet

open Ourios.Foundation

/-- `SUB_BATCH_ROWS`, the rows of one chunk and the most a cursor decodes at once. -/
def subBatchRows : Nat := 1024

/-! ## The batches of the cursors -/

section Cursors

variable (budget openRuns : Nat)

/-- The share of the budget one of the open runs gets. -/
def cursorShare : Nat := budget / min (openRuns + 1) u64Max

/-- Rows per decoded batch for each of the open cursors. -/
def cursorBatchRows (widestRow : Nat) : Nat :=
  let rows := cursorShare budget openRuns / max widestRow 1
  min (max (min rows u64Max) 1) subBatchRows

/-- The bytes of one batch, every row as wide as the run's widest. -/
def cursorBytes (widestRow : Nat) : Nat := cursorBatchRows budget openRuns widestRow * widestRow

/-- The cursors of a merge hold no more than the budget, or one row each. -/
def CursorsWithinBound (widest : List Nat) : Prop :=
  (widest.map (cursorBytes budget widest.length)).sum ≤ max budget widest.sum

/-- The rows wider than a share, which are held one at a time. -/
def wideRows (share : Nat) (widest : List Nat) : List Nat := widest.filter fun w => share < w

/-- What runs whose widest row is within a share hold: as many rows as go into the share,
at most 1024. -/
def narrowBatches (share : Nat) (widest : List Nat) : List Nat :=
  (widest.filter fun w => w ≤ share).map fun w => min (share / w) 1024 * w

variable {budget openRuns} {w : Nat}

/-- The rows of a batch, without the bounds of the machine. -/
theorem cursorBatchRows_eq (hpos : 0 < w) :
    cursorBatchRows budget openRuns w = min (max (cursorShare budget openRuns / w) 1) 1024 := by
  simp only [cursorBatchRows, subBatchRows, max_eq_left (Nat.succ_le_of_lt hpos), u64Max]
  omega

theorem cursorBytes_of_wide (h : cursorShare budget openRuns < w) :
    cursorBytes budget openRuns w = w := by
  rw [cursorBytes, cursorBatchRows_eq (Nat.zero_lt_of_lt h), Nat.div_eq_of_lt h]
  exact one_mul w

theorem cursorBytes_of_narrow (h : w ≤ cursorShare budget openRuns) :
    cursorBytes budget openRuns w = min (cursorShare budget openRuns / w) 1024 * w := by
  rcases Nat.eq_zero_or_pos w with rfl | hpos
  · rfl
  · rw [cursorBytes, cursorBatchRows_eq hpos, max_eq_left ((Nat.one_le_div_iff hpos).mpr h)]

/-- A run holds one row exactly when two are above its share. -/
theorem cursorBytes_eq_iff :
    cursorBytes budget openRuns w = w ↔ w = 0 ∨ cursorShare budget openRuns < 2 * w := by
  rcases Nat.eq_zero_or_pos w with rfl | hpos
  · simp [cursorBytes]
  have hdiv : cursorShare budget openRuns / w < 2 ↔ cursorShare budget openRuns < 2 * w :=
    Nat.div_lt_iff_lt_mul hpos
  rw [cursorBytes, Nat.mul_eq_right hpos.ne', cursorBatchRows_eq hpos, ← hdiv]
  omega

theorem le_cursorBytes : w ≤ cursorBytes budget openRuns w := by
  rcases Nat.eq_zero_or_pos w with rfl | hpos
  · exact Nat.zero_le _
  · refine Nat.le_mul_of_pos_left w ?_
    rw [cursorBatchRows_eq hpos]
    omega

variable {widest : List Nat}

/-- What the cursors hold is the batches of the narrow runs and the rows of the wide. -/
theorem sum_cursorBytes : (widest.map (cursorBytes budget openRuns)).sum =
    (narrowBatches (cursorShare budget openRuns) widest).sum +
      (wideRows (cursorShare budget openRuns) widest).sum := by
  unfold narrowBatches wideRows
  induction widest with
  | nil => rfl
  | cons w widest ih =>
    by_cases hwide : cursorShare budget openRuns < w
    · simp only [List.map_cons, List.sum_cons, List.filter_cons, hwide, Nat.not_le.mpr hwide,
        decide_true, decide_false, if_true, Bool.false_eq_true, if_false,
        cursorBytes_of_wide hwide, ih]
      omega
    · simp only [List.map_cons, List.sum_cons, List.filter_cons, hwide, Nat.not_lt.mp hwide,
        decide_true, decide_false, if_true, Bool.false_eq_true, if_false,
        cursorBytes_of_narrow (Nat.not_lt.mp hwide), ih]
      omega

/-- The cursors keep their bound exactly when two rows of any run are above the share, or
the batches of the narrow runs and the rows of the wide ones fit into the budget. -/
theorem cursorsWithinBound_iff (budget : Nat) (widest : List Nat) :
    CursorsWithinBound budget widest ↔
      let share := budget / min (widest.length + 1) u64Max
      (∀ w ∈ widest, w = 0 ∨ share < 2 * w) ∨
        (narrowBatches share widest).sum + (wideRows share widest).sum ≤ budget := by
  have hone : (∀ w ∈ widest, w = 0 ∨ cursorShare budget widest.length < 2 * w) ↔
      (widest.map (cursorBytes budget widest.length)).sum ≤ widest.sum := by
    refine ⟨fun h => ?_, fun h w hw => ?_⟩
    · have hsame := List.map_congr_left fun w hw => cursorBytes_eq_iff.mpr (h w hw)
      rw [hsame, List.map_id']
    · -- a run with more than one row would make the total larger than the rows
      refine cursorBytes_eq_iff.mp (le_cursorBytes.antisymm' (not_lt.mp fun hlt => ?_))
      have hsum := List.sum_lt_sum id (cursorBytes budget widest.length)
        (fun _ _ => le_cursorBytes) ⟨w, hw, hlt⟩
      rw [List.map_id] at hsum
      omega
  rw [CursorsWithinBound, le_max_iff, ← hone, or_comm, sum_cursorBytes]
  rfl

/-- A narrow run fills its share beside a wide one: together they hold 35 bytes, with a
budget of 30 and one row of each at 26. -/
theorem cursors_exceed_bound : ¬ CursorsWithinBound 30 [1, 25] := by
  unfold CursorsWithinBound
  decide +kernel

end Cursors

/-! ## Merging runs -/

section Merge

universe u v

variable {Row : Type u} {Key : Type v} [LinearOrder Key] (key : Row → Key)

/-- Take the least of the runs' head rows, the first run's where keys are equal. A run that
is exhausted is left behind. -/
def popLeast : List (List Row) → Option (Row × List (List Row))
  | [] => none
  | [] :: runs => popLeast runs
  | (row :: rest) :: runs =>
    match (popLeast runs).filter fun least => key least.1 < key row with
    | none => some (row, rest :: runs)
    | some least => some (least.1, (row :: rest) :: least.2)

/-- Rows in the order of their keys. -/
abbrev Sorted (run : List Row) : Prop := run.Pairwise fun a b => key a ≤ key b

variable {key} {runs left : List (List Row)} {row : Row}

theorem flatten_of_popLeast (h : popLeast key runs = none) : runs.flatten = [] := by
  fun_induction popLeast key runs with grind

theorem length_of_popLeast (h : popLeast key runs = some (row, left)) :
    left.flatten.length < runs.flatten.length := by
  fun_induction popLeast key runs generalizing row left with grind [Option.filter_eq_some_iff]

/-- The row that is taken is the one the rows of sorted runs are sorted to first. -/
theorem popLeast_spec (hpop : popLeast key runs = some (row, left))
    (h : ∀ run ∈ runs, Sorted key run) : (∀ run ∈ left, Sorted key run) ∧
      (∀ other ∈ runs.flatten, key row ≤ key other) ∧
      sortByKey key runs.flatten = row :: sortByKey key left.flatten := by
  fun_induction popLeast key runs generalizing row left with
  | case1 => cases hpop
  | case2 runs ih => exact ih hpop (List.forall_mem_cons.mp h).2
  | case3 head rest runs hfirst ih =>
    cases hpop
    obtain ⟨hrun, hruns⟩ := List.forall_mem_cons.mp h
    have hlater : ∀ other ∈ runs.flatten, key head ≤ key other := by
      cases hleast : popLeast key runs with
      | none => simp [flatten_of_popLeast hleast]
      | some least =>
        have hle : key head ≤ key least.1 := by simpa [hleast] using hfirst
        exact fun other hother => hle.trans ((ih hleast hruns).2.1 other hother)
    have hall := List.forall_mem_append.mpr ⟨(List.pairwise_cons.mp hrun).1, hlater⟩
    exact ⟨List.forall_mem_cons.mpr ⟨hrun.of_cons, hruns⟩,
      List.forall_mem_cons.mpr ⟨le_rfl, hall⟩, List.insertionSort_cons_of_forall_rel _ hall⟩
  | case4 head rest runs least hfilter ih =>
    cases hpop
    obtain ⟨hrun, hruns⟩ := List.forall_mem_cons.mp h
    obtain ⟨hleast, hhead⟩ := Option.filter_eq_some_iff.mp hfilter
    obtain ⟨hleft, hall, hsort⟩ := ih hleast hruns
    have hlt : key least.1 < key head := of_decide_eq_true hhead
    have hfirst : ∀ other ∈ head :: rest, key least.1 < key other := List.forall_mem_cons.mpr
      ⟨hlt, fun other hother => hlt.trans_le ((List.pairwise_cons.mp hrun).1 other hother)⟩
    exact ⟨List.forall_mem_cons.mpr ⟨hrun, hleft⟩,
      List.forall_mem_append.mpr ⟨fun other hother => (hfirst other hother).le, hall⟩,
      sortByKey_append_of_head hfirst hsort⟩

variable (key) in
/-- The rows of sorted runs, the least head first. -/
def mergeRuns (runs : List (List Row)) : List Row :=
  match _h : popLeast key runs with
  | none => []
  | some (row, left) => row :: mergeRuns left
termination_by runs.flatten.length
decreasing_by exact length_of_popLeast _h

/-- Merging sorted runs is sorting what they hold, one run after another. -/
theorem mergeRuns_eq (h : ∀ run ∈ runs, Sorted key run) :
    mergeRuns key runs = sortByKey key runs.flatten := by
  fun_induction mergeRuns key runs with
  | case1 runs hnone => rw [flatten_of_popLeast hnone]; rfl
  | case2 runs row left hpop ih =>
    obtain ⟨hleft, -, hsort⟩ := popLeast_spec hpop h
    rw [hsort, ih hleft]

variable (key) in
/-- One group of a level: a single run is passed on. -/
def mergeGroup : List (List Row) → List Row
  | [single] => single
  | group => mergeRuns key group

theorem mergeGroup_eq (h : ∀ run ∈ runs, Sorted key run) :
    mergeGroup key runs = sortByKey key runs.flatten := by
  unfold mergeGroup
  split
  · rw [List.flatten_singleton]
    exact (List.forall_mem_singleton.mp h).insertionSort_eq.symm
  · exact mergeRuns_eq h

variable (key) in
/-- Merge groups of consecutive runs, level by level, until at most `fanIn` are left. -/
def reduceRuns (fanIn : ℕ) (runs : List (List Row)) : List (List Row) :=
  if max fanIn 2 < runs.length then
    reduceRuns fanIn ((chunks (max fanIn 2) runs).map (mergeGroup key))
  else runs
termination_by runs.length
decreasing_by
  have hshort := length_chunks (le_max_right fanIn 2) runs
  rw [List.length_map]
  omega

/-- Reducing leaves sorted runs that merge to the same rows. -/
theorem mergeRuns_reduceRuns (fanIn : ℕ) (h : ∀ run ∈ runs, Sorted key run) :
    mergeRuns key (reduceRuns key fanIn runs) = sortByKey key runs.flatten := by
  fun_induction reduceRuns key fanIn runs with
  | case2 => exact mergeRuns_eq h
  | case1 runs hmany ih =>
    have hlevel : (chunks (max fanIn 2) runs).map (mergeGroup key) =
        ((chunks (max fanIn 2) runs).map List.flatten).map (sortByKey key) := by
      rw [List.map_map]
      refine List.map_congr_left fun group hgroup => mergeGroup_eq fun run hrun => h run ?_
      rw [← flatten_chunks (max fanIn 2) runs]
      exact List.mem_flatten_of_mem hgroup hrun
    rw [hlevel] at ih
    rw [hlevel, ih (List.forall_mem_map.mpr fun _ _ => pairwise_sortByKey key _),
      sortByKey_flatten_map, ← List.flatten_flatten, flatten_chunks]

/-! ## Run formation -/

/-- The rows of a batch that an erasure leaves. -/
def applyHooks (drop : Option (Row → Bool)) (batch : List Row) : List Row :=
  match drop with
  | none => batch
  | some drop => batch.filter fun row => !drop row

variable (Row) in
/-- The decoded rows in the buffer, and the sorted runs it was spilled as. -/
structure RunFormation where
  buffer : List Row := []
  bufferedBytes : ℕ := 0
  spill : List (List Row) := []

namespace RunFormation

variable (footprint : Row → ℕ) (drop : Option (Row → Bool)) (formation : RunFormation Row)

def push (batch : List Row) : RunFormation Row :=
  { formation with
    buffer := formation.buffer ++ batch
    bufferedBytes := min (formation.bufferedBytes + (batch.map footprint).sum) u64Max }

def readInput (input : List (List Row)) : RunFormation Row :=
  input.foldl (fun formation batch => formation.push footprint (applyHooks drop batch)) formation

variable (key)

def spillBuffer : RunFormation Row where
  spill := formation.spill ++ [sortByKey key formation.buffer]

/-- Runs are cut between inputs only. -/
def endInput (budget : ℕ) : RunFormation Row :=
  if budget < formation.bufferedBytes then formation.spillBuffer key else formation

def finish (fanIn : ℕ) : List Row :=
  if formation.spill = [] then sortByKey key formation.buffer
  else mergeRuns key (reduceRuns key fanIn
    (if formation.buffer = [] then formation else formation.spillBuffer key).spill)

/-- The runs are sorted, and with the buffer they sort to what the rows read so far do. -/
structure Holds (read : List Row) : Prop where
  sorted : ∀ run ∈ formation.spill, Sorted key run
  rows : sortByKey key (formation.spill.flatten ++ formation.buffer) = sortByKey key read

namespace Holds

variable {key formation} {read : List Row}

theorem readInput (h : formation.Holds key read) (input : List (List Row)) :
    (formation.readInput footprint drop input).Holds key
      (read ++ input.flatMap (applyHooks drop)) := by
  induction input generalizing formation read with
  | nil => simpa [RunFormation.readInput] using h
  | cons batch input ih =>
    have hpush : (formation.push footprint (applyHooks drop batch)).Holds key
        (read ++ applyHooks drop batch) := by
      refine ⟨h.sorted, ?_⟩
      rw [RunFormation.push, ← List.append_assoc]
      exact sortByKey_append_congr h.rows rfl
    rw [List.flatMap_cons, ← List.append_assoc]
    exact ih hpush

theorem spillBuffer (h : formation.Holds key read) :
    (formation.spillBuffer key).Holds key read := by
  have hsorted : Sorted key (sortByKey key formation.buffer) := pairwise_sortByKey key _
  refine ⟨List.forall_mem_append.mpr ⟨h.sorted, List.forall_mem_singleton.mpr hsorted⟩, ?_⟩
  rw [← h.rows]
  simpa [RunFormation.spillBuffer] using sortByKey_append_congr rfl hsorted.insertionSort_eq

theorem endInput (h : formation.Holds key read) (budget : ℕ) :
    (formation.endInput key budget).Holds key read := by
  unfold RunFormation.endInput
  split
  · exact h.spillBuffer
  · exact h

theorem finish (h : formation.Holds key read) (fanIn : ℕ) :
    formation.finish key fanIn = sortByKey key read := by
  unfold RunFormation.finish
  split
  · rename_i hnone
    simpa [hnone] using h.rows
  split
  · rename_i hempty
    rw [mergeRuns_reduceRuns fanIn h.sorted, ← h.rows, hempty, List.append_nil]
  · rw [mergeRuns_reduceRuns fanIn h.spillBuffer.sorted, ← h.spillBuffer.rows]
    exact congrArg (sortByKey key) (List.append_nil _).symm

end Holds

end RunFormation

end Merge

inductive ClusterKeys
  | serviceThenTime | timeOnly

/-- A row without a service comes first. -/
def clusterKey (keys : ClusterKeys) (row : MinedRecord) : WithBot Text ×ₗ ℕ :=
  let service := match keys with
    | .serviceThenTime =>
      Querier.projectStringValue row.resourceAttributes "service.name".toList
    | .timeOnly => none
  toLex (service, row.timeUnixNano)

variable (keys : ClusterKeys) (footprint : MinedRecord → ℕ) (drop : Option (MinedRecord → Bool))
  (budget fanIn : ℕ) (inputs : List (List (List MinedRecord)))

/-- Sort the rows of the inputs, each read in batches. -/
def sortInputsInto : List MinedRecord :=
  (inputs.foldl (fun (formation : RunFormation MinedRecord) input =>
    (formation.readInput footprint drop input).endInput (clusterKey keys) budget) {}).finish
      (clusterKey keys) fanIn

/-- Whatever the budget, the fan-in and the sizes of the rows, the rows that are kept come
out as one stable sort of them would give them. -/
theorem sortInputsInto_eq_sortByKey : sortInputsInto keys footprint drop budget fanIn inputs =
    sortByKey (clusterKey keys) (inputs.flatten.flatMap (applyHooks drop)) := by
  suffices hholds : ∀ {formation : RunFormation MinedRecord} {read},
      formation.Holds (clusterKey keys) read → (inputs.foldl (fun formation input =>
        (formation.readInput footprint drop input).endInput (clusterKey keys) budget)
          formation).Holds (clusterKey keys) (read ++ inputs.flatten.flatMap (applyHooks drop)) from
    (hholds ⟨by simp, rfl⟩).finish fanIn
  induction inputs with
  | nil => simp
  | cons input inputs ih =>
    intro formation read h
    simpa using ih ((h.readInput footprint drop input).endInput budget)

end Ourios.Parquet
