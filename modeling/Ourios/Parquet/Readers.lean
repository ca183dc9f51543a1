/-
# Readers and deletions

In every run of a partition that meets the condition, a reader that opens every file it
resolved gets the rows of some flush files, each once, with all that were stored before
its listing began; and no request deletes a file that is live under the current manifest.

A commit that takes effect and is answered with a failed precondition deletes its own
output, which the current manifest names.
-/

import Ourios.Parquet.Requests

namespace Ourios.Parquet

open Ourios.Foundation

universe u

variable {Row : Type u}

/-- The rows of some flush files, each once, among them all that are due. -/
def Partition.ReadsOnce (p : Partition Row) (due : List Text) (rows : Multiset Row) : Prop :=
  ∃ cover : List Text, cover.Nodup ∧ (∀ name ∈ due, name ∈ cover) ∧
    (∀ name ∈ cover, name ∈ p.flushed) ∧ rows = p.rowsIn cover

/-- What is live under the current manifest is stored, and every flush file ever stored is
part of it. -/
structure Partition.Complete (p : Partition Row) : Prop where
  named : ∀ name ∈ filesOf p.manifest, name ∈ p.objects
  rows : ∀ name ∈ p.flushed, ∃ file content, p.objects.lookup file = some content ∧
    isLive p.manifest file = true ∧ p.rowsOf name ≤ content

section Runs

variable {backend : Backend} {world : World (Partition Row) (Process Row)}

/-- No move deletes a file that is live under the current manifest. -/
theorem not_live_of_deleted (h : (discipline backend Row).Holds world)
    {move : Move Action (Event Row)} (hok : Interleaving.Allows (ordinary Row) world move)
    {name : Text} (hstored : name ∈ world.shared.objects)
    (hdeleted : name ∉ ((partitionSystem Row backend).step world move).shared.objects) :
    isLive world.shared.manifest name = false := by
  have hdead : ∀ {pid p'}, Keeps backend pid world.shared p' → name ∉ p'.objects →
      isLive world.shared.manifest name = false := by
    intro pid p' hkeeps hgone
    exact ((hkeeps.deletes name hstored).resolve_left hgone).dead
  cases move with
  | act pid action =>
    rw [Interleaving.step] at hdeleted
    split at hdeleted
    · exact absurd hstored hdeleted
    · rename_i process hprocess
      split at hdeleted
      · exact absurd hstored hdeleted
      · rename_i next hact
        have hok' := hok process hprocess
        have hsound := Process.act_sound h.shared (h.procs pid process hprocess) hok'.1 hok'.2 hact
        exact hdead hsound.1 hdeleted
  | event event =>
    rw [Interleaving.step] at hdeleted
    split at hdeleted
    · exact absurd hstored hdeleted
    · rename_i next hevent
      have hsound := Event.occur_sound h.shared hok hevent
      exact hdead hsound.1 hdeleted

end Runs

section Everything

variable {backend : Backend} {p : Partition Row}

theorem Partition.Kept.complete (h : p.Kept backend) : p.Complete := by
  refine ⟨?_, ?_⟩
  · intro name hname
    cases hm : p.manifest with
    | none =>
      rw [hm] at hname
      cases hname
    | some m =>
      obtain ⟨output, hfiles, -, hstored, -⟩ := (h.sound.current hm).output
      rw [hm, filesOf_some, hfiles, List.mem_singleton] at hname
      exact hname ▸ hstored
  · intro name hname
    obtain ⟨hwritten, hflush⟩ := Partition.mem_flushed.mp hname
    by_cases hconsumed : name ∈ consumedOf p.manifest
    · obtain ⟨m, hm⟩ := exists_manifest_of_consumed hconsumed
      have hcurrent := h.sound.current hm
      obtain ⟨output, hfiles, hgeneration, hstored, -⟩ := hcurrent.output
      obtain ⟨content, hcontent⟩ := mem_iff_lookup.mp hstored
      refine ⟨output, content, hcontent, ?_, ?_⟩
      · rw [isLive, hgeneration, hm, filesOf_some, hfiles]
        simp
      · have hrows := hcurrent.rows
        rw [hfiles, rowsIn_cons, rowsIn_nil, add_zero,
          rowsOf_of_lookup (h.sound.stored hcontent)] at hrows
        rw [hm, consumedOf_some] at hconsumed
        rw [hrows]
        exact rowsOf_le_rowsIn hconsumed
    · obtain ⟨content, hcontent⟩ := mem_iff_lookup.mp (h.sound.unconsumed name hname hconsumed)
      refine ⟨name, content, hcontent, ?_, ?_⟩
      · rw [isLive, hflush]
        simp [(h.sound.names hwritten).parquet, hconsumed]
      · rw [rowsOf_of_lookup (h.sound.stored hcontent)]

theorem Covers.readsOnce {due live cover : List Text} (h : Covers p due live cover) :
    p.ReadsOnce due (p.rowsIn live) :=
  ⟨cover, h.nodup, h.includes, h.flushed, h.rows⟩

end Everything

/-- In every run of truthful puts with generations left, and without erasures, a reader
that opened every live file has each row of the flush files stored before its listing
once and each later one at most once, and no move deletes a live file. -/
theorem readers_read_once (backend : Backend) (moves : List (Move Action (Event Row)))
    (hmoves : Conducted backend (ordinary Row) moves) :
    (∀ (pid : Nat) (due live : List Text) (rows : Multiset Row),
      (runPartition backend moves).procs[pid]? = some (.reader (.opening due live [] rows)) →
      (runPartition backend moves).shared.ReadsOnce due rows) ∧
    ∀ move, Conducted backend (ordinary Row) (moves ++ [move]) →
      ∀ name ∈ (runPartition backend moves).shared.objects,
      name ∉ (runPartition backend (moves ++ [move])).shared.objects →
      isLive (runPartition backend moves).shared.manifest name = false := by
  have hholds := holds_runPartition hmoves
  refine ⟨?_, ?_⟩
  · intro pid due live rows hproc
    obtain ⟨cover, done, hcovers, hsplit, hrows⟩ := hholds.procs pid _ hproc
    rw [List.append_nil] at hsplit
    rw [hrows, ← hsplit]
    exact hcovers.readsOnce
  · intro move hmove name hstored hdeleted
    have hok := (Interleaving.meets_append.mp hmove).2.1
    rw [runPartition, Interleaving.run_append] at hdeleted
    exact not_live_of_deleted hholds hok hstored hdeleted

/-- What was due to a reader that opened every live file, and the rows it has. -/
def Process.readAll : Process Row → Option (List Text × Multiset Row)
  | .reader (.opening due _ [] rows) => some (due, rows)
  | _ => none

theorem Process.readAll_eq_some {process : Process Row} {due : List Text} {rows : Multiset Row}
    (h : process.readAll = some (due, rows)) :
    ∃ live, process = .reader (.opening due live [] rows) := by
  unfold Process.readAll at h
  split at h
  · rename_i due' live rows'
    cases h
    exact ⟨live, rfl⟩
  · cases h

/-- A reader lists two flush files, and they are rewritten before it opens them. -/
def overtaken : List (Move Action (Event Nat)) :=
  [.event (.flush 1 {1}), .event (.flush 2 {2}), .event .query, .act 0 (.page .all),
    .event (.rewrite none), .act 1 .read, .act 1 (.page .all), .act 1 .get, .act 1 .get,
    .act 1 (.put 3), .act 1 (.commit true .ok), .act 0 .read, .act 0 .get, .act 0 .get]

theorem overtaken_reads_once :
    Conducted (.objectStore .bare) (ordinary Nat) overtaken ∧
    (runPartition (.objectStore .bare) overtaken).procs[0]?.bind Process.readAll =
      some ([flushName 2, flushName 1], {1, 2}) ∧
    (runPartition (.objectStore .bare) overtaken).shared.ReadsOnce [flushName 2, flushName 1]
      {1, 2} := by
  have hmoves : Conducted (.objectStore .bare) (ordinary Nat) overtaken := by decide +kernel
  have hread : (runPartition (.objectStore .bare) overtaken).procs[0]?.bind Process.readAll =
      some ([flushName 2, flushName 1], {1, 2}) := by decide +kernel
  obtain ⟨process, hproc, hall⟩ := Option.bind_eq_some_iff.mp hread
  obtain ⟨live, rfl⟩ := Process.readAll_eq_some hall
  exact ⟨hmoves, hread, (readers_read_once _ _ hmoves).1 0 _ live _ hproc⟩

/-- In every run of truthful puts with generations left, and without erasures, the files
the current manifest names are stored, and every row ever flushed is in a live file. -/
theorem compaction_loses_no_row (etag : EtagForm) (moves : List (Move Action (Event Row)))
    (hmoves : Conducted (.objectStore etag) (ordinary Row) moves) :
    (runPartition (.objectStore etag) moves).shared.Complete :=
  (holds_runPartition hmoves).shared.complete

/-- A rewrite on a store that quotes tags: the swap fails, and the retry with the tag as
the store spells it succeeds. -/
def respelled : List (Move Action (Event Nat)) :=
  [.event (.flush 1 {1}), .event (.flush 2 {2}), .event (.rewrite none), .act 0 .read,
    .act 0 (.page .all), .act 0 .get, .act 0 .get, .act 0 (.put 3), .act 0 (.commit true .ok),
    .event (.flush 4 {4}), .event (.rewrite none), .act 1 .read, .act 1 (.page .all), .act 1 .get,
    .act 1 .get, .act 1 (.put 5), .act 1 (.commit false .precondition), .act 1 (.commit true .ok)]

theorem respelled_complete :
    Conducted (.objectStore .quoted) (ordinary Nat) respelled ∧
    generationOf (runPartition (.objectStore .quoted) respelled).shared.manifest = 2 ∧
    (runPartition (.objectStore .quoted) respelled).shared.Complete := by
  have hmoves : Conducted (.objectStore .quoted) (ordinary Nat) respelled := by decide +kernel
  exact ⟨hmoves, by decide +kernel, compaction_loses_no_row .quoted _ hmoves⟩

/-- A rewrite whose commit takes effect and is answered with a failed precondition, and a
collection after it. -/
def lostCommit : List (Move Action (Event Nat)) :=
  [.event (.flush 1 {1}), .event (.flush 2 {2}), .event (.rewrite none), .act 0 .read,
    .act 0 (.page .all), .act 0 .get, .act 0 .get, .act 0 (.put 3),
    .act 0 (.commit true .precondition), .act 0 (.delete true), .event .collect, .act 1 .read,
    .act 1 (.page .all), .act 1 (.delete true), .act 1 (.delete true)]

/-- The output goes with the commit that was taken for lost, and its inputs with the
collection. -/
theorem lostCommit_not_complete :
    (runPartition (.objectStore .bare) lostCommit).shared.objects.keys = [] ∧
    ¬ (runPartition (.objectStore .bare) lostCommit).shared.Complete := by
  have hempty : (runPartition (.objectStore .bare) lostCommit).shared.objects.keys = [] := by
    decide +kernel
  have hnamed : compactedName 3 1 ∈
      filesOf (runPartition (.objectStore .bare) lostCommit).shared.manifest := by decide +kernel
  refine ⟨hempty, ?_⟩
  intro hcomplete
  have hstored := AList.mem_keys.mp (hcomplete.named _ hnamed)
  rw [hempty] at hstored
  cases hstored

end Ourios.Parquet
