/-
# Every request keeps the invariant

One lemma for each request a process can make, and from them the discipline of a
partition: in every run that meets the condition, the shared invariant holds and every
process's assertion with it.
-/

import Ourios.Parquet.Conduct

namespace Ourios.Parquet

open Ourios.Foundation

universe u

variable {Row : Type u}

/-! ## The condition on a run -/

/-- A put of the manifest that takes effect is not answered with a failed precondition. -/
def Process.truthful : Process Row → Action → Bool
  | .rewrite _ (.committing _ _ _ _), .commit applied answer =>
    !(applied && answer == .precondition)
  | _, _ => true

/-- No output is written for a generation after the last one there is. -/
def Process.fits : Process Row → Action → Bool
  | .rewrite _ (.reading base _ _ _), .put _ => decide (generationOf base.existing < u64Max)
  | _, _ => true

/-- A rewrite that drops rows. -/
def Event.erases : Event Row → Bool
  | .rewrite drop => drop.isSome
  | _ => false

/-- Conditions on the runs of a partition. -/
abbrev PartitionCondition (Row : Type u) :=
  Interleaving.Condition (Partition Row) (Process Row) Action (Event Row)

/-- A truthful store, without erasures. -/
def linearizable (Row : Type u) : PartitionCondition Row where
  act := fun _ process action => process.truthful action = true
  event := fun _ event => event.erases = false

/-- A truthful store with generations left to write for, without erasures. -/
def ordinary (Row : Type u) : PartitionCondition Row where
  act := fun _ process action => process.truthful action = true ∧ process.fits action = true
  event := fun _ event => event.erases = false

instance decidableOrdinaryAct (p : Partition Row) (process : Process Row) (action : Action) :
    Decidable ((ordinary Row).act p process action) :=
  inferInstanceAs (Decidable (process.truthful action = true ∧ process.fits action = true))

instance decidableOrdinaryEvent (p : Partition Row) (event : Event Row) :
    Decidable ((ordinary Row).event p event) :=
  inferInstanceAs (Decidable (event.erases = false))

/-! ## The shared invariant -/

/-- The invariant, and that nobody holds an object store. -/
structure Partition.Kept (backend : Backend) (p : Partition Row) : Prop where
  sound : p.Sound
  free : backend ≠ .localFiles → p.compactor = none

/-- A request kept the invariant, the other processes can rely on it, and it deleted no
file that was not reclaimable. -/
structure Keeps (backend : Backend) (pid : Nat) (p p' : Partition Row) : Prop where
  kept : p'.Kept backend
  others : ∀ other ≠ pid, Partition.Evolves other p p'
  deletes : ∀ name ∈ p.objects, name ∈ p'.objects ∨ p.Reclaimable name

section Steps

variable {backend : Backend} {pid : Nat} {p p' : Partition Row}

theorem Keeps.refl (h : p.Kept backend) (pid : Nat) : Keeps backend pid p p :=
  ⟨h, fun other _ => Partition.Evolves.refl other p, fun _ hname => .inl hname⟩

/-- At the end of a request the directory can be released. -/
theorem Keeps.release (h : Keeps backend pid p p') :
    Keeps backend pid p (p'.release pid) := by
  refine ⟨⟨h.kept.sound.release pid, ?_⟩, ?_, h.deletes⟩
  · intro hremote
    rw [Partition.release, h.kept.free hremote]
    rfl
  · intro other hne
    exact (h.others other hne).trans (.release hne)

variable {name : Text} {next : Partition Row × Rewrite Row} {action : Action}
  {manifest : Option Manifest}

section

variable (h : p.Kept backend)
include h

theorem Keeps.delete (hdead : p.Reclaimable name) (removed : Bool)
    (pid : Nat) : Keeps backend pid p (p.delete name removed) := by
  refine ⟨⟨h.sound.delete hdead removed, ?_⟩, fun other _ => .delete hdead removed other, ?_⟩
  · intro hremote
    rw [Partition.delete_compactor]
    exact h.free hremote
  · intro other hother
    rcases eq_or_ne other name with rfl | hne
    · exact .inr hdead
    · exact .inl (Partition.mem_delete_objects hne hother)

theorem Keeps.stage (hname : DataName name)
    (hfresh : p.written.lookup name = none) (rows : Multiset Row) (pid : Nat) :
    Keeps backend pid p (p.stage name rows pid) :=
  ⟨⟨h.sound.stage hname hfresh rows pid, h.free⟩,
    fun other _ => .stage h.sound hfresh rows pid other,
    fun _ hother => .inl (Partition.mem_put_objects hother)⟩

theorem Keeps.unclaim {output : Text} (hclaim : p.claims.lookup output = some pid) :
    Keeps backend pid p (p.unclaim output) :=
  ⟨⟨h.sound.unclaim output, h.free⟩, fun _ hne => .unclaim hne hclaim,
    fun _ hname => .inl hname⟩

/-- Only the process that holds a local directory commits there. -/
theorem not_held (hheld : p.HeldBy backend pid) {other : Nat}
    (hne : other ≠ pid) : p.compactor ≠ some other := by
  by_cases hlocal : backend = .localFiles
  · rw [hheld hlocal]
    exact fun heq => hne (Option.some.inj heq).symm
  · rw [h.free hlocal]
    exact fun heq => by cases heq

theorem Keeps.commit (hheld : p.HeldBy backend pid) {m : Manifest}
    {output : Text} (hnext : Partition.Follows p m output)
    (hclaim : p.claims.lookup output = some pid) :
    Keeps backend pid p ((p.publish m).unclaim output) :=
  ⟨⟨h.sound.commit hnext, h.free⟩,
    fun _ hne => .commit hnext hclaim hne (not_held h hheld hne), fun _ hname => .inl hname⟩

end

/-! ## Rewrites -/

variable {base : Base} {inputs : List Text} {output : Text}

/-- The manifest as a rewrite reads it. -/
theorem Base.Of.read (h : p.Kept backend) : Base.Of backend p ⟨p.manifest, p.etag⟩ :=
  ⟨le_refl _, fun _ => rfl, h.sound.generationOf_manifest, fun _ => rfl⟩

theorem Base.inputsOf_inputs {scan : Scan}
    (hscan : scan.Faithful backend p) : base.InputsOf p (base.inputs scan.seen) := by
  refine ⟨liveFlush base.existing scan.seen, sortByKey_perm id _, hscan.nodup.filter _, ?_⟩
  intro name hname
  obtain ⟨hseen, hparquet, hflush, hconsumed⟩ := mem_liveFlush.mp hname
  refine ⟨?_, hconsumed⟩
  rcases hscan.found name hseen with rfl | hwritten
  · cases hparquet
  · exact Partition.mem_flushed.mpr ⟨hwritten, hflush⟩

/-- The flush files among the inputs. -/
theorem Base.InputsOf.filter_perm (h : p.Kept backend) (hbase : base.Of backend p)
    (hcurrent : base.etag = p.etag) {flush : List Text}
    (hperm : inputs.Perm (filesOf base.existing ++ flush))
    (hflush : ∀ name ∈ flush, name ∈ p.flushed ∧ name ∉ consumedOf base.existing) :
    (inputs.filter fun name => (compactedGeneration name).isNone).Perm flush := by
  have hfiles : (filesOf base.existing).filter (fun name => (compactedGeneration name).isNone) =
      [] := by
    apply List.filter_eq_nil_iff.mpr
    intro name hname
    rw [hbase.current hcurrent] at hname
    rw [h.sound.generation_of_mem_files hname]
    exact Bool.false_ne_true
  have hself : flush.filter (fun name => (compactedGeneration name).isNone) = flush := by
    apply List.filter_eq_self.mpr
    intro name hname
    rw [(Partition.mem_flushed.mp (hflush name hname).1).2]
    rfl
  have hfilter := hperm.filter fun name => (compactedGeneration name).isNone
  rwa [List.filter_append, hfiles, hself, List.nil_append] at hfilter

theorem Base.next_consumed (hexisting : base.existing = p.manifest) (output : Text)
    (inputs : List Text) :
    (base.next output inputs).consumed =
      consumedOf p.manifest ++ inputs.filter fun name => (compactedGeneration name).isNone := by
  rw [Base.next, nextManifest, hexisting]

/-- While the base is current, a commit consumes each flush file once. -/
theorem Base.nodup_next (h : p.Kept backend) (hbase : base.Of backend p)
    (hcurrent : base.etag = p.etag) (hinputs : base.InputsOf p inputs) (output : Text) :
    (base.next output inputs).consumed.Nodup := by
  obtain ⟨flush, hperm, hnodup, hflush⟩ := hinputs
  have hfilter := Base.InputsOf.filter_perm h hbase hcurrent hperm hflush
  rw [Base.next_consumed (hbase.current hcurrent)]
  apply List.Nodup.append h.sound.nodup_consumed (hfilter.nodup_iff.mpr hnodup)
  intro name hold hnew
  have hnot := (hflush name (hfilter.mem_iff.mp hnew)).2
  rw [hbase.current hcurrent] at hnot
  exact hnot hold

theorem Base.flushed_next (h : p.Kept backend) (hbase : base.Of backend p)
    (hcurrent : base.etag = p.etag) (hinputs : base.InputsOf p inputs)
    (hname : name ∈ (base.next output inputs).consumed) : name ∈ p.flushed := by
  obtain ⟨flush, hperm, hnodup, hflush⟩ := hinputs
  have hfilter := Base.InputsOf.filter_perm h hbase hcurrent hperm hflush
  rw [Base.next_consumed (hbase.current hcurrent), List.mem_append] at hname
  rcases hname with hold | hnew
  · exact h.sound.flushed_of_consumed hold
  · exact (hflush name (hfilter.mem_iff.mp hnew)).1

/-- While the base is current, what a rewrite commits may follow it. -/
theorem Base.follows (h : p.Kept backend) (hbase : base.Of backend p)
    (hcurrent : base.etag = p.etag) (hinputs : base.InputsOf p inputs)
    (houtput : base.OutputOf p pid inputs output) :
    Partition.Follows p (base.next output inputs) output := by
  have hexisting := hbase.current hcurrent
  have hconsumed := Base.next_consumed hexisting output inputs
  refine ⟨rfl, ?_, ?_, houtput.stored hcurrent, ?_, Base.nodup_next h hbase hcurrent hinputs output,
    fun name hname => Base.flushed_next h hbase hcurrent hinputs hname, ?_⟩
  · exact houtput.generation.trans (by rw [hcurrent])
  · rw [houtput.named, hcurrent]
  · intro name hname
    rw [hconsumed]
    exact List.mem_append_left _ hname
  · obtain ⟨flush, hperm, hnodup, hflush⟩ := hinputs
    have hfilter := Base.InputsOf.filter_perm h hbase hcurrent hperm hflush
    calc p.rowsOf output
        = p.rowsIn inputs := Partition.rowsOf_of_lookup houtput.rows
      _ = p.rowsIn (filesOf p.manifest) + p.rowsIn flush := by
          rw [Partition.rowsIn_perm hperm, Partition.rowsIn_append, hexisting]
      _ = p.rowsIn (base.next output inputs).consumed := by
          rw [h.sound.rowsIn_files, hconsumed, Partition.rowsIn_append,
            Partition.rowsIn_perm hfilter]

/-- A put of the manifest that takes effect replaces the base. -/
theorem Base.Of.current_of_enabled (hbase : base.Of backend p)
    (henabled : (base.swap backend).enabled p = true) : base.etag = p.etag := by
  have hempty : p.versions.isEmpty = true → base.etag = p.etag := by
    intro hversions
    have hzero : p.etag = 0 := by
      rw [Partition.etag, List.isEmpty_iff.mp hversions]
      rfl
    have := hbase.le
    omega
  unfold Base.swap at henabled
  split at henabled
  · exact hempty henabled
  · exact hbase.held rfl
  · exact hempty henabled
  · exact (beq_iff_eq.mp henabled).symm

/-- The inputs of a commit are reclaimable after it. -/
theorem Base.reclaimable_inputs (h : p.Kept backend) (hbase : base.Of backend p)
    (hcurrent : base.etag = p.etag) (hinputs : base.InputsOf p inputs)
    (houtput : base.OutputOf p pid inputs output)
    (hnext : Partition.Follows p (base.next output inputs) output) (hname : name ∈ inputs) :
    ((p.publish (base.next output inputs)).unclaim output).Reclaimable name := by
  obtain ⟨flush, hperm, hnodup, hflush⟩ := hinputs
  have hmanifest : ((p.publish (base.next output inputs)).unclaim output).manifest =
      some (base.next output inputs) := rfl
  refine ⟨houtput.written name hname, ?_, ?_⟩
  · rw [hmanifest]
    rcases List.mem_append.mp (hperm.mem_iff.mp hname) with hfile | hnew
    · rw [hbase.current hcurrent] at hfile
      have hgeneration := h.sound.generation_of_mem_files hfile
      have hne : name ≠ output := by
        rintro rfl
        rw [hnext.named] at hgeneration
        have := Option.some.inj hgeneration
        omega
      rw [isLive, hgeneration, filesOf_some, hnext.files]
      simp [hne]
    · have hgeneration := (Partition.mem_flushed.mp (hflush name hnew).1).2
      have hconsumed : name ∈ (base.next output inputs).consumed := by
        apply List.mem_append_right
        exact List.mem_filter.mpr ⟨hname, by rw [hgeneration]; rfl⟩
      rw [isLive, hgeneration, consumedOf_some]
      simp [hconsumed]
  · intro generation hgeneration
    rcases List.mem_append.mp (hperm.mem_iff.mp hname) with hfile | hnew
    · rw [hbase.current hcurrent] at hfile
      rw [h.sound.generation_of_mem_files hfile] at hgeneration
      have heq := Option.some.inj hgeneration
      have hetag : ((p.publish (base.next output inputs)).unclaim output).etag = p.etag + 1 := rfl
      exact .inl (by omega)
    · rw [(Partition.mem_flushed.mp (hflush name hnew).1).2] at hgeneration
      cases hgeneration

/-- What a request of a rewrite has to establish. -/
def Rewrite.Continues (backend : Backend) (pid : Nat) (p : Partition Row)
    (next : Partition Row × Rewrite Row) : Prop :=
  Keeps backend pid p next.1 ∧ next.2.Asserts backend next.1 pid

section

variable (h : p.Kept backend)
include h

theorem Rewrite.fail_sound :
    Rewrite.Continues backend pid p (p.release pid, .failed) :=
  ⟨Keeps.release (.refl h pid), trivial⟩

theorem Rewrite.unclaim_fail_sound (hclaim : p.claims.lookup output = some pid) :
    Rewrite.Continues backend pid p ((p.unclaim output).release pid, .failed) := by
  have hunclaim : Keeps backend pid p (p.unclaim output) := .unclaim h hclaim
  exact ⟨hunclaim.release, trivial⟩

theorem Rewrite.page_sound {scan : Scan} {cut : Cut}
    (hphase : (Rewrite.listing base scan : Rewrite Row).Asserts backend p pid)
    (hact : (Rewrite.listing base scan).act backend none p pid (.page cut) = some next) :
    Rewrite.Continues backend pid p next := by
  obtain ⟨hheld, hbase, hscan⟩ := hphase
  rw [Rewrite.act] at hact
  dsimp only at hact
  split at hact
  · rename_i hallowed
    have hpage := hscan.page h.sound hallowed
    split at hact
    · cases hact
      exact ⟨.refl h pid, hheld, hbase, hpage⟩
    · split at hact
      · cases hact
        exact ⟨Keeps.release (.refl h pid), trivial⟩
      · cases hact
        refine ⟨.refl h pid, hheld, hbase, Base.inputsOf_inputs hpage, [], rfl, ?_, rfl⟩
        intro name hname
        cases hname
  · cases hact

theorem Rewrite.get_sound {rest : List Text} {rows : Multiset Row}
    (hphase : (Rewrite.reading base inputs (name :: rest) rows).Asserts backend p pid)
    (hact : (Rewrite.reading base inputs (name :: rest) rows).act backend none p pid .get =
      some next) : Rewrite.Continues backend pid p next := by
  obtain ⟨hheld, hbase, hinputs, done, hsplit, hdone, hrows⟩ := hphase
  rw [Rewrite.act] at hact
  split at hact
  · rename_i content hcontent
    cases hact
    have hwritten := h.sound.stored hcontent
    refine ⟨.refl h pid, hheld, hbase, hinputs, done ++ [name], ?_, ?_, ?_⟩
    · rw [hsplit, List.append_assoc, List.singleton_append]
    · intro other hother
      rcases List.mem_append.mp hother with hold | hnew
      · exact hdone other hold
      · rw [List.mem_singleton.mp hnew]
        exact mem_iff_lookup.mpr ⟨content, hwritten⟩
    · rw [hrows, Partition.rowsIn_append, Partition.rowsIn_cons, Partition.rowsIn_nil, add_zero,
        Partition.rowsOf_of_lookup hwritten]
      rfl
  · cases hact
    exact fail_sound h

theorem Rewrite.put_sound {rows : Multiset Row} {uuid : Uuid}
    (hphase : (Rewrite.reading base inputs [] rows).Asserts backend p pid)
    (hroom : generationOf base.existing < u64Max)
    (hact : (Rewrite.reading base inputs [] rows).act backend none p pid (.put uuid) =
      some next) : Rewrite.Continues backend pid p next := by
  obtain ⟨hheld, hbase, hinputs, done, hsplit, hdone, hrows⟩ := hphase
  rw [List.append_nil] at hsplit
  subst hsplit
  have hgeneration : base.generation = base.etag + 1 := by
    rw [Base.generation, ← hbase.generation]
    omega
  have hle : base.generation ≤ u64Max := Nat.min_le_right _ _
  rw [Rewrite.act] at hact
  split at hact
  · rename_i hfresh
    cases hact
    have hfresh' := Option.isNone_iff_eq_none.mp hfresh
    have hkeeps : Keeps backend pid p _ := .stage h (.compacted uuid hle) hfresh' rows pid
    -- a process can rely on its own change as well when it leaves its claims alone
    have hrely : Partition.Evolves pid p _ := .stage h.sound hfresh' rows pid pid
    refine ⟨hkeeps, hheld.stable hrely, hbase.stable hheld hrely, hinputs.stable hrely, ?_⟩
    refine ⟨AList.lookup_insert p.claims, ?_, ?_, hgeneration, ?_, ?_⟩
    · rw [Partition.rowsIn_eq hrely.written hdone, ← hrows]
      exact AList.lookup_insert p.written
    · rw [compactedGeneration_compactedName uuid hle, hgeneration]
    · intro _
      exact mem_iff_lookup.mpr ⟨rows, AList.lookup_insert p.objects⟩
    · intro name hname
      exact hrely.mem_written (hdone name hname)
  · cases hact

/-- An output whose commit was lost is reclaimable. -/
theorem Base.reclaimable_output (houtput : base.OutputOf p pid inputs output) :
    (p.unclaim output).Reclaimable output := by
  refine ⟨mem_iff_lookup.mpr ⟨_, houtput.rows⟩, ?_, ?_⟩
  · have hmanifest : (p.unclaim output).manifest = p.manifest := rfl
    have hnot : output ∉ filesOf p.manifest := by
      intro hnamed
      cases hm : p.manifest with
      | none =>
        rw [hm] at hnamed
        cases hnamed
      | some m =>
        obtain ⟨named, hfiles, -, -, hclaim⟩ := (h.sound.current hm).output
        rw [hm, filesOf_some, hfiles, List.mem_singleton] at hnamed
        rw [← hnamed, houtput.claimed] at hclaim
        cases hclaim
    rw [hmanifest, isLive, houtput.named]
    simp [hnot]
  · intro generation _
    exact .inr (AList.lookup_erase output p.claims)

theorem Rewrite.commit_sound {respelled applied : Bool} {answer : Answer}
    (hphase : (Rewrite.committing base inputs output respelled : Rewrite Row).Asserts backend p pid)
    (hhonest : (!(applied && answer == .precondition)) = true)
    (hact : (Rewrite.committing base inputs output respelled).act backend none p pid
      (.commit applied answer) = some next) :
    Rewrite.Continues backend pid p next := by
  obtain ⟨hheld, hbase, hinputs, houtput⟩ := hphase
  rw [Rewrite.act] at hact
  split at hact
  · cases hact
    exact unclaim_fail_sound h houtput.claimed
  split at hact
  swap
  · cases hact
  rename_i hpossible
  cases hact
  rw [Swap.possible, Bool.and_eq_true, Bool.and_eq_true] at hpossible
  cases applied with
  | false =>
    cases answer with
    | ok => cases hpossible.1.2
    | precondition =>
      rw [if_neg Bool.false_ne_true, Rewrite.answered]
      split
      · exact ⟨.refl h pid, hheld, hbase, hinputs, houtput⟩
      · exact ⟨.unclaim h houtput.claimed, Base.reclaimable_output h houtput⟩
    | error =>
      exact unclaim_fail_sound h houtput.claimed
  | true =>
    have hcurrent : base.etag = p.etag := hbase.current_of_enabled (by simpa using hpossible.1.1)
    have hnext := Base.follows h hbase hcurrent hinputs houtput
    have hcommit : Keeps backend pid p _ := .commit h hheld hnext houtput.claimed
    cases answer with
    | ok =>
      exact ⟨hcommit, fun name hname =>
        Base.reclaimable_inputs h hbase hcurrent hinputs houtput hnext hname⟩
    | precondition => cases hhonest
    | error => exact ⟨hcommit.release, trivial⟩

theorem Rewrite.act_sound {phase : Rewrite Row} (hphase : phase.Asserts backend p pid)
    (hok : (Process.rewrite none phase).truthful action = true)
    (hfits : (Process.rewrite none phase).fits action = true)
    (hact : phase.act backend none p pid action = some next) :
    Rewrite.Continues backend pid p next := by
  have hstep := hact
  unfold Rewrite.act at hstep
  split at hstep
  · cases hstep
    exact ⟨.refl h pid, hphase, Base.Of.read h, Scan.Faithful.start backend p⟩
  · exact page_sound h hphase hact
  · exact get_sound h hphase hact
  · exact put_sound h hphase (of_decide_eq_true hfits) hact
  · exact commit_sound h hphase hok hact
  · rename_i inputs output removed
    cases hstep
    have hdelete : Keeps backend pid p _ := .delete h hphase removed pid
    exact ⟨hdelete.release, trivial⟩
  · rename_i inputs name generation removed
    cases hstep
    have hdelete : Keeps backend pid p _ :=
      .delete h (hphase name List.mem_cons_self) removed pid
    exact ⟨hdelete.release, trivial⟩
  · rename_i inputs name rest generation removed _
    cases hstep
    refine ⟨.delete h (hphase name List.mem_cons_self) removed pid, ?_⟩
    intro other hother
    exact (hphase other (List.mem_cons_of_mem _ hother)).delete name removed
  · cases hstep
  · cases hstep
    exact unclaim_fail_sound h hphase.2.2.2.claimed
  · cases hstep
    exact fail_sound h
  · cases hstep

/-! ## Collections -/

theorem reclaimable_of_isOrphan (hle : generationOf manifest ≤ p.etag)
    (hfiles : generationOf manifest = p.etag → filesOf manifest = filesOf p.manifest)
    (hconsumed : ∀ name ∈ consumedOf manifest, name ∈ consumedOf p.manifest)
    (hname : name ∈ p.written) (horphan : isOrphan manifest name = true) :
    p.Reclaimable name := by
  have hparquet := (h.sound.names hname).parquet
  rw [isOrphan, not_isTmp_of_parquet hparquet, if_neg Bool.false_ne_true] at horphan
  split at horphan
  · rename_i generation hgeneration
    rw [Bool.and_eq_true, decide_eq_true_eq, Bool.not_eq_true', List.contains_eq_mem,
      decide_eq_false_iff_not] at horphan
    obtain ⟨hreached, hunnamed⟩ := horphan
    have hnot : name ∉ filesOf p.manifest := by
      intro hnamed
      have heq := h.sound.generation_of_mem_files hnamed
      rw [hgeneration] at heq
      have hetag := Option.some.inj heq
      rw [← hfiles (by omega)] at hnamed
      exact hunnamed hnamed
    refine ⟨hname, ?_, ?_⟩
    · rw [isLive, hgeneration]
      simp [hnot]
    · intro generation' hgeneration'
      rw [hgeneration] at hgeneration'
      cases hgeneration'
      exact .inl (hreached.trans hle)
  · rename_i hflush
    refine ⟨hname, ?_, ?_⟩
    · rw [isLive, hflush]
      simp [hconsumed name (List.contains_iff_mem.mp horphan)]
    · intro generation hgeneration
      rw [hflush] at hgeneration
      cases hgeneration

/-- The manifest is not an orphan. -/
theorem isOrphan_manifestFilename
    (hconsumed : ∀ name ∈ consumedOf manifest, name ∈ consumedOf p.manifest) :
    isOrphan manifest manifestFilename = false := by
  apply Bool.eq_false_iff.mpr
  intro horphan
  have hgeneration : compactedGeneration manifestFilename = none := by decide
  have htmp : ".parquet.tmp".toList.isSuffixOf manifestFilename = false := by decide
  have hmem := hconsumed _ (List.contains_iff_mem.mp horphan)
  have hwritten := (Partition.mem_flushed.mp (h.sound.flushed_of_consumed hmem)).1
  exact (h.sound.names hwritten).ne_manifest rfl

theorem Gc.act_sound {phase : Gc} {next : Partition Row × Gc} (hphase : phase.Asserts backend p)
    (hact : phase.act backend p action = some next) :
    Keeps backend pid p next.1 ∧ next.2.Asserts backend next.1 := by
  unfold Gc.act at hact
  split at hact
  · cases hact
    exact ⟨.refl h pid, h.sound.generationOf_manifest.le, fun _ => rfl, fun _ hname => hname,
      Scan.Faithful.start backend p⟩
  · obtain ⟨hle, hfiles, hconsumed, hscan⟩ := hphase
    split at hact
    · rename_i hallowed
      have hpage := hscan.page h.sound hallowed
      split at hact
      · cases hact
        exact ⟨.refl h pid, hle, hfiles, hconsumed, hpage⟩
      · cases hact
        refine ⟨.refl h pid, ?_⟩
        intro name hname
        obtain ⟨hseen, horphan⟩ := List.mem_filter.mp hname
        rcases hpage.found name hseen with rfl | hwritten
        · rw [isOrphan_manifestFilename h hconsumed] at horphan
          cases horphan
        · exact reclaimable_of_isOrphan h hle hfiles hconsumed hwritten horphan
    · cases hact
  · rename_i name orphans removed
    cases hact
    have hdead := hphase name List.mem_cons_self
    refine ⟨.delete h hdead removed pid, ?_⟩
    intro other hother
    exact (hphase other (List.mem_cons_of_mem _ hother)).delete name removed
  · cases hact
    exact ⟨.refl h pid, trivial⟩
  · cases hact

end

/-! ## Readers and snapshots -/

variable {due seen : List Text}

theorem Listed.flushed_of_liveFlush (hlisted : Listed backend p due seen)
    (hname : name ∈ liveFlush manifest seen) :
    name ∈ p.flushed := by
  obtain ⟨hseen, hparquet, hflush, -⟩ := mem_liveFlush.mp hname
  rcases hlisted.found name hseen with rfl | hwritten
  · cases hparquet
  · exact Partition.mem_flushed.mpr ⟨hwritten, hflush⟩

variable (h : p.Kept backend)
include h

section

variable (hlisted : Listed backend p due seen)
include hlisted

/-- A flush file in a listing is live unless the manifest consumed it. -/
theorem Listed.mem_liveFlush_of_due (hdue : name ∈ due) (hseen : name ∈ seen)
    (hconsumed : name ∉ consumedOf manifest) :
    name ∈ liveFlush manifest seen := by
  obtain ⟨hwritten, hflush⟩ := Partition.mem_flushed.mp (hlisted.flushed name hdue)
  exact mem_liveFlush.mpr ⟨hseen, (h.sound.names hwritten).parquet, hflush, hconsumed⟩

/-- What the current manifest and a listing before it resolve to. -/
theorem Listed.covers_manifest : Covers p due (liveKeysOf p.manifest seen)
      (consumedOf p.manifest ++ liveFlush p.manifest seen) := by
  refine ⟨?_, ?_, ?_, ?_, ?_⟩
  · apply List.Nodup.append h.sound.nodup_consumed (hlisted.nodup.filter _)
    intro name hconsumed hlive
    exact (mem_liveFlush.mp hlive).2.2.2 hconsumed
  · intro name hdue
    by_cases hconsumed : name ∈ consumedOf p.manifest
    · exact List.mem_append_left _ hconsumed
    · apply List.mem_append_right
      rcases hlisted.accounts name hdue with hseen | ⟨hother, -⟩
      · exact hlisted.mem_liveFlush_of_due h hdue hseen hconsumed
      · exact absurd hother hconsumed
  · intro name hname
    rcases List.mem_append.mp hname with hconsumed | hlive
    · exact h.sound.flushed_of_consumed hconsumed
    · exact hlisted.flushed_of_liveFlush hlive
  · intro name hname
    rcases List.mem_append.mp hname with hfile | hlive
    · exact h.sound.written_of_files hfile
    · exact (Partition.mem_flushed.mp (hlisted.flushed_of_liveFlush hlive)).1
  · rw [liveKeysOf, Partition.rowsIn_append, Partition.rowsIn_append, h.sound.rowsIn_files]

/-- What a listing that shows no manifest resolves to. -/
theorem Listed.covers_none (hremote : backend ≠ .localFiles) (hunlisted : manifestFilename ∉ seen) :
    Covers p due (liveKeysOf none seen) (liveFlush none seen) := by
  refine ⟨hlisted.nodup.filter _, ?_, fun name hname => hlisted.flushed_of_liveFlush hname, ?_, rfl⟩
  · intro name hdue
    rcases hlisted.accounts name hdue with hseen | ⟨-, hmanifest⟩
    · exact hlisted.mem_liveFlush_of_due h hdue hseen List.not_mem_nil
    · exact absurd (hmanifest hremote) hunlisted
  · intro name hname
    exact (Partition.mem_flushed.mp (hlisted.flushed_of_liveFlush hname)).1

theorem Listed.covers :
    ∃ cover, Covers p due (liveInPartition (resolvedManifest backend p seen)
      (seen.filter isCommittedParquet)) cover := by
  rw [liveInPartition_eq]
  cases backend with
  | localFiles => exact ⟨_, hlisted.covers_manifest h⟩
  | objectStore etag =>
    rw [resolvedManifest]
    split
    · exact ⟨_, hlisted.covers_manifest h⟩
    · rename_i hunlisted
      rw [List.contains_iff_mem] at hunlisted
      exact ⟨_, hlisted.covers_none h (fun hlocal => by cases hlocal) hunlisted⟩

end

theorem Reader.act_sound {phase : Reader Row} {next : Partition Row × Reader Row}
    (hphase : phase.Asserts backend p)
    (hact : phase.act backend p action = some next) :
    Keeps backend pid p next.1 ∧ next.2.Asserts backend next.1 := by
  unfold Reader.act at hact
  split at hact
  · rename_i due scan cut
    split at hact
    · rename_i hallowed
      have hpage := Listing.page hphase h.sound hallowed
      split at hact
      · cases hact
        exact ⟨.refl h pid, hpage⟩
      · rename_i hall
        rw [not_not] at hall
        subst hall
        cases hact
        exact ⟨.refl h pid, hpage.listed⟩
    · cases hact
  · cases hact
    obtain ⟨cover, hcovers⟩ := Listed.covers h hphase
    exact ⟨.refl h pid, cover, [], hcovers, rfl, rfl⟩
  · rename_i due live name rest rows
    obtain ⟨cover, done, hcovers, hsplit, hrows⟩ := hphase
    split at hact
    · rename_i content hcontent
      cases hact
      refine ⟨.refl h pid, cover, done ++ [name], hcovers, ?_, ?_⟩
      · rw [hsplit, List.append_assoc, List.singleton_append]
      · rw [hrows, Partition.rowsIn_append, Partition.rowsIn_cons, Partition.rowsIn_nil, add_zero,
          Partition.rowsOf_of_lookup (h.sound.stored hcontent)]
    · cases hact
      exact ⟨.refl h pid, trivial⟩
  · cases hact
    exact ⟨.refl h pid, trivial⟩
  · cases hact

theorem Snapshot.act_sound {phase : Snapshot} {next : Partition Row × Snapshot}
    (hphase : phase.Asserts backend p)
    (hact : phase.act backend p action = some next) :
    Keeps backend pid p next.1 ∧ next.2.Asserts backend next.1 := by
  unfold Snapshot.act at hact
  split at hact
  · rename_i due scan cut
    split at hact
    · rename_i hallowed
      have hpage := Listing.page hphase h.sound hallowed
      split at hact
      · cases hact
        exact ⟨.refl h pid, hpage⟩
      · rename_i hall
        rw [not_not] at hall
        subst hall
        cases hact
        exact ⟨.refl h pid, hpage.listed⟩
    · cases hact
  · rename_i due seen
    cases hact
    have hlisted : Listed backend p due seen := hphase
    refine ⟨.refl h pid, ?_, fun m hm => Partition.Sound.manifest_mem hm,
      fun name hname => hlisted.flushed_of_liveFlush hname⟩
    intro name hdue
    have hcover := (hlisted.covers_manifest h).includes name hdue
    exact (List.mem_append.mp hcover).symm
  · cases hact
    exact ⟨.refl h pid, trivial⟩
  · cases hact

/-! ## The discipline of a partition -/

theorem Process.act_sound {process : Process Row} {next : Partition Row × Process Row}
    (hprocess : process.Asserts backend p pid)
    (hok : process.truthful action = true) (hfits : process.fits action = true)
    (hact : process.act backend p pid action = some next) :
    Keeps backend pid p next.1 ∧ next.2.Asserts backend next.1 pid := by
  cases process with
  | rewrite drop phase =>
    obtain ⟨rfl, hphase⟩ := hprocess
    obtain ⟨found, hfound, rfl⟩ := Option.map_eq_some_iff.mp hact
    have hcontinues := Rewrite.act_sound h hphase hok hfits hfound
    exact ⟨hcontinues.1, rfl, hcontinues.2⟩
  | gc phase =>
    obtain ⟨found, hfound, rfl⟩ := Option.map_eq_some_iff.mp hact
    exact Gc.act_sound h hprocess hfound
  | reader phase =>
    obtain ⟨found, hfound, rfl⟩ := Option.map_eq_some_iff.mp hact
    exact Reader.act_sound h hprocess hfound
  | snapshot phase =>
    obtain ⟨found, hfound, rfl⟩ := Option.map_eq_some_iff.mp hact
    exact Snapshot.act_sound h hprocess hfound

theorem Event.occur_sound {event : Event Row} {next : Partition Row × Option (Process Row)}
    (hok : event.erases = false)
    (hoccur : event.occur backend p pid = some next) :
    Keeps backend pid p next.1 ∧
      ∀ process, next.2 = some process → process.Asserts backend next.1 pid := by
  cases event with
  | flush uuid rows =>
    rw [Event.occur] at hoccur
    split at hoccur
    · rename_i hfresh
      cases hoccur
      have hfresh' := Option.isNone_iff_eq_none.mp hfresh
      refine ⟨⟨⟨h.sound.put (.flush uuid) hfresh' rows, h.free⟩, ?_, ?_⟩, ?_⟩
      · intro other _
        exact .put hfresh' rows other
      · intro name hname
        exact .inl (Partition.mem_put_objects hname)
      · intro process hprocess
        cases hprocess
    · cases hoccur
  | rewrite drop =>
    have hnone : drop = none := by
      cases drop with
      | none => rfl
      | some test => cases hok
    cases backend with
    | objectStore etag =>
      cases hoccur
      refine ⟨.refl h pid, ?_⟩
      rintro process ⟨⟩
      exact ⟨hnone, fun hlocal => by cases hlocal⟩
    | localFiles =>
      rw [Event.occur] at hoccur
      split at hoccur
      · rename_i hfree
        cases hoccur
        refine ⟨⟨⟨?_, fun hremote => absurd rfl hremote⟩, ?_, fun _ hname => .inl hname⟩, ?_⟩
        · exact ⟨h.sound.stored, h.sound.names, h.sound.numbered, h.sound.files,
            fun hm => let hcurrent := h.sound.current hm
              ⟨hcurrent.output, hcurrent.nodup, hcurrent.consumed, hcurrent.rows⟩,
            h.sound.unconsumed, h.sound.claimed⟩
        · intro other _
          refine ⟨List.suffix_refl _, id, id,
            fun hname => ⟨hname.written, hname.dead, hname.past⟩, .inl, id, ?_⟩
          intro hheld
          rw [hheld] at hfree
          cases hfree
        · rintro process ⟨⟩
          exact ⟨hnone, fun _ => rfl⟩
      · cases hoccur
  | collect =>
    cases hoccur
    refine ⟨.refl h pid, ?_⟩
    rintro process ⟨⟩
    trivial
  | query | inspect =>
    cases hoccur
    refine ⟨.refl h pid, ?_⟩
    rintro process ⟨⟩
    exact Listing.start backend p

end Steps

variable (backend : Backend)

/-- The invariants of a partition, under the condition on its runs. -/
def discipline (Row : Type u) :
    Discipline (partitionSystem Row backend) (ordinary Row) where
  shared := Partition.Kept backend
  assertion := fun p pid process => process.Asserts backend p pid
  rely := Partition.Evolves
  act_sound := by
    intro p pid process action next hp hprocess hok hact
    obtain ⟨hkeeps, hasserts⟩ := Process.act_sound hp hprocess hok.1 hok.2 hact
    exact ⟨hkeeps.kept, hasserts, hkeeps.others⟩
  event_sound := by
    intro p pid event next hp hok hevent
    obtain ⟨hkeeps, hasserts⟩ := Event.occur_sound hp hok hevent
    exact ⟨hkeeps.kept, hasserts, hkeeps.others⟩
  stable := fun hrely hasserts => hasserts.stable hrely

def emptyWorld (Row : Type u) : World (Partition Row) (Process Row) := ⟨.empty, []⟩

def runPartition (moves : List (Move Action (Event Row))) : World (Partition Row) (Process Row) :=
  (partitionSystem Row backend).run (emptyWorld Row) moves

/-- A run from the empty partition meets a condition. -/
def Conducted (condition : PartitionCondition Row)
    (moves : List (Move Action (Event Row))) : Prop :=
  (partitionSystem Row backend).Meets condition (emptyWorld Row) moves

theorem holds_emptyWorld : (discipline backend Row).Holds (emptyWorld Row) :=
  Discipline.holds_start ⟨.empty, fun _ => rfl⟩

instance decidableConducted (backend : Backend) (moves : List (Move Action (Event Row))) :
    Decidable (Conducted backend (ordinary Row) moves) :=
  inferInstanceAs (Decidable
    ((partitionSystem Row backend).Meets (ordinary Row) (emptyWorld Row) moves))

theorem holds_runPartition {backend : Backend} {moves : List (Move Action (Event Row))}
    (h : Conducted backend (ordinary Row) moves) :
    (discipline backend Row).Holds (runPartition backend moves) :=
  (holds_emptyWorld backend).run h

end Ourios.Parquet
