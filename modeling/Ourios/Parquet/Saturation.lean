/-
# The last generation

A generation is a `u64` that saturates. From the last one a rewrite writes its output for
the generation the manifest already has, so a collection takes the output for an orphan
and deletes it after its commit. The run that gets there publishes every generation
first; it is put together from one round, repeated.
-/

import Ourios.Parquet.Readers

namespace Ourios.Parquet

open Ourios.Foundation

universe u

variable {Row : Type u}

/-! ## Names for as many files as it takes -/

def nthUuid (n : Nat) : Uuid := Fin.ofNat (2 ^ 128) n

theorem nthUuid_injective {m n : Nat} (hm : m < 2 ^ 128) (hn : n < 2 ^ 128)
    (h : nthUuid m = nthUuid n) : m = n := by
  have hval := congrArg Fin.val h
  rwa [nthUuid, nthUuid, Fin.val_ofNat, Fin.val_ofNat, Nat.mod_eq_of_lt hm,
    Nat.mod_eq_of_lt hn] at hval

/-- Every file stored so far is named by one of the first uuids. -/
def Partition.UsesBelow (p : Partition Row) (bound : Nat) : Prop :=
  ∀ name ∈ p.written, ∃ n < bound, name.take 36 = (nthUuid n).hyphenated

namespace Partition.UsesBelow

variable {p : Partition Row} {bound : Nat} {name : Text}

theorem fresh (h : p.UsesBelow bound) (hbound : bound < 2 ^ 128)
    (hname : name.take 36 = (nthUuid bound).hyphenated) : p.written.lookup name = none := by
  apply AList.lookup_eq_none.mpr
  intro hwritten
  obtain ⟨n, hn, htake⟩ := h name hwritten
  have heq := nthUuid_injective (hn.trans hbound) hbound
    (Uuid.hyphenated_injective (htake.symm.trans hname))
  omega

theorem put (h : p.UsesBelow bound) (hname : name.take 36 = (nthUuid bound).hyphenated)
    (rows : Multiset Row) : (p.put name rows).UsesBelow (bound + 1) := by
  intro other hother
  rcases Partition.mem_put_written hother with rfl | hold
  · exact ⟨bound, Nat.lt_succ_self _, hname⟩
  · obtain ⟨n, hn, htake⟩ := h other hold
    exact ⟨n, hn.trans (Nat.lt_succ_self _), htake⟩

end Partition.UsesBelow

/-! ## What a commit writes is valid -/

theorem isPartitionLocalParquet_of_dataName {name : Text} (h : DataName name) :
    isPartitionLocalParquet name = true := by
  have hparquet := h.parquet
  have hslash : '/' ∉ name := by
    cases h with
    | flush uuid =>
      rw [flushName, List.mem_append, not_or]
      exact ⟨notMem_slash_hyphenated uuid, by decide⟩
    | compacted uuid hle =>
      rw [compactedName, List.mem_append, List.mem_append, List.mem_append]
      rintro (huuid | hmark | hdigits | hsuffix)
      · exact notMem_slash_hyphenated uuid huuid
      · revert hmark
        decide
      · cases isDigit_of_mem_ofNat hdigits
      · revert hsuffix
        decide
  have hne : name ≠ parquetSuffix := by
    intro heq
    have hlength := congrArg List.length heq
    have hsuffix : parquetSuffix.length = 8 := rfl
    cases h with
    | flush uuid =>
      rw [flushName, List.length_append, Uuid.length_hyphenated] at hlength
      omega
    | compacted uuid hle =>
      rw [compactedName, List.length_append, Uuid.length_hyphenated] at hlength
      omega
  have hwhole : name.splitOn '/' = [name] :=
    List.splitOn_eq_singleton hslash
  simp [isPartitionLocalParquet, hwhole, hparquet, hne]

theorem validateEntries_ok {entries : List (Text × Bool)} {earlier : List Text}
    (hform : ∀ entry ∈ entries, DataName entry.1 ∧
      (compactedGeneration entry.1).isSome = entry.2)
    (hnodup : (entries.map Prod.fst).Nodup) (hearlier : ∀ entry ∈ entries, entry.1 ∉ earlier) :
    validateEntries earlier entries = .ok () := by
  induction entries generalizing earlier with
  | nil => rfl
  | cons entry entries ih =>
    obtain ⟨hname, hkind⟩ := hform entry List.mem_cons_self
    rw [List.map_cons, List.nodup_cons] at hnodup
    have hnew : earlier.contains entry.1 = false := by
      simpa using hearlier entry List.mem_cons_self
    rw [validateEntries, isPartitionLocalParquet_of_dataName hname, hkind, hnew]
    simp only [Bool.true_and, beq_self_eq_true, Bool.not_true, Bool.false_eq_true, if_false]
    apply ih (fun other hother => hform other (List.mem_cons_of_mem _ hother)) hnodup.2
    intro other hother
    rw [List.mem_cons, not_or]
    refine ⟨?_, hearlier other (List.mem_cons_of_mem _ hother)⟩
    intro heq
    exact hnodup.1 (heq ▸ List.mem_map_of_mem hother)

/-- A commit whose output is a compacted file is valid. -/
theorem Base.validate_next {backend : Backend} {p : Partition Row} {base : Base}
    {inputs : List Text} {uuid : Uuid} (h : p.Kept backend)
    (hbase : base.Of backend p) (hcurrent : base.etag = p.etag) (hinputs : base.InputsOf p inputs) :
    (base.next (compactedName uuid base.generation) inputs).validate = .ok () := by
  have hle : base.generation ≤ u64Max := Nat.min_le_right _ _
  have hgeneration := compactedGeneration_compactedName uuid hle
  have hflushed : ∀ name ∈ (base.next (compactedName uuid base.generation) inputs).consumed,
      name ∈ p.written ∧ compactedGeneration name = none := fun name hname =>
    Partition.mem_flushed.mp (Base.flushed_next h hbase hcurrent hinputs hname)
  have hfiles : (base.next (compactedName uuid base.generation) inputs).files =
      [compactedName uuid base.generation] := rfl
  rw [Manifest.validate, hfiles]
  apply validateEntries_ok
  · intro entry hentry
    rw [List.map_singleton, List.singleton_append, List.mem_cons, List.mem_map] at hentry
    rcases hentry with rfl | ⟨name, hname, rfl⟩
    · exact ⟨.compacted uuid hle, by rw [hgeneration]; rfl⟩
    · exact ⟨h.sound.names (hflushed name hname).1, by rw [(hflushed name hname).2]; rfl⟩
  · have hnames : (([compactedName uuid base.generation].map (·, true)) ++
        (base.next (compactedName uuid base.generation) inputs).consumed.map (·, false)).map
          Prod.fst = compactedName uuid base.generation ::
            (base.next (compactedName uuid base.generation) inputs).consumed := by
      simp [Function.comp_def]
    rw [hnames, List.nodup_cons]
    refine ⟨?_, Base.nodup_next h hbase hcurrent hinputs _⟩
    intro hmem
    rw [(hflushed _ hmem).2] at hgeneration
    cases hgeneration
  · intro entry _
    exact List.not_mem_nil

/-! ## One round -/

section Round

variable {p : Partition Row} {procs : List (Process Row)}

/-- An object store that returns tags as they are. -/
abbrev bareStore : Backend := .objectStore .bare

abbrev Leads := (partitionSystem Row bareStore).Reaches

/-- The base of a rewrite that reads the manifest now. -/
def Partition.base (p : Partition Row) : Base := ⟨p.manifest, p.etag⟩

/-- The inputs of a rewrite that lists the partition now. -/
def Partition.inputs (p : Partition Row) : List Text := p.base.inputs p.keys

/-- The rewrite that has read its inputs. -/
def Partition.hasRead (p : Partition Row) (rows : Multiset Row) : Process Row :=
  .rewrite none (.reading p.base p.inputs [] rows)

theorem Scan.seen_page_all (p : Partition Row) : (Scan.start.page p .all).seen = p.keys := by
  exact List.filter_eq_self.mpr fun _ _ => rfl

theorem Partition.base_of (h : p.Kept bareStore) : p.base.Of bareStore p := Base.Of.read h

theorem Partition.inputsOf (h : p.Kept bareStore) : p.base.InputsOf p p.inputs := by
  have hscan : (Scan.start.page p .all).Faithful bareStore p :=
    (Scan.Faithful.start bareStore p).page h.sound rfl
  have hinputs : p.base.InputsOf p (p.base.inputs (Scan.start.page p .all).seen) :=
    Base.inputsOf_inputs hscan
  rwa [Scan.seen_page_all] at hinputs

/-- Every input is stored. -/
theorem Partition.stored_inputs (h : p.Kept bareStore) {name : Text}
    (hname : name ∈ p.inputs) : name ∈ p.objects := by
  obtain ⟨flush, hperm, -, hflush⟩ := Partition.inputsOf h
  rcases List.mem_append.mp (hperm.mem_iff.mp hname) with hfile | hnew
  · have hgeneration := h.sound.generation_of_mem_files hfile
    apply h.sound.mem_objects_of_live (h.sound.written_of_files hfile)
    rw [isLive, hgeneration]
    exact List.contains_iff_mem.mpr hfile
  · exact h.sound.unconsumed name (hflush name hnew).1 (hflush name hnew).2

/-- A rewrite reads its inputs one by one. -/
theorem reaches_read (procs : List (Process Row)) {rest : List Text}
    (hrest : ∀ name ∈ rest, name ∈ p.objects)
    (inputs : List Text) (rows : Multiset Row) (after : List (Process Row)) :
    ∃ rows', Leads (ordinary Row)
      ⟨p, procs ++ .rewrite none (.reading p.base inputs rest rows) :: after⟩
      ⟨p, procs ++ .rewrite none (.reading p.base inputs [] rows') :: after⟩ := by
  induction rest generalizing rows with
  | nil => exact ⟨rows, .refl _⟩
  | cons name rest ih =>
    obtain ⟨content, hcontent⟩ := mem_iff_lookup.mp (hrest name List.mem_cons_self)
    obtain ⟨rows', hrest'⟩ := ih (fun other hother => hrest other (List.mem_cons_of_mem _ hother))
      (rows + retained none content)
    refine ⟨rows', Interleaving.Reaches.trans ?_ hrest'⟩
    refine Interleaving.Reaches.act .get ⟨rfl, rfl⟩ ?_
    simp [partitionSystem, Process.act, Rewrite.act, hcontent]

/-- A rewrite of two files or more starts and reads them. -/
theorem reaches_reading (h : p.Kept bareStore) (htwo : 2 ≤ p.inputs.length)
    (procs : List (Process Row)) :
    ∃ rows, Leads (ordinary Row) ⟨p, procs⟩ ⟨p, procs ++ [p.hasRead rows]⟩ := by
  obtain ⟨rows, hread⟩ := reaches_read procs
    (fun name hname => Partition.stored_inputs h hname) p.inputs 0 []
  refine ⟨rows, ?_⟩
  have hstart : Leads (ordinary Row) ⟨p, procs⟩ ⟨p, procs ++ [.rewrite none .started]⟩ :=
    .start (Event.rewrite none) rfl rfl
  have hlist : Leads (ordinary Row) ⟨p, procs ++ [.rewrite none .started]⟩
      ⟨p, procs ++ [.rewrite none (.listing p.base .start)]⟩ :=
    .act .read ⟨rfl, rfl⟩ rfl
  have hplan : Leads (ordinary Row) ⟨p, procs ++ [.rewrite none (.listing p.base .start)]⟩
      ⟨p, procs ++ [.rewrite none (.reading p.base p.inputs p.inputs 0)]⟩ := by
    refine Interleaving.Reaches.act (.page .all) ⟨rfl, rfl⟩ ?_
    have hmany : ¬ (p.base.inputs p.keys).length < minimumInputs (none : Option (Row → Bool)) :=
      Nat.not_lt.mpr htwo
    simp only [partitionSystem, Process.act, Rewrite.act, Scan.seen_page_all]
    have hallowed : Cut.allowed bareStore .all = true := rfl
    rw [if_pos hallowed, if_neg fun hne => hne rfl, if_neg hmany]
    rfl
  exact hstart.trans (hlist.trans (hplan.trans hread))

/-- The output of a rewrite that reads the manifest now. -/
def Partition.output (p : Partition Row) (uuid : Uuid) : Text :=
  compactedName uuid p.base.generation

/-- The partition after the commit of a staged output. -/
def Partition.committed (p : Partition Row) (uuid : Uuid) (rows : Multiset Row) (pid : Nat) :
    Partition Row :=
  ((p.stage (p.output uuid) rows pid).publish (p.base.next (p.output uuid) p.inputs)).unclaim
    (p.output uuid)

/-- The rewrite that has stored its output. -/
def Partition.hasStaged (p : Partition Row) (uuid : Uuid) : Process Row :=
  .rewrite none (.committing p.base p.inputs (p.output uuid) false)

/-- The rewrite that has committed its output. -/
def Partition.hasCommitted (p : Partition Row) : Process Row :=
  .rewrite none (.cleaning p.inputs p.inputs p.base.generation)

/-- The rewrite that has read its inputs stores its output. -/
theorem reaches_stage (condition : PartitionCondition Row) (uuid : Uuid) (rows : Multiset Row)
    (hok : condition.act p (p.hasRead rows) (.put uuid))
    (hfresh : p.written.lookup (p.output uuid) = none) (procs after : List (Process Row)) :
    Leads condition ⟨p, procs ++ p.hasRead rows :: after⟩
      ⟨p.stage (p.output uuid) rows procs.length, procs ++ p.hasStaged uuid :: after⟩ := by
  have hnone : (p.written.lookup (compactedName uuid p.base.generation)).isNone = true :=
    Option.isNone_iff_eq_none.mpr hfresh
  refine .act (.put uuid) hok ?_
  simp only [partitionSystem, Partition.hasRead, Process.act, Rewrite.act]
  rw [if_pos hnone]
  rfl

/-- The rewrite whose base is current commits its staged output. -/
theorem reaches_commit (condition : PartitionCondition Row) (uuid : Uuid)
    (h : p.Kept bareStore) (rows : Multiset Row) (procs after : List (Process Row))
    (hok : condition.act (p.stage (p.output uuid) rows procs.length) (p.hasStaged uuid)
      (.commit true .ok)) :
    Leads condition ⟨p.stage (p.output uuid) rows procs.length, procs ++ p.hasStaged uuid :: after⟩
      ⟨p.committed uuid rows procs.length, procs ++ p.hasCommitted :: after⟩ := by
  have hvalid : (p.base.next (p.output uuid) p.inputs).validate = .ok () :=
    Base.validate_next h (Partition.base_of h) rfl (Partition.inputsOf h)
  have henabled : (p.base.swap bareStore).enabled (p.stage (p.output uuid) rows procs.length) =
      true := by
    cases hversions : p.versions with
    | nil =>
      have hexisting : p.base.existing = none := by
        rw [Partition.base, Partition.manifest, hversions]
        rfl
      have hswap : p.base.swap bareStore = .create := by
        unfold Base.swap
        rw [hexisting]
      rw [hswap]
      exact List.isEmpty_iff.mpr hversions
    | cons m rest =>
      have hexisting : p.base.existing = some m := by
        rw [Partition.base, Partition.manifest, hversions]
        rfl
      have hswap : p.base.swap bareStore = .update p.etag := by
        unfold Base.swap
        rw [hexisting]
        rfl
      rw [hswap]
      exact beq_self_eq_true p.etag
  have hpossible : (p.base.swap bareStore).possible (p.stage (p.output uuid) rows procs.length)
      true .ok = true := by
    rw [Swap.possible, henabled]
    cases p.base.swap bareStore <;> rfl
  refine .act (.commit true .ok) hok ?_
  simp only [partitionSystem, Partition.hasStaged, Process.act, Rewrite.act, hvalid]
  rw [if_pos hpossible]
  rfl

/-- Two flush files that are live are two inputs. -/
theorem Partition.two_le_inputs (h : p.Kept bareStore) {first second : Text}
    (hne : first ≠ second) (hfirst : first ∈ p.objects ∧ compactedGeneration first = none ∧
      first ∉ consumedOf p.manifest)
    (hsecond : second ∈ p.objects ∧ compactedGeneration second = none ∧
      second ∉ consumedOf p.manifest) : 2 ≤ p.inputs.length := by
  have hmem : ∀ {name}, name ∈ p.objects ∧ compactedGeneration name = none ∧
      name ∉ consumedOf p.manifest → name ∈ p.inputs := by
    rintro name ⟨hstored, hflush, hconsumed⟩
    apply (mem_sortByKey id).mpr
    apply List.mem_append_right
    have hkey : name ∈ p.keys := List.mem_append_left _ (AList.mem_keys.mpr hstored)
    exact mem_liveFlush.mpr ⟨hkey, (h.sound.names (h.sound.mem_written hstored)).parquet, hflush,
      hconsumed⟩
  have hsubset : [first, second] ⊆ p.inputs := by
    intro name hname
    rcases List.mem_pair.mp hname with rfl | rfl
    · exact hmem hfirst
    · exact hmem hsecond
  exact (List.subperm_of_subset (by simpa using hne) hsubset).length_le

variable {world : World (Partition Row) (Process Row)} {bound : Nat}

theorem holds_of_reaches {world' : World (Partition Row) (Process Row)}
    (h : (discipline bareStore Row).Holds world)
    (hreaches : Leads (ordinary Row) world world') :
    (discipline bareStore Row).Holds world' := by
  obtain ⟨moves, hmoves, rfl⟩ := hreaches
  exact h.run hmoves

/-- A world with so many generations, and names left for more. -/
structure Ready (generations : Nat) (world : World (Partition Row) (Process Row)) : Prop where
  holds : (discipline bareStore Row).Holds world
  etag : world.shared.etag = generations
  names : world.shared.UsesBelow (3 * generations)

/-- A flush file under the next name. -/
theorem reaches_flush (h : p.UsesBelow bound) (hbound : bound < 2 ^ 128) (rows : Multiset Row)
    (procs : List (Process Row)) :
    Leads (ordinary Row) ⟨p, procs⟩ ⟨p.put (flushName (nthUuid bound)) rows, procs⟩ := by
  have hfresh := h.fresh hbound (take_flushName (nthUuid bound))
  refine .occur (Event.flush (nthUuid bound) rows) rfl ?_
  simp only [partitionSystem, Event.occur]
  rw [if_pos (Option.isNone_iff_eq_none.mpr hfresh)]

/-- The file a writer stores is live. -/
theorem live_after_put (hp : p.Sound) (h : p.UsesBelow bound) (hbound : bound < 2 ^ 128)
    (rows : Multiset Row) :
    flushName (nthUuid bound) ∈ (p.put (flushName (nthUuid bound)) rows).objects ∧
      compactedGeneration (flushName (nthUuid bound)) = none ∧
      flushName (nthUuid bound) ∉ consumedOf p.manifest := by
  have hfresh := h.fresh hbound (take_flushName (nthUuid bound))
  refine ⟨mem_iff_lookup.mpr ⟨rows, by rw [Partition.lookup_put, if_pos rfl]⟩,
    compactedGeneration_flushName _, ?_⟩
  intro hconsumed
  exact notMem_of_lookup_none hfresh
    (Partition.mem_flushed.mp (hp.flushed_of_consumed hconsumed)).1

/-- Two more flush files make a partition worth compacting. -/
theorem exists_two_flushes (hholds : (discipline bareStore Row).Holds ⟨p, procs⟩)
    (hnames : p.UsesBelow bound) (hbound : bound + 1 < 2 ^ 128) (first second : Multiset Row) :
    ∃ p', Leads (ordinary Row) ⟨p, procs⟩ ⟨p', procs⟩ ∧
      p' = (p.put (flushName (nthUuid bound)) first).put (flushName (nthUuid (bound + 1))) second ∧
      p'.UsesBelow (bound + 2) ∧ 2 ≤ p'.inputs.length := by
  have hbound' : bound < 2 ^ 128 := by omega
  have hnames' := hnames.put (take_flushName (nthUuid bound)) first
  have hreach := (reaches_flush hnames hbound' first procs).trans
    (reaches_flush hnames' hbound second procs)
  have hholds' := holds_of_reaches hholds hreach
  have hone := live_after_put hholds.shared.sound hnames hbound' first
  have htwo := live_after_put (holds_of_reaches hholds
    (reaches_flush hnames hbound' first procs)).shared.sound hnames' hbound second
  refine ⟨_, hreach, rfl, hnames'.put (take_flushName _) second, ?_⟩
  have hne : flushName (nthUuid bound) ≠ flushName (nthUuid (bound + 1)) := by
    intro heq
    have htake := congrArg (List.take 36) heq
    have := nthUuid_injective hbound' hbound (Uuid.hyphenated_injective htake)
    omega
  exact Partition.two_le_inputs hholds'.shared hne
    ⟨Partition.mem_put_objects hone.1, hone.2⟩ htwo

/-- One more generation. -/
theorem Ready.next {generations : Nat} (h : Ready generations world)
    (hroom : generations < u64Max) :
    ∃ world', Leads (ordinary Row) world world' ∧
      Ready (generations + 1) world' := by
  obtain ⟨p, procs⟩ := world
  have hlimit : u64Max < 2 ^ 64 := by decide
  obtain ⟨p', hflush, hp', hnames, htwo⟩ :=
    exists_two_flushes h.holds h.names (by omega) 0 0
  have hholds := holds_of_reaches h.holds hflush
  have hetag : p'.etag = generations := by
    rw [hp']
    exact h.etag
  obtain ⟨rows, hreading⟩ := reaches_reading hholds.shared htwo procs
  have hfresh : p'.written.lookup (p'.output (nthUuid (3 * generations + 2))) = none :=
    hnames.fresh (by omega) (take_compactedName _ _)
  have hfits : generationOf p'.manifest < u64Max := by
    rw [hholds.shared.sound.generationOf_manifest, hetag]
    exact hroom
  have hstage := reaches_stage (ordinary Row) _ rows ⟨rfl, decide_eq_true hfits⟩ hfresh procs []
  have hcommit := reaches_commit (ordinary Row) (nthUuid (3 * generations + 2)) hholds.shared rows
    procs [] ⟨rfl, rfl⟩
  have hreach := hflush.trans (hreading.trans (hstage.trans hcommit))
  refine ⟨_, hreach, holds_of_reaches h.holds hreach, ?_, ?_⟩
  · have hcommitted : (p'.committed (nthUuid (3 * generations + 2)) rows procs.length).etag =
        p'.etag + 1 := rfl
    rw [hcommitted, hetag]
  · exact hnames.put (take_compactedName _ _) rows

theorem ready_emptyWorld : Ready 0 (emptyWorld Row) :=
  ⟨holds_emptyWorld bareStore, rfl, fun name hname => by cases hname⟩

/-- Every generation there is can be published. -/
theorem exists_ready (Row : Type u) (generations : Nat) (h : generations ≤ u64Max) :
    ∃ world, Leads (ordinary Row) (emptyWorld Row) world ∧
      Ready generations world := by
  induction generations with
  | zero => exact ⟨_, .refl _, ready_emptyWorld⟩
  | succ generations ih =>
    obtain ⟨world, hreach, hready⟩ := ih (by omega)
    obtain ⟨world', hreach', hready'⟩ := hready.next (by omega)
    exact ⟨world', hreach.trans hreach', hready'⟩

/-! ## After the last generation -/

theorem reaches_linearizable {world' : World (Partition Row) (Process Row)}
    (h : Leads (ordinary Row) world world') :
    Leads (linearizable Row) world world' := by
  have hact : ∀ p process action, (ordinary Row).act p process action →
      (linearizable Row).act p process action := fun _ _ _ hact => hact.1
  have hevent : ∀ p event, (ordinary Row).event p event → (linearizable Row).event p event :=
    fun _ _ hevent => hevent
  exact h.imp hact hevent

/-- A collection looks for orphans now and deletes them later. -/
theorem reaches_collect (p : Partition Row) (procs : List (Process Row)) :
    Leads (linearizable Row) ⟨p, procs⟩
      ⟨p, procs ++ [.gc (.deleting (p.keys.filter (isOrphan p.manifest)))]⟩ := by
  have hstart : Leads (linearizable Row) ⟨p, procs⟩
      ⟨p, procs ++ [.gc .started]⟩ := .start Event.collect rfl rfl
  have hread : Leads (linearizable Row)
      ⟨p, procs ++ [.gc .started]⟩ ⟨p, procs ++ [.gc (.listing p.manifest .start)]⟩ :=
    .act .read rfl rfl
  have hlist : Leads (linearizable Row) ⟨p, procs ++ [.gc (.listing p.manifest .start)]⟩
      ⟨p, procs ++ [.gc (.deleting (p.keys.filter (isOrphan p.manifest)))]⟩ := by
    refine .act (.page .all) rfl ?_
    have hallowed : Cut.allowed bareStore .all = true := rfl
    simp only [partitionSystem, Process.act, Gc.act, Scan.seen_page_all]
    rfl
  exact hstart.trans (hread.trans hlist)

/-- Deletes that fail leave the rest of the orphans. -/
theorem reaches_skip (p : Partition Row) (procs : List (Process Row)) (before rest : List Text) :
    Leads (linearizable Row)
      ⟨p, procs ++ [.gc (.deleting (before ++ rest))]⟩ ⟨p, procs ++ [.gc (.deleting rest)]⟩ := by
  induction before with
  | nil => exact .refl _
  | cons name before ih =>
    refine Interleaving.Reaches.trans ?_ ih
    exact .act (.delete false) rfl rfl

/-- An output for the generation the manifest has is taken for an orphan. -/
theorem isOrphan_output (h : p.Kept bareStore) (hlast : p.etag = u64Max) {uuid : Uuid}
    (hfresh : p.written.lookup (p.output uuid) = none) :
    isOrphan p.manifest (p.output uuid) = true := by
  have hle : p.base.generation ≤ u64Max := Nat.min_le_right _ _
  have hname : DataName (p.output uuid) := .compacted uuid hle
  have hnot : p.output uuid ∉ filesOf p.manifest := fun hmem =>
    notMem_of_lookup_none hfresh (h.sound.written_of_files hmem)
  have hgeneration := compactedGeneration_compactedName uuid hle
  rw [isOrphan, not_isTmp_of_parquet hname.parquet, if_neg Bool.false_ne_true]
  rw [Partition.output] at hnot ⊢
  rw [hgeneration]
  simp only [Bool.and_eq_true, decide_eq_true_eq, Bool.not_eq_true', List.contains_eq_mem,
    decide_eq_false_iff_not]
  refine ⟨?_, hnot⟩
  rw [h.sound.generationOf_manifest, hlast]
  exact hle

theorem Partition.mem_put_self (p : Partition Row) (name : Text) (rows : Multiset Row) :
    name ∈ (p.put name rows).objects :=
  mem_iff_lookup.mpr ⟨rows, by rw [Partition.lookup_put, if_pos rfl]⟩

/-- An output for the last generation is stored, then listed by a collection, and then
committed. -/
theorem reaches_late_commit (h : p.Kept bareStore) (hlast : p.etag = u64Max) {uuid : Uuid}
    (hfresh : p.written.lookup (p.output uuid) = none) (rows : Multiset Row)
    (procs : List (Process Row)) :
    ∃ rest, Leads (linearizable Row) ⟨p, procs ++ [p.hasRead rows]⟩
      ⟨p.committed uuid rows procs.length,
        (procs ++ [p.hasCommitted]) ++ [.gc (.deleting (p.output uuid :: rest))]⟩ := by
  have hstage := reaches_stage (linearizable Row) uuid rows rfl hfresh procs []
  have hcollect := reaches_collect (p.stage (p.output uuid) rows procs.length)
    (procs ++ [p.hasStaged uuid])
  have hlisted : p.output uuid ∈ (p.stage (p.output uuid) rows procs.length).keys := by
    apply List.mem_append_left
    apply AList.mem_keys.mp
    exact Partition.mem_put_self p (p.output uuid) rows
  have horphan : p.output uuid ∈ (p.stage (p.output uuid) rows procs.length).keys.filter
      (isOrphan (p.stage (p.output uuid) rows procs.length).manifest) :=
    List.mem_filter.mpr ⟨hlisted, isOrphan_output h hlast hfresh⟩
  obtain ⟨before, rest, hsplit⟩ := List.append_of_mem horphan
  have hcommit := reaches_commit (linearizable Row) uuid h rows procs
    [.gc (.deleting (before ++ p.output uuid :: rest))] rfl
  have hskip := reaches_skip (p.committed uuid rows procs.length) (procs ++ [p.hasCommitted])
    before (p.output uuid :: rest)
  rw [hsplit, List.append_assoc] at hcollect
  rw [List.append_assoc] at hskip
  exact ⟨rest, hstage.trans (hcollect.trans (hcommit.trans hskip))⟩

theorem Partition.isLive_output (p : Partition Row) (uuid : Uuid) (rows : Multiset Row)
    (pid : Nat) :
    isLive (p.committed uuid rows pid).manifest (p.output uuid) = true := by
  have hmanifest : (p.committed uuid rows pid).manifest =
      some (p.base.next (p.output uuid) p.inputs) := rfl
  have hle : p.base.generation ≤ u64Max := Nat.min_le_right _ _
  have hgeneration := compactedGeneration_compactedName uuid hle
  rw [hmanifest, isLive, Partition.output, hgeneration]
  exact List.contains_iff_mem.mpr List.mem_cons_self

/-- A collection that is about to delete a live file does so. -/
theorem deletes_live {others : List (Process Row)} {name : Text} {rest : List Text}
    (hreach : Leads (linearizable Row) (emptyWorld Row)
      ⟨p, others ++ [.gc (.deleting (name :: rest))]⟩)
    (hstored : name ∈ p.objects) (hlive : isLive p.manifest name = true) :
    ∃ (moves : List (Move Action (Event Row))) (move : Move Action (Event Row)),
      Conducted bareStore (linearizable Row) (moves ++ [move]) ∧
      ∃ name ∈ (runPartition bareStore moves).shared.objects,
        isLive (runPartition bareStore moves).shared.manifest name = true ∧
        name ∉ (runPartition bareStore (moves ++ [move])).shared.objects := by
  obtain ⟨moves, hmoves, hrun⟩ := hreach
  have hdelete : (partitionSystem Row bareStore).act p others.length
      (.gc (.deleting (name :: rest))) (.delete true) =
        some (p.delete name true, .gc (.deleting rest)) := rfl
  refine ⟨moves, .act others.length (.delete true), ?_, name, ?_, ?_, ?_⟩
  · apply Interleaving.meets_append.mpr
    refine ⟨hmoves, ?_, trivial⟩
    rw [hrun]
    exact Interleaving.allows_act rfl
  · rw [runPartition, hrun]
    exact hstored
  · rw [runPartition, hrun]
    exact hlive
  · rw [runPartition, Interleaving.run_append, hrun, Interleaving.run_cons, Interleaving.run_nil,
      Interleaving.step_act hdelete]
    apply notMem_of_lookup_none
    rw [Partition.lookup_delete, if_pos ⟨rfl, rfl⟩]

/-- At the last generation a collection deletes an output after its commit. -/
theorem live_output_deleted :
    ∃ (moves : List (Move Action (Event Nat))) (move : Move Action (Event Nat)),
      Conducted bareStore (linearizable Nat) (moves ++ [move]) ∧
      ∃ name ∈ (runPartition bareStore moves).shared.objects,
        isLive (runPartition bareStore moves).shared.manifest name = true ∧
        name ∉ (runPartition bareStore (moves ++ [move])).shared.objects := by
  obtain ⟨⟨p, procs⟩, hfull, hready⟩ := exists_ready Nat u64Max (le_refl _)
  have hlimit : u64Max < 2 ^ 64 := by decide
  obtain ⟨p', hflush, hp', hnames, htwo⟩ :=
    exists_two_flushes hready.holds hready.names (by omega) 0 0
  have hkept := (holds_of_reaches hready.holds hflush).shared
  have hlast : p'.etag = u64Max := by
    rw [hp']
    exact hready.etag
  obtain ⟨rows, hreading⟩ := reaches_reading hkept htwo procs
  have hfresh : p'.written.lookup (p'.output (nthUuid (3 * u64Max + 2))) = none :=
    hnames.fresh (by omega) (take_compactedName _ _)
  obtain ⟨rest, hlate⟩ := reaches_late_commit hkept hlast hfresh rows procs
  apply deletes_live ((reaches_linearizable (hfull.trans (hflush.trans hreading))).trans hlate)
  · exact Partition.mem_put_self p' _ rows
  · exact Partition.isLive_output p' _ rows _

end Round

end Ourios.Parquet
