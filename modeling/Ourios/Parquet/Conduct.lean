/-
# What each process knows

The assertion of every process of a partition, phase by phase, and the proof that each
request keeps it and the shared invariant. A rewrite knows that its base is current as
long as nobody published since; a collector, that its orphans are reclaimable; a reader,
that a flush file stored before its listing is in the listing, or consumed by a manifest
that the listing shows.

The condition on a run is that no put of the manifest takes effect and is answered with a
failed precondition, that no rewrite starts from the last generation there is, and that
nothing is erased.
-/

import Ourios.Parquet.Invariant

namespace Ourios.Parquet

open Ourios.Foundation

universe u

variable {Row : Type u}

/-! ## Assertions -/

/-- What a listing in progress has found. -/
structure Scan.Faithful (backend : Backend) (p : Partition Row) (scan : Scan) : Prop where
  allowed : ∀ cut ∈ scan.passed, cut.allowed backend = true
  nodup : scan.seen.Nodup
  passed : ∀ key ∈ scan.seen, scan.isPassed key = true
  found : ∀ key ∈ scan.seen, key = manifestFilename ∨ key ∈ p.written

variable (backend : Backend) (p : Partition Row)

/-- A flush file stored before a listing began and passed by it was found, or a manifest
consumed it, which on an object store the listing shows or has yet to reach. -/
def Scan.Accounts (due : List Text) (scan : Scan) : Prop :=
  ∀ name ∈ due, scan.isPassed name = true → name ∈ scan.seen ∨
    name ∈ consumedOf p.manifest ∧
      (backend ≠ .localFiles →
        manifestFilename ∈ scan.seen ∨ scan.isPassed manifestFilename = false)

/-- The process that compacts a local directory holds it. -/
def Partition.HeldBy (pid : Nat) : Prop :=
  backend = .localFiles → p.compactor = some pid

/-- What a rewrite knows of the manifest it read: nothing changed while the tag is the
same, and in a local directory it is. -/
structure Base.Of (backend : Backend) (p : Partition Row) (base : Base) : Prop where
  le : base.etag ≤ p.etag
  current : base.etag = p.etag → base.existing = p.manifest
  generation : generationOf base.existing = base.etag
  held : backend = .localFiles → base.etag = p.etag

/-- The inputs of a rewrite: the files of its base and flush files the base did not
consume. -/
def Base.InputsOf (base : Base) (inputs : List Text) : Prop :=
  ∃ flush, inputs.Perm (filesOf base.existing ++ flush) ∧ flush.Nodup ∧
    ∀ name ∈ flush, name ∈ p.flushed ∧ name ∉ consumedOf base.existing

/-- An output that its process may still commit. -/
structure Base.OutputOf (p : Partition Row) (pid : Nat) (base : Base) (inputs : List Text)
    (output : Text) : Prop where
  claimed : p.claims.lookup output = some pid
  rows : p.written.lookup output = some (p.rowsIn inputs)
  named : compactedGeneration output = some (base.etag + 1)
  generation : base.generation = base.etag + 1
  stored : base.etag = p.etag → output ∈ p.objects
  written : ∀ name ∈ inputs, name ∈ p.written

def Rewrite.Asserts (pid : Nat) : Rewrite Row → Prop
  | .started => p.HeldBy backend pid
  | .listing base scan =>
    p.HeldBy backend pid ∧ base.Of backend p ∧ scan.Faithful backend p
  | .reading base inputs rest rows =>
    p.HeldBy backend pid ∧ base.Of backend p ∧ base.InputsOf p inputs ∧
      ∃ done, inputs = done ++ rest ∧ (∀ name ∈ done, name ∈ p.written) ∧
        rows = p.rowsIn done
  | .committing base inputs output _ =>
    p.HeldBy backend pid ∧ base.Of backend p ∧ base.InputsOf p inputs ∧
      base.OutputOf p pid inputs output
  | .discarding _ output => p.Reclaimable output
  | .cleaning _ rest _ => ∀ name ∈ rest, p.Reclaimable name
  | .finished _ | .failed => True

/-- What a collection knows. -/
def Gc.Asserts : Gc → Prop
  | .started => True
  | .listing manifest scan =>
    generationOf manifest ≤ p.etag ∧
    (generationOf manifest = p.etag → filesOf manifest = filesOf p.manifest) ∧
    (∀ name ∈ consumedOf manifest, name ∈ consumedOf p.manifest) ∧ scan.Faithful backend p
  | .deleting orphans => ∀ name ∈ orphans, p.Reclaimable name
  | .failed => True

/-- The live files a reader resolved hold the rows of some flush files, each once, with
all that were stored before its listing. -/
structure Covers (p : Partition Row) (due live cover : List Text) : Prop where
  nodup : cover.Nodup
  includes : ∀ name ∈ due, name ∈ cover
  flushed : ∀ name ∈ cover, name ∈ p.flushed
  written : ∀ name ∈ live, name ∈ p.written
  rows : p.rowsIn live = p.rowsIn cover

/-- What a listing in progress knows of the files due to it. -/
structure Listing (backend : Backend) (p : Partition Row) (due : List Text) (scan : Scan) :
    Prop where
  faithful : scan.Faithful backend p
  flushed : ∀ name ∈ due, name ∈ p.flushed
  accounts : scan.Accounts backend p due

/-- What a complete listing has found. -/
structure Listed (backend : Backend) (p : Partition Row) (due seen : List Text) : Prop where
  nodup : seen.Nodup
  found : ∀ key ∈ seen, key = manifestFilename ∨ key ∈ p.written
  flushed : ∀ name ∈ due, name ∈ p.flushed
  accounts : ∀ name ∈ due, name ∈ seen ∨
    name ∈ consumedOf p.manifest ∧ (backend ≠ .localFiles → manifestFilename ∈ seen)

def Reader.Asserts : Reader Row → Prop
  | .listing due scan => Listing backend p due scan
  | .resolving due seen => Listed backend p due seen
  | .opening due live rest rows =>
    ∃ cover done, Covers p due live cover ∧ live = done ++ rest ∧ rows = p.rowsIn done
  | .failed => True

def Snapshot.Asserts : Snapshot → Prop
  | .listing due scan => Listing backend p due scan
  | .resolving due seen => Listed backend p due seen
  | .taken due manifest live =>
    (∀ name ∈ due, name ∈ live ∨ name ∈ consumedOf manifest) ∧
    (∀ m, manifest = some m → m ∈ p.versions) ∧ ∀ name ∈ live, name ∈ p.flushed
  | .failed => True

def Process.Asserts (pid : Nat) : Process Row → Prop
  | .rewrite drop phase => drop = none ∧ phase.Asserts backend p pid
  | .gc phase => phase.Asserts backend p
  | .reader phase => phase.Asserts backend p
  | .snapshot phase => phase.Asserts backend p

/-! ## Stability -/

section Stability

variable {backend : Backend} {pid : Nat} {p p' : Partition Row}

theorem Scan.Faithful.stable {scan : Scan} (h : scan.Faithful backend p)
    (hrely : Partition.Evolves pid p p') : scan.Faithful backend p' := by
  refine ⟨h.allowed, h.nodup, h.passed, ?_⟩
  intro key hkey
  exact (h.found key hkey).imp_right hrely.mem_written

variable {due : List Text} {base : Base}

theorem Scan.Accounts.stable {scan : Scan} (h : scan.Accounts backend p due)
    (hrely : Partition.Evolves pid p p') : scan.Accounts backend p' due := by
  intro name hname hpassed
  rcases h name hname hpassed with hseen | ⟨hconsumed, hmanifest⟩
  · exact .inl hseen
  · exact .inr ⟨hrely.consumed hconsumed, hmanifest⟩

theorem Partition.HeldBy.stable (h : p.HeldBy backend pid) (hrely : Partition.Evolves pid p p') :
    p'.HeldBy backend pid := by
  intro hlocal
  exact (hrely.held (h hlocal)).1

theorem Base.Of.stable (h : base.Of backend p) (hheld : p.HeldBy backend pid)
    (hrely : Partition.Evolves pid p p') : base.Of backend p' := by
  have hle := hrely.etag_le
  refine ⟨h.le.trans hle, ?_, h.generation, ?_⟩
  · intro hetag
    have hsame : p'.etag = p.etag := by
      have := h.le
      omega
    rw [hrely.manifest_eq hsame]
    exact h.current (hetag.trans hsame)
  · intro hlocal
    have hversions := (hrely.held (hheld hlocal)).2
    rw [Partition.etag, hversions]
    exact h.held hlocal

theorem Base.InputsOf.stable {inputs : List Text} (h : base.InputsOf p inputs)
    (hrely : Partition.Evolves pid p p') : base.InputsOf p' inputs := by
  obtain ⟨flush, hperm, hnodup, hflush⟩ := h
  refine ⟨flush, hperm, hnodup, ?_⟩
  intro name hname
  exact ⟨hrely.mem_flushed (hflush name hname).1, (hflush name hname).2⟩

/-- An output that may still be committed is not deleted. -/
theorem Base.OutputOf.stable {inputs : List Text} {output : Text}
    (h : base.OutputOf p pid inputs output) (hbase : base.Of backend p)
    (hrely : Partition.Evolves pid p p') : base.OutputOf p' pid inputs output := by
  have hclaimed := hrely.claims h.claimed
  refine ⟨hclaimed, ?_, h.named, h.generation, ?_, ?_⟩
  · rw [Partition.rowsIn_eq hrely.written h.written]
    exact hrely.written h.rows
  · intro hetag
    have hsame : base.etag = p.etag := by
      have := hbase.le
      have := hrely.etag_le
      omega
    rcases hrely.kept (h.stored hsame) with hstored | hdead
    · exact hstored
    · rcases hdead.past _ h.named with hle | hnone
      · omega
      · rw [hclaimed] at hnone
        cases hnone
  · intro name hname
    exact hrely.mem_written (h.written name hname)

theorem Rewrite.Asserts.stable {phase : Rewrite Row} (h : phase.Asserts backend p pid)
    (hrely : Partition.Evolves pid p p') : phase.Asserts backend p' pid := by
  cases phase with
  | started => exact Partition.HeldBy.stable h hrely
  | listing base scan =>
    obtain ⟨hheld, hbase, hscan⟩ := h
    exact ⟨hheld.stable hrely, hbase.stable hheld hrely, hscan.stable hrely⟩
  | reading base inputs rest rows =>
    obtain ⟨hheld, hbase, hinputs, done, hsplit, hdone, hrows⟩ := h
    refine ⟨hheld.stable hrely, hbase.stable hheld hrely, hinputs.stable hrely, done, hsplit,
      fun name hname => hrely.mem_written (hdone name hname), ?_⟩
    rw [Partition.rowsIn_eq hrely.written hdone]
    exact hrows
  | committing base inputs output respelled =>
    obtain ⟨hheld, hbase, hinputs, houtput⟩ := h
    exact ⟨hheld.stable hrely, hbase.stable hheld hrely, hinputs.stable hrely,
      houtput.stable hbase hrely⟩
  | discarding inputs output => exact hrely.reclaimable h
  | cleaning inputs rest generation =>
    exact fun name hname => hrely.reclaimable (h name hname)
  | finished | failed => trivial

theorem Gc.Asserts.stable {phase : Gc} (h : phase.Asserts backend p)
    (hrely : Partition.Evolves pid p p') : phase.Asserts backend p' := by
  cases phase with
  | started => trivial
  | listing manifest scan =>
    obtain ⟨hle, hfiles, hconsumed, hscan⟩ := h
    have hetag := hrely.etag_le
    refine ⟨hle.trans hetag, ?_, ?_, hscan.stable hrely⟩
    · intro heq
      have hsame : p'.etag = p.etag := by omega
      rw [hrely.manifest_eq hsame]
      exact hfiles (heq.trans hsame)
    · intro name hname
      exact hrely.consumed (hconsumed name hname)
  | deleting orphans => exact fun name hname => hrely.reclaimable (h name hname)
  | failed => trivial

theorem Covers.stable {live cover : List Text} (h : Covers p due live cover)
    (hrely : Partition.Evolves pid p p') : Covers p' due live cover := by
  have hcover : ∀ name ∈ cover, name ∈ p.written := fun name hname =>
    (Partition.mem_flushed.mp (h.flushed name hname)).1
  refine ⟨h.nodup, h.includes, fun name hname => hrely.mem_flushed (h.flushed name hname),
    fun name hname => hrely.mem_written (h.written name hname), ?_⟩
  rw [Partition.rowsIn_eq hrely.written h.written,
    Partition.rowsIn_eq hrely.written hcover]
  exact h.rows

theorem Listing.stable {scan : Scan} (h : Listing backend p due scan)
    (hrely : Partition.Evolves pid p p') : Listing backend p' due scan :=
  ⟨h.faithful.stable hrely, fun name hname => hrely.mem_flushed (h.flushed name hname),
    h.accounts.stable hrely⟩

theorem Listed.stable {seen : List Text} (h : Listed backend p due seen)
    (hrely : Partition.Evolves pid p p') : Listed backend p' due seen := by
  refine ⟨h.nodup, fun key hkey => (h.found key hkey).imp_right hrely.mem_written,
    fun name hname => hrely.mem_flushed (h.flushed name hname), ?_⟩
  intro name hname
  rcases h.accounts name hname with hseen | ⟨hconsumed, hmanifest⟩
  · exact .inl hseen
  · exact .inr ⟨hrely.consumed hconsumed, hmanifest⟩

theorem Reader.Asserts.stable {phase : Reader Row} (h : phase.Asserts backend p)
    (hrely : Partition.Evolves pid p p') : phase.Asserts backend p' := by
  cases phase with
  | listing due scan => exact Listing.stable h hrely
  | resolving due seen => exact Listed.stable h hrely
  | opening due live rest rows =>
    obtain ⟨cover, done, hcovers, hsplit, hrows⟩ := h
    refine ⟨cover, done, hcovers.stable hrely, hsplit, ?_⟩
    have hdone : ∀ name ∈ done, name ∈ p.written := fun name hname =>
      hcovers.written name (by rw [hsplit]; exact List.mem_append_left _ hname)
    rw [Partition.rowsIn_eq hrely.written hdone]
    exact hrows
  | failed => trivial

theorem Snapshot.Asserts.stable {phase : Snapshot} (h : phase.Asserts backend p)
    (hrely : Partition.Evolves pid p p') : phase.Asserts backend p' := by
  cases phase with
  | listing due scan => exact Listing.stable h hrely
  | resolving due seen => exact Listed.stable h hrely
  | taken due manifest live =>
    obtain ⟨hdue, hversion, hlive⟩ := h
    exact ⟨hdue, fun m hm => hrely.versions.mem (hversion m hm),
      fun name hname => hrely.mem_flushed (hlive name hname)⟩
  | failed => trivial

theorem Process.Asserts.stable {process : Process Row} (h : process.Asserts backend p pid)
    (hrely : Partition.Evolves pid p p') : process.Asserts backend p' pid := by
  cases process with
  | rewrite drop phase => exact ⟨h.1, h.2.stable hrely⟩
  | gc phase => exact Gc.Asserts.stable h hrely
  | reader phase => exact Reader.Asserts.stable h hrely
  | snapshot phase => exact Snapshot.Asserts.stable h hrely

end Stability

/-! ## Listings -/

section Listings

variable {backend : Backend} {p : Partition Row}
variable {scan : Scan} {due : List Text} {cut : Cut}

theorem Partition.nodup_keys (h : p.Sound) : p.keys.Nodup := by
  rw [Partition.keys]
  split
  · rw [List.append_nil]
    exact p.objects.keys_nodup
  · apply List.Nodup.append p.objects.keys_nodup (List.nodup_singleton _)
    intro key hkey hmanifest
    rw [List.mem_singleton] at hmanifest
    exact (h.names (h.mem_written (AList.mem_keys.mp hkey))).ne_manifest hmanifest

theorem Partition.mem_keys_of_version {m : Manifest} (h : p.manifest = some m) :
    manifestFilename ∈ p.keys := by
  have hversions : p.versions.isEmpty = false := by
    cases hcases : p.versions with
    | nil => simp [Partition.manifest, hcases] at h
    | cons => rfl
  rw [Partition.keys, hversions]
  exact List.mem_append_right _ (List.mem_singleton_self _)

@[simp] theorem Scan.isPassed_page (scan : Scan) (p : Partition Row) (cut : Cut) (key : Text) :
    (scan.page p cut).isPassed key = (cut.covers key || scan.isPassed key) := rfl

theorem Scan.mem_page {key : Text} : key ∈ (scan.page p cut).seen ↔
    key ∈ scan.seen ∨ key ∈ p.keys ∧ cut.covers key = true ∧ scan.isPassed key = false := by
  rw [Scan.page, List.mem_append, List.mem_filter, Bool.and_eq_true, Bool.not_eq_true']

theorem Scan.Faithful.start (backend : Backend) (p : Partition Row) :
    Scan.start.Faithful backend p where
  allowed := fun _ h => by cases h
  nodup := List.nodup_nil
  passed := fun _ h => by cases h
  found := fun _ h => by cases h

theorem Scan.Faithful.page (h : scan.Faithful backend p) (hp : p.Sound)
    (hcut : cut.allowed backend = true) : (scan.page p cut).Faithful backend p := by
  refine ⟨?_, ?_, ?_, ?_⟩
  · intro cut' hcut'
    rcases List.mem_cons.mp hcut' with rfl | hold
    · exact hcut
    · exact h.allowed cut' hold
  · apply List.Nodup.append h.nodup ((Partition.nodup_keys hp).filter _)
    intro key hseen hnew
    rw [List.mem_filter, Bool.and_eq_true, Bool.not_eq_true', h.passed key hseen] at hnew
    cases hnew.2.2
  · intro key hkey
    rw [isPassed_page]
    rcases mem_page.mp hkey with hseen | ⟨-, hcovers, -⟩
    · rw [h.passed key hseen, Bool.or_true]
    · rw [hcovers, Bool.true_or]
  · intro key hkey
    rcases mem_page.mp hkey with hseen | ⟨hstored, -, -⟩
    · exact h.found key hseen
    · rw [Partition.keys, List.mem_append] at hstored
      rcases hstored with hobject | hmanifest
      · exact .inr (hp.mem_written (AList.mem_keys.mp hobject))
      · split at hmanifest
        · cases hmanifest
        · exact .inl (List.mem_singleton.mp hmanifest)

/-- In ascending order a listing that passed the manifest's key passed every data file. -/
theorem Scan.Faithful.passed_of_manifest (h : scan.Faithful backend p)
    (hremote : backend ≠ .localFiles) {name : Text} (hname : name < manifestFilename)
    (hpassed : scan.isPassed manifestFilename = true) : scan.isPassed name = true := by
  obtain ⟨cut, hcut, hcovers⟩ := List.any_eq_true.mp hpassed
  apply List.any_eq_true.mpr
  refine ⟨cut, hcut, ?_⟩
  have hallowed := h.allowed cut hcut
  cases cut with
  | upTo last =>
    have hle : manifestFilename ≤ last := of_decide_eq_true hcovers
    exact decide_eq_true (hname.le.trans hle)
  | among names =>
    cases backend with
    | objectStore etag => cases hallowed
    | localFiles => exact absurd rfl hremote
  | all => rfl

/-- A manifest that exists is listed when its key is reached. -/
theorem Scan.manifest_page {m : Manifest} (hm : p.manifest = some m)
    (h : manifestFilename ∈ scan.seen ∨ scan.isPassed manifestFilename = false) :
    manifestFilename ∈ (scan.page p cut).seen ∨
      (scan.page p cut).isPassed manifestFilename = false := by
  rcases h with hseen | hpassed
  · exact .inl (mem_page.mpr (.inl hseen))
  · cases hcovers : cut.covers manifestFilename with
    | false => exact .inr (by rw [isPassed_page, hcovers, hpassed]; rfl)
    | true => exact .inl (mem_page.mpr (.inr ⟨Partition.mem_keys_of_version hm, hcovers, hpassed⟩))

/-- A name that some manifest consumed. -/
theorem exists_manifest_of_consumed {name : Text} (h : name ∈ consumedOf p.manifest) :
    ∃ m, p.manifest = some m := by
  cases hm : p.manifest with
  | none =>
    rw [hm] at h
    cases h
  | some m => exact ⟨m, rfl⟩

theorem Scan.Accounts.page (h : scan.Accounts backend p due) (cut : Cut) (hp : p.Sound)
    (hscan : scan.Faithful backend p) (hdue : ∀ name ∈ due, name ∈ p.flushed) :
    (scan.page p cut).Accounts backend p due := by
  intro name hname hpassed
  have hflushed := hdue name hname
  cases hold : scan.isPassed name with
  | true =>
    rcases h name hname hold with hseen | ⟨hconsumed, hmanifest⟩
    · exact .inl (mem_page.mpr (.inl hseen))
    · obtain ⟨m, hm⟩ := exists_manifest_of_consumed hconsumed
      exact .inr ⟨hconsumed, fun hremote => manifest_page hm (hmanifest hremote)⟩
  | false =>
    rw [isPassed_page, hold, Bool.or_false] at hpassed
    by_cases hstored : name ∈ p.objects
    · have hkey : name ∈ p.keys := List.mem_append_left _ (AList.mem_keys.mpr hstored)
      exact .inl (mem_page.mpr (.inr ⟨hkey, hpassed, hold⟩))
    · have hconsumed : name ∈ consumedOf p.manifest := by
        by_contra hnot
        exact hstored (hp.unconsumed name hflushed hnot)
      obtain ⟨m, hm⟩ := exists_manifest_of_consumed hconsumed
      refine .inr ⟨hconsumed, fun hremote => manifest_page hm (.inr ?_)⟩
      have hlt := (hp.names (Partition.mem_flushed.mp hflushed).1).lt_manifest
      apply Bool.eq_false_iff.mpr
      intro hmanifest
      rw [hscan.passed_of_manifest hremote hlt hmanifest] at hold
      cases hold

theorem Listing.page (h : Listing backend p due scan) (hp : p.Sound)
    (hcut : cut.allowed backend = true) : Listing backend p due (scan.page p cut) :=
  ⟨h.faithful.page hp hcut, h.flushed, h.accounts.page cut hp h.faithful h.flushed⟩

/-- A listing that looked at everything. -/
theorem Listing.listed (h : Listing backend p due (scan.page p .all)) :
    Listed backend p due (scan.page p .all).seen := by
  have hall : ∀ key, (scan.page p .all).isPassed key = true := fun key => rfl
  refine ⟨h.faithful.nodup, h.faithful.found, h.flushed, ?_⟩
  intro name hname
  rcases h.accounts name hname (hall name) with hseen | ⟨hconsumed, hmanifest⟩
  · exact .inl hseen
  · refine .inr ⟨hconsumed, fun hremote => (hmanifest hremote).resolve_right ?_⟩
    rw [hall]
    decide

/-- Nothing is passed at the start. -/
theorem Listing.start (backend : Backend) (p : Partition Row) :
    Listing backend p p.flushed .start :=
  ⟨.start backend p, fun _ hname => hname, fun _ _ hpassed => by cases hpassed⟩

end Listings

end Ourios.Parquet
