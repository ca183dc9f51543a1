/-
# What holds of a partition at any time

The shared invariant says that what the current manifest makes live is stored, and that
the files it names hold the rows of the flush files it consumed. A file may be deleted
once it can never be live again: `Reclaimable`. What a process relies on is that versions,
files and consumed names only accumulate, that only reclaimable files disappear, and that
nobody else commits its output.
-/

import Ourios.Parquet.Partition

namespace Ourios.Parquet

open Ourios.Foundation

universe u

variable {Row : Type u}

/-! ## Names -/

/-- The names writers and compactors give. -/
inductive DataName : Text → Prop
  | flush (uuid : Uuid) : DataName (flushName uuid)
  | compacted (uuid : Uuid) {generation : Nat} (h : generation ≤ u64Max) :
      DataName (compactedName uuid generation)

namespace DataName

variable {name : Text}

theorem parquet (h : DataName name) : isCommittedParquet name = true := by
  cases h with
  | flush uuid => exact isCommittedParquet_flushName uuid
  | compacted uuid _ => exact isCommittedParquet_compactedName uuid _

theorem lt_manifest (h : DataName name) : name < manifestFilename := by
  cases h with
  | flush uuid => exact flushName_lt_manifestFilename uuid
  | compacted uuid _ => exact compactedName_lt_manifestFilename uuid _

theorem ne_manifest (h : DataName name) : name ≠ manifestFilename := ne_of_lt h.lt_manifest

end DataName

theorem not_isTmp_of_parquet {name : Text} (h : isCommittedParquet name = true) :
    ".parquet.tmp".toList.isSuffixOf name = false := by
  apply Bool.eq_false_iff.mpr
  intro htmp
  obtain ⟨stem, rfl⟩ := List.isSuffixOf_iff_suffix.mp htmp
  obtain ⟨stem', heq⟩ := List.isSuffixOf_iff_suffix.mp h
  have hlast := congrArg List.getLast? heq
  rw [List.getLast?_append, List.getLast?_append] at hlast
  have hneq : (some 't' : Option Char) = some 'p' := hlast
  cases hneq

namespace Partition

/-! ## The operations on the store -/

section Operations

variable (p : Partition Row) (name other : Text) (rows : Multiset Row)

theorem rowsOf_of_lookup {p : Partition Row} {name : Text} {rows : Multiset Row}
    (h : p.written.lookup name = some rows) : p.rowsOf name = rows := by
  rw [rowsOf, h, Option.getD_some]

variable (removed : Bool)

@[simp] theorem delete_versions : (p.delete name removed).versions = p.versions := by
  cases removed <;> rfl

@[simp] theorem delete_written : (p.delete name removed).written = p.written := by
  cases removed <;> rfl

@[simp] theorem delete_claims : (p.delete name removed).claims = p.claims := by
  cases removed <;> rfl

@[simp] theorem delete_compactor : (p.delete name removed).compactor = p.compactor := by
  cases removed <;> rfl

theorem lookup_put : (p.put name rows).objects.lookup other =
    if other = name then some rows else p.objects.lookup other :=
  lookup_insert_ite name other rows p.objects

theorem written_put : (p.put name rows).written.lookup other =
    if other = name then some rows else p.written.lookup other :=
  lookup_insert_ite name other rows p.written

/-- A delete takes away its file and no other. -/
theorem lookup_delete : (p.delete name removed).objects.lookup other =
    if removed = true ∧ other = name then none else p.objects.lookup other := by
  cases removed with
  | false => rfl
  | true =>
    by_cases heq : other = name
    · subst other
      rw [if_pos ⟨rfl, rfl⟩]
      exact AList.lookup_erase name p.objects
    · rw [if_neg fun h => heq h.2]
      exact AList.lookup_erase_ne heq

end Operations

/-! ## Rows -/

section Rows

variable {p p' : Partition Row}

@[simp] theorem rowsIn_nil : p.rowsIn [] = 0 := rfl

@[simp] theorem rowsIn_cons (name : Text) (names : List Text) :
    p.rowsIn (name :: names) = p.rowsOf name + p.rowsIn names := by
  rw [rowsIn, List.map_cons, List.sum_cons, rowsIn]

theorem rowsIn_append (first second : List Text) :
    p.rowsIn (first ++ second) = p.rowsIn first + p.rowsIn second := by
  rw [rowsIn, List.map_append, List.sum_append, rowsIn, rowsIn]

theorem rowsIn_perm {first second : List Text} (h : first.Perm second) :
    p.rowsIn first = p.rowsIn second :=
  (h.map p.rowsOf).sum_eq

theorem rowsOf_le_rowsIn {name : Text} {names : List Text} (h : name ∈ names) :
    p.rowsOf name ≤ p.rowsIn names := by
  rw [rowsIn, ← List.sum_map_erase p.rowsOf h]
  exact Multiset.le_add_right _ _

/-- Files stored before keep their rows. -/
theorem rowsOf_eq (h : ∀ {name rows}, p.written.lookup name = some rows →
    p'.written.lookup name = some rows) {name : Text} (hname : name ∈ p.written) :
    p'.rowsOf name = p.rowsOf name := by
  obtain ⟨rows, hrows⟩ := mem_iff_lookup.mp hname
  rw [rowsOf_of_lookup hrows, rowsOf_of_lookup (h hrows)]

theorem rowsIn_eq (h : ∀ {name rows}, p.written.lookup name = some rows →
    p'.written.lookup name = some rows) {names : List Text}
    (hnames : ∀ name ∈ names, name ∈ p.written) :
    p'.rowsIn names = p.rowsIn names := by
  rw [rowsIn, rowsIn, List.map_congr_left fun name hname => rowsOf_eq h (hnames name hname)]

end Rows

theorem mem_flushed {p : Partition Row} {name : Text} :
    name ∈ p.flushed ↔ name ∈ p.written ∧ compactedGeneration name = none := by
  rw [flushed, List.mem_filter, AList.mem_keys, Option.isNone_iff_eq_none]

/-! ## Files that can go -/

/-- A file that is dead for good: it is not live, and if it is a compacted file its
generation is past or nobody commits it any more. -/
structure Reclaimable (p : Partition Row) (name : Text) : Prop where
  written : name ∈ p.written
  dead : isLive p.manifest name = false
  past : ∀ generation, compactedGeneration name = some generation →
    generation ≤ p.etag ∨ p.claims.lookup name = none

/-! ## The shared invariant -/

/-- What the current manifest says is so. -/
structure Represents (p : Partition Row) (m : Manifest) : Prop where
  output : ∃ output, m.files = [output] ∧ compactedGeneration output = some m.generation ∧
    output ∈ p.objects ∧ p.claims.lookup output = none
  nodup : m.consumed.Nodup
  consumed : ∀ name ∈ m.consumed, name ∈ p.flushed
  rows : p.rowsIn m.files = p.rowsIn m.consumed

/-- The invariant of a partition. Manifests are numbered in the order they were
published. -/
structure Sound (p : Partition Row) : Prop where
  stored : ∀ {name rows}, p.objects.lookup name = some rows → p.written.lookup name = some rows
  names : ∀ {name}, name ∈ p.written → DataName name
  numbered : ∀ {i : Nat} {m : Manifest}, p.versions[i]? = some m → m.generation + i = p.etag
  files : ∀ m ∈ p.versions, ∀ name ∈ m.files, name ∈ p.written
  current : ∀ {m}, p.manifest = some m → Represents p m
  unconsumed : ∀ name ∈ p.flushed, name ∉ consumedOf p.manifest → name ∈ p.objects
  claimed : ∀ {name pid}, p.claims.lookup name = some pid → name ∈ p.written

namespace Sound

variable {p : Partition Row} {name : Text}

theorem mem_written (h : Sound p) (hname : name ∈ p.objects) :
    name ∈ p.written :=
  mem_of_lookup_imp h.stored hname

/-- A manifest's generation is the number of manifests published up to it. -/
theorem generationOf_manifest (h : Sound p) : generationOf p.manifest = p.etag := by
  cases hversions : p.versions with
  | nil => simp [manifest, etag, hversions, generationOf]
  | cons m rest =>
    have hnumber : m.generation + 0 = p.etag := h.numbered (by rw [hversions]; rfl)
    simpa [manifest, hversions] using hnumber

theorem manifest_mem {m : Manifest} (hm : p.manifest = some m) : m ∈ p.versions :=
  List.mem_of_head? hm

section

variable (h : Sound p)
include h

/-- The named file of the current manifest carries its generation. -/
theorem generation_of_mem_files (hname : name ∈ filesOf p.manifest) :
    compactedGeneration name = some p.etag := by
  cases hm : p.manifest with
  | none =>
    rw [hm] at hname
    cases hname
  | some m =>
    rw [hm, filesOf_some] at hname
    obtain ⟨output, hfiles, hgeneration, -, -⟩ := (h.current hm).output
    rw [hfiles, List.mem_singleton] at hname
    have hetag : m.generation = p.etag := by
      rw [← h.generationOf_manifest, hm, generationOf_some]
    rw [hname, hgeneration, hetag]

theorem nodup_consumed : (consumedOf p.manifest).Nodup := by
  cases hm : p.manifest with
  | none => exact List.nodup_nil
  | some m => exact (h.current hm).nodup

theorem flushed_of_consumed (hname : name ∈ consumedOf p.manifest) : name ∈ p.flushed := by
  cases hm : p.manifest with
  | none =>
    rw [hm] at hname
    cases hname
  | some m =>
    rw [hm] at hname
    exact (h.current hm).consumed name hname

/-- The named files have the rows of the consumed ones. -/
theorem rowsIn_files :
    p.rowsIn (filesOf p.manifest) = p.rowsIn (consumedOf p.manifest) := by
  cases hm : p.manifest with
  | none => rfl
  | some m => exact (h.current hm).rows

theorem written_of_files (hname : name ∈ filesOf p.manifest) : name ∈ p.written := by
  cases hm : p.manifest with
  | none =>
    rw [hm] at hname
    cases hname
  | some m =>
    rw [hm] at hname
    exact h.files m (List.mem_of_head? hm) name hname

/-- A file that is live under the current manifest and was ever stored is stored. -/
theorem mem_objects_of_live (hwritten : name ∈ p.written)
    (hlive : isLive p.manifest name = true) : name ∈ p.objects := by
  rw [isLive] at hlive
  split at hlive
  · rw [List.contains_iff_mem] at hlive
    cases hm : p.manifest with
    | none =>
      rw [hm] at hlive
      cases hlive
    | some m =>
      rw [hm, filesOf_some] at hlive
      obtain ⟨output, hfiles, -, hstored, -⟩ := (h.current hm).output
      rw [hfiles, List.mem_singleton] at hlive
      exact hlive ▸ hstored
  · rename_i hflush
    simp only [Bool.and_eq_true, Bool.not_eq_true', List.contains_eq_mem,
      decide_eq_false_iff_not] at hlive
    exact h.unconsumed name (mem_flushed.mpr ⟨hwritten, hflush⟩) hlive.2

end

theorem not_reclaimable_of_live (hlive : isLive p.manifest name = true) :
    ¬ p.Reclaimable name := by
  intro h
  rw [h.dead] at hlive
  cases hlive

end Sound

/-! ## What a process relies on -/

/-- A change to the partition that a process relies on the others to keep to. -/
structure Evolves (pid : Nat) (p p' : Partition Row) : Prop where
  versions : p.versions <:+ p'.versions
  written : ∀ {name rows}, p.written.lookup name = some rows → p'.written.lookup name = some rows
  consumed : ∀ {name}, name ∈ consumedOf p.manifest → name ∈ consumedOf p'.manifest
  reclaimable : ∀ {name}, p.Reclaimable name → p'.Reclaimable name
  kept : ∀ {name}, name ∈ p.objects → name ∈ p'.objects ∨ p'.Reclaimable name
  claims : ∀ {name}, p.claims.lookup name = some pid → p'.claims.lookup name = some pid
  held : p.compactor = some pid → p'.compactor = some pid ∧ p'.versions = p.versions

namespace Evolves

variable {pid : Nat} {p p' p'' : Partition Row}

theorem refl (pid : Nat) (p : Partition Row) : Evolves pid p p :=
  ⟨List.suffix_refl _, id, id, id, .inl, id, fun h => ⟨h, rfl⟩⟩

variable (h : Evolves pid p p')
include h

theorem trans (h' : Evolves pid p' p'') : Evolves pid p p'' := by
  refine ⟨h.versions.trans h'.versions, fun hname => h'.written (h.written hname),
    fun hname => h'.consumed (h.consumed hname), fun hname => h'.reclaimable (h.reclaimable hname),
    ?_, fun hname => h'.claims (h.claims hname), ?_⟩
  · intro name hname
    rcases h.kept hname with hstored | hdead
    · exact h'.kept hstored
    · exact .inr (h'.reclaimable hdead)
  · intro hheld
    obtain ⟨hheld', hversions⟩ := h.held hheld
    obtain ⟨hheld'', hversions'⟩ := h'.held hheld'
    exact ⟨hheld'', hversions'.trans hversions⟩

theorem etag_le : p.etag ≤ p'.etag := h.versions.length_le

theorem mem_written {name : Text} (hname : name ∈ p.written) : name ∈ p'.written :=
  mem_of_lookup_imp h.written hname

theorem mem_flushed {name : Text} (hname : name ∈ p.flushed) : name ∈ p'.flushed := by
  rw [Partition.mem_flushed] at hname ⊢
  exact ⟨h.mem_written hname.1, hname.2⟩

/-- The manifest is the same while no new one was published. -/
theorem manifest_eq (hetag : p'.etag = p.etag) : p'.manifest = p.manifest := by
  rw [manifest, manifest, h.versions.eq_of_length hetag.symm]

end Evolves

/-! ## The operations keep the invariant -/

section Keep

variable {p : Partition Row}

variable {m : Manifest} {pid owner : Nat} {name other output : Text}

/-- A manifest still says what is so when its files stay. -/
theorem Represents.mono {p' : Partition Row} (h : Represents p m)
    (hwritten : ∀ {name rows}, p.written.lookup name = some rows →
      p'.written.lookup name = some rows) (hfiles : ∀ name ∈ m.files, name ∈ p.written)
    (hstored : ∀ name ∈ m.files, name ∈ p'.objects)
    (hclaims : ∀ name ∈ m.files, p'.claims.lookup name = none) : Represents p' m := by
  have hconsumed : ∀ name ∈ m.consumed, name ∈ p.written := fun name hname =>
    (mem_flushed.mp (h.consumed name hname)).1
  obtain ⟨output, heq, hgeneration, -, -⟩ := h.output
  have houtput : output ∈ m.files := by rw [heq]; exact List.mem_singleton_self _
  refine ⟨⟨output, heq, hgeneration, hstored output houtput, hclaims output houtput⟩, h.nodup,
    ?_, ?_⟩
  · intro name hname
    have hflushed := mem_flushed.mp (h.consumed name hname)
    exact mem_flushed.mpr ⟨mem_of_lookup_imp hwritten hflushed.1, hflushed.2⟩
  · rw [rowsIn_eq hwritten hfiles, rowsIn_eq hwritten hconsumed, h.rows]

theorem Sound.empty : Sound (Partition.empty : Partition Row) where
  stored := fun h => by cases h
  names := fun h => by cases h
  numbered := fun h => by cases h
  files := fun m hm => by cases hm
  current := fun h => by cases h
  unconsumed := fun name hname => by cases hname
  claimed := fun h => by cases h

theorem Sound.release (h : Sound p) (pid : Nat) : Sound (p.release pid) := by
  refine ⟨h.stored, h.names, h.numbered, h.files, ?_, h.unconsumed, h.claimed⟩
  intro m hm
  have hcurrent := h.current hm
  exact ⟨hcurrent.output, hcurrent.nodup, hcurrent.consumed, hcurrent.rows⟩

theorem Evolves.release {other : Nat} (hne : other ≠ pid) :
    Evolves other p (p.release pid) := by
  refine ⟨List.suffix_refl _, id, id, ?_, .inl, id, ?_⟩
  · intro name hname
    exact ⟨hname.written, hname.dead, hname.past⟩
  · intro hheld
    refine ⟨?_, rfl⟩
    have hother : ¬ p.compactor = some pid := by
      rw [hheld]
      exact fun heq => hne (Option.some.inj heq)
    rw [Partition.release, if_neg hother]
    exact hheld

/-- Names once stored keep their rows when a new file is stored. -/
theorem written_put_of_fresh (hfresh : p.written.lookup name = none) (rows : Multiset Row)
    {content : Multiset Row} (h : p.written.lookup other = some content) :
    (p.put name rows).written.lookup other = some content := by
  have hne : other ≠ name := by
    rintro rfl
    rw [hfresh] at h
    cases h
  rw [written_put, if_neg hne, h]

theorem mem_put_written {rows : Multiset Row} (h : other ∈ (p.put name rows).written) :
    other = name ∨ other ∈ p.written := by
  rw [← AList.lookup_isSome, written_put] at h
  split at h
  · rename_i heq
    exact .inl heq
  · exact .inr (AList.lookup_isSome.mp h)

theorem mem_put_objects {rows : Multiset Row} (h : other ∈ p.objects) :
    other ∈ (p.put name rows).objects := by
  rw [← AList.lookup_isSome, lookup_put]
  split
  · rfl
  · exact AList.lookup_isSome.mpr h

theorem Sound.put (h : Sound p) (hname : DataName name) (hfresh : p.written.lookup name = none)
    (rows : Multiset Row) :
    Sound (p.put name rows) := by
  have hkeeps : ∀ {other content}, p.written.lookup other = some content →
      (p.put name rows).written.lookup other = some content :=
    fun hother => written_put_of_fresh hfresh rows hother
  have hmem : ∀ {other}, other ∈ p.written → other ∈ (p.put name rows).written :=
    fun hother => mem_of_lookup_imp hkeeps hother
  refine ⟨?_, ?_, h.numbered, ?_, ?_, ?_, fun hclaim => hmem (h.claimed hclaim)⟩
  · intro other content hother
    rw [lookup_put] at hother
    rw [written_put]
    by_cases heq : other = name
    · rwa [if_pos heq] at hother ⊢
    · rw [if_neg heq] at hother ⊢
      exact h.stored hother
  · intro other hother
    rcases mem_put_written hother with rfl | hold
    · exact hname
    · exact h.names hold
  · intro m hm other hother
    exact hmem (h.files m hm other hother)
  · intro m hm
    have hcurrent : Represents p m := h.current hm
    have hversions : m ∈ p.versions := Sound.manifest_mem hm
    obtain ⟨output, hfiles, -, hstored, hclaim⟩ := hcurrent.output
    apply hcurrent.mono hkeeps (h.files m hversions)
    · intro other hother
      rw [hfiles, List.mem_singleton] at hother
      exact mem_put_objects (hother ▸ hstored)
    · intro other hother
      rw [hfiles, List.mem_singleton] at hother
      exact hother ▸ hclaim
  · intro other hother hconsumed
    rw [mem_flushed] at hother
    rcases mem_put_written hother.1 with rfl | hold
    · exact mem_iff_lookup.mpr ⟨rows, by rw [lookup_put, if_pos rfl]⟩
    · exact mem_put_objects (h.unconsumed other (mem_flushed.mpr ⟨hold, hother.2⟩) hconsumed)

theorem Evolves.put (hfresh : p.written.lookup name = none) (rows : Multiset Row) (pid : Nat) :
    Evolves pid p (p.put name rows) := by
  refine ⟨List.suffix_refl _, fun h => written_put_of_fresh hfresh rows h, id, ?_,
    fun h => .inl (mem_put_objects h), id, fun h => ⟨h, rfl⟩⟩
  intro other hother
  have hwritten := mem_of_lookup_imp (written_put_of_fresh hfresh rows) hother.written
  exact ⟨hwritten, hother.dead, hother.past⟩

/-- A name that was never stored is claimed by nobody. -/
theorem Sound.unclaimed (h : Sound p) (hfresh : p.written.lookup name = none) :
    p.claims.lookup name = none := by
  cases hclaim : p.claims.lookup name with
  | none => rfl
  | some pid => exact absurd (h.claimed hclaim) (notMem_of_lookup_none hfresh)

theorem Sound.stage (h : Sound p) (hname : DataName name)
    (hfresh : p.written.lookup name = none) (rows : Multiset Row) (pid : Nat) :
    Sound (p.stage name rows pid) := by
  have hput := h.put hname hfresh rows
  have hwritten : name ∈ (p.put name rows).written :=
    mem_iff_lookup.mpr ⟨rows, by rw [written_put, if_pos rfl]⟩
  refine ⟨hput.stored, hput.names, hput.numbered, hput.files, ?_, hput.unconsumed, ?_⟩
  · intro m hm
    have hcurrent : Represents (p.put name rows) m := hput.current hm
    obtain ⟨output, hfiles, hgeneration, hstored, hclaim⟩ := hcurrent.output
    have hne : output ≠ name := by
      rintro rfl
      apply notMem_of_lookup_none hfresh
      apply h.files m (Sound.manifest_mem hm) output
      rw [hfiles]
      exact List.mem_singleton_self _
    refine ⟨⟨output, hfiles, hgeneration, hstored, ?_⟩, hcurrent.nodup, hcurrent.consumed,
      hcurrent.rows⟩
    exact (AList.lookup_insert_ne hne).trans hclaim
  · intro other owner hclaim
    rcases eq_or_ne other name with rfl | hne
    · exact hwritten
    · exact hput.claimed ((AList.lookup_insert_ne hne).symm.trans hclaim)

theorem Evolves.stage (h : Sound p) (hfresh : p.written.lookup name = none)
    (rows : Multiset Row) (owner pid : Nat) : Evolves pid p (p.stage name rows owner) := by
  have hput : Evolves pid p (p.put name rows) := Evolves.put hfresh rows pid
  have hunclaimed := h.unclaimed hfresh
  refine ⟨hput.versions, hput.written, hput.consumed, ?_, ?_, ?_, hput.held⟩
  · intro other hother
    have hne : other ≠ name := by
      rintro rfl
      exact notMem_of_lookup_none hfresh hother.written
    have hold := hput.reclaimable hother
    refine ⟨hold.written, hold.dead, ?_⟩
    intro generation hgeneration
    rcases hold.past generation hgeneration with hle | hnone
    · exact .inl hle
    · exact .inr ((AList.lookup_insert_ne hne).trans hnone)
  · intro other hother
    exact .inl (mem_put_objects hother)
  · intro other hother
    have hne : other ≠ name := by
      rintro rfl
      rw [hunclaimed] at hother
      cases hother
    exact (AList.lookup_insert_ne hne).trans hother

/-- Only the deleted file goes. -/
theorem mem_delete_objects {removed : Bool} (hne : other ≠ name) (h : other ∈ p.objects) :
    other ∈ (p.delete name removed).objects := by
  obtain ⟨rows, hrows⟩ := mem_iff_lookup.mp h
  exact mem_iff_lookup.mpr ⟨rows, by rw [lookup_delete, if_neg fun heq => hne heq.2, hrows]⟩

theorem Reclaimable.delete (h : p.Reclaimable name) (other : Text) (removed : Bool) :
    (p.delete other removed).Reclaimable name := by
  cases removed with
  | false => exact h
  | true => exact ⟨h.written, h.dead, h.past⟩

theorem Sound.delete (h : Sound p) (hdead : p.Reclaimable name) (removed : Bool) :
    Sound (p.delete name removed) := by
  have hlive : ∀ {other}, other ∈ p.written → isLive p.manifest other = true →
      other ∈ (p.delete name removed).objects := by
    intro other hwritten hlive
    apply mem_delete_objects _ (h.mem_objects_of_live hwritten hlive)
    rintro rfl
    exact Sound.not_reclaimable_of_live hlive hdead
  have hmanifest : (p.delete name removed).manifest = p.manifest := by
    rw [manifest, delete_versions, manifest]
  have hwritten : (p.delete name removed).written = p.written := delete_written p name removed
  refine ⟨?_, ?_, ?_, ?_, ?_, ?_, ?_⟩
  · intro other rows hother
    rw [lookup_delete] at hother
    rw [hwritten]
    split at hother
    · cases hother
    · exact h.stored hother
  · intro other hother
    rw [hwritten] at hother
    exact h.names hother
  · intro i m hm
    rw [delete_versions] at hm
    rw [etag, delete_versions]
    exact h.numbered hm
  · intro m hm other hother
    rw [delete_versions] at hm
    rw [hwritten]
    exact h.files m hm other hother
  · intro m hm
    rw [hmanifest] at hm
    have hcurrent := h.current hm
    obtain ⟨output, hfiles, hgeneration, -, hclaim⟩ := hcurrent.output
    have hmem := h.files m (Sound.manifest_mem hm)
    apply hcurrent.mono (by rw [hwritten]; exact id) hmem
    · intro other hother
      apply hlive (hmem other hother)
      rw [hfiles, List.mem_singleton] at hother
      rw [isLive, hother, hgeneration, hm, filesOf_some, hfiles]
      simp
    · intro other hother
      rw [hfiles, List.mem_singleton] at hother
      rw [delete_claims, hother]
      exact hclaim
  · intro other hother hconsumed
    rw [mem_flushed, hwritten] at hother
    rw [hmanifest] at hconsumed
    apply hlive hother.1
    rw [isLive, hother.2]
    simp [(h.names hother.1).parquet, hconsumed]
  · intro other pid hclaim
    rw [delete_claims] at hclaim
    rw [hwritten]
    exact h.claimed hclaim

theorem Evolves.delete (hdead : p.Reclaimable name) (removed : Bool) (pid : Nat) :
    Evolves pid p (p.delete name removed) := by
  have hmanifest : (p.delete name removed).manifest = p.manifest := by
    rw [manifest, delete_versions, manifest]
  refine ⟨?_, ?_, ?_, fun hname => hname.delete name removed, ?_, ?_, ?_⟩
  · exact (delete_versions p name removed).symm ▸ List.suffix_refl _
  · intro other rows hother
    rwa [delete_written]
  · intro other hother
    rwa [hmanifest]
  · intro other hother
    rcases eq_or_ne other name with rfl | hne
    · exact .inr (hdead.delete other removed)
    · exact .inl (mem_delete_objects hne hother)
  · intro other hother
    rwa [delete_claims]
  · intro hheld
    rw [delete_compactor, delete_versions]
    exact ⟨hheld, rfl⟩

/-- Giving up a claim frees no claim of another. -/
theorem lookup_unclaim (h : p.claims.lookup other = none ∨ other ≠ output) :
    (p.unclaim output).claims.lookup other = p.claims.lookup other := by
  rcases eq_or_ne other output with rfl | hne
  · have hnone : p.claims.lookup other = none := h.resolve_right fun hne => hne rfl
    rw [hnone]
    exact AList.lookup_erase other p.claims
  · exact AList.lookup_erase_ne hne

theorem Sound.unclaim (h : Sound p) (output : Text) : Sound (p.unclaim output) := by
  refine ⟨h.stored, h.names, h.numbered, h.files, ?_, h.unconsumed, ?_⟩
  · intro m hm
    have hcurrent : Represents p m := h.current hm
    obtain ⟨named, hfiles, hgeneration, hstored, hclaim⟩ := hcurrent.output
    refine ⟨⟨named, hfiles, hgeneration, hstored, ?_⟩, hcurrent.nodup, hcurrent.consumed,
      hcurrent.rows⟩
    rw [lookup_unclaim (.inl hclaim), hclaim]
  · intro other pid hother
    rcases eq_or_ne other output with rfl | hne
    · have hnone : (p.unclaim other).claims.lookup other = none :=
        AList.lookup_erase other p.claims
      rw [hnone] at hother
      cases hother
    · rw [lookup_unclaim (.inr hne)] at hother
      exact h.claimed hother

theorem Evolves.unclaim (hne : pid ≠ owner) (hclaim : p.claims.lookup output = some owner) :
    Evolves pid p (p.unclaim output) := by
  refine ⟨List.suffix_refl _, id, id, ?_, .inl, ?_, fun h => ⟨h, rfl⟩⟩
  · intro name hname
    refine ⟨hname.written, hname.dead, ?_⟩
    intro generation hgeneration
    rcases hname.past generation hgeneration with hle | hnone
    · exact .inl hle
    · exact .inr ((lookup_unclaim (.inl hnone)).trans hnone)
  · intro name hname
    have hother : name ≠ output := by
      rintro rfl
      rw [hclaim] at hname
      exact hne (Option.some.inj hname).symm
    rw [lookup_unclaim (.inr hother), hname]

/-- A manifest that may follow the current one: it names a stored output of the next
generation that has the rows of every flush file it consumed. -/
structure Follows (p : Partition Row) (m : Manifest) (output : Text) : Prop where
  files : m.files = [output]
  generation : m.generation = p.etag + 1
  named : compactedGeneration output = some (p.etag + 1)
  stored : output ∈ p.objects
  consumed : ∀ name ∈ consumedOf p.manifest, name ∈ m.consumed
  nodup : m.consumed.Nodup
  flushed : ∀ name ∈ m.consumed, name ∈ p.flushed
  rows : p.rowsOf output = p.rowsIn m.consumed

/-- Publish a manifest and give up the claim on its output. -/
theorem Sound.commit (h : Sound p) (hnext : Follows p m output) :
    Sound ((p.publish m).unclaim output) := by
  refine ⟨h.stored, h.names, ?_, ?_, ?_, ?_, ?_⟩
  · intro i m' hm'
    cases i with
    | zero =>
      have heq : m = m' := Option.some.inj hm'
      rw [← heq]
      exact hnext.generation
    | succ i =>
      have hold : m'.generation + i = p.etag := h.numbered hm'
      have hetag : ((p.publish m).unclaim output).etag = p.etag + 1 := rfl
      omega
  · intro m' hm' name hname
    rcases List.mem_cons.mp hm' with rfl | hold
    · rw [hnext.files, List.mem_singleton] at hname
      rw [hname]
      exact h.mem_written hnext.stored
    · exact h.files m' hold name hname
  · intro m' hm'
    have heq : m = m' := Option.some.inj hm'
    subst heq
    refine ⟨⟨output, hnext.files, ?_, hnext.stored, ?_⟩, hnext.nodup, hnext.flushed, ?_⟩
    · rw [hnext.named, hnext.generation]
    · exact AList.lookup_erase output p.claims
    · have hsingle : p.rowsIn m.files = p.rowsOf output := by
        rw [hnext.files, rowsIn_cons, rowsIn_nil, add_zero]
      exact hsingle.trans hnext.rows
  · intro name hname hconsumed
    exact h.unconsumed name hname fun hold => hconsumed (hnext.consumed name hold)
  · exact (h.unclaim output).claimed

/-- A reclaimable file is not the output of a commit, and stays dead after it. -/
theorem Reclaimable.commit (hnext : Follows p m output)
    (hclaim : p.claims.lookup output = some owner) (h : p.Reclaimable name) :
    ((p.publish m).unclaim output).Reclaimable name := by
  have hne : name ≠ output := by
    rintro rfl
    rcases h.past _ hnext.named with hle | hnone
    · omega
    · rw [hclaim] at hnone
      cases hnone
  refine ⟨h.written, ?_, ?_⟩
  · have hdead := h.dead
    have hmanifest : ((p.publish m).unclaim output).manifest = some m := rfl
    rw [hmanifest]
    rw [isLive] at hdead ⊢
    split at hdead
    · simp [hnext.files, hne]
    · cases hparquet : isCommittedParquet name with
      | false => rfl
      | true =>
        rw [hparquet] at hdead
        simp only [Bool.true_and, Bool.not_eq_false', List.contains_iff_mem] at hdead
        simp [hnext.consumed name hdead]
  · intro generation hgeneration
    rcases h.past generation hgeneration with hle | hnone
    · exact .inl (Nat.le_succ_of_le hle)
    · exact .inr ((lookup_unclaim (p := p.publish m) (.inl hnone)).trans hnone)

theorem Evolves.commit (hnext : Follows p m output)
    (hclaim : p.claims.lookup output = some owner) (hne : pid ≠ owner)
    (hheld : p.compactor ≠ some pid) :
    Evolves pid p ((p.publish m).unclaim output) := by
  refine ⟨List.suffix_cons _ _, id, hnext.consumed _, fun hname => hname.commit hnext hclaim,
    .inl, ?_, fun h => absurd h hheld⟩
  intro name hname
  exact (Evolves.unclaim (p := p.publish m) hne hclaim).claims hname

end Keep

end Partition

end Ourios.Parquet
