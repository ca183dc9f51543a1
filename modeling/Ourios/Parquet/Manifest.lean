/-
# Manifests and live files

A partition's manifest names the compacted files that hold live rows and the flush files
whose rows they took over. A compacted file is live when the manifest names it, a flush
file unless the manifest consumed it (`LiveSet`, `manifest.rs`). A commit replaces the
manifest by one that names its output alone and adds its flush inputs to the consumed
ones (`next_manifest`, `compaction/mod.rs`).
-/

import Ourios.Parquet.Names

namespace Ourios.Parquet

/-- What compaction committed in a partition. -/
structure Manifest where
  generation : Nat
  files : List Text
  consumed : List Text
  deriving DecidableEq, Repr

/-- Why a manifest is refused. -/
inductive ManifestError
  | invalidFilename (name : Text)
  | duplicateFilename (name : Text)
  deriving DecidableEq, Repr

/-- Check the entries of a manifest in order, each with whether it must be a compacted
file, against the names before it. -/
def validateEntries : List Text → List (Text × Bool) → Except ManifestError Unit
  | _, [] => .ok ()
  | earlier, (name, compacted) :: entries =>
    if !(isPartitionLocalParquet name && (compactedGeneration name).isSome == compacted) then
      .error (.invalidFilename name)
    else if earlier.contains name then .error (.duplicateFilename name)
    else validateEntries (name :: earlier) entries

/-- Every file is a compacted one, every consumed name a flush file, and none is
repeated. -/
def Manifest.validate (manifest : Manifest) : Except ManifestError Unit :=
  validateEntries [] (manifest.files.map (·, true) ++ manifest.consumed.map (·, false))

/-! ## The live set -/

variable (manifest : Option Manifest)

/-- The generation of a manifest, zero without one. -/
def generationOf : Nat := manifest.elim 0 Manifest.generation

def filesOf : List Text := manifest.elim [] Manifest.files

def consumedOf : List Text := manifest.elim [] Manifest.consumed

@[simp] theorem generationOf_some (manifest : Manifest) :
    generationOf (some manifest) = manifest.generation := rfl

@[simp] theorem filesOf_some (manifest : Manifest) : filesOf (some manifest) = manifest.files := rfl

@[simp] theorem consumedOf_some (manifest : Manifest) :
    consumedOf (some manifest) = manifest.consumed := rfl

/-- Whether a listed object holds live rows. -/
def isLive (name : Text) : Bool :=
  match compactedGeneration name with
  | some _ => (filesOf manifest).contains name
  | none => isCommittedParquet name && !(consumedOf manifest).contains name

/-- Whether a listed object is dead and can be deleted: an interrupted publish, a consumed
flush file, or a compacted file the manifest does not name whose generation it has
reached. -/
def isOrphan (name : Text) : Bool :=
  if ".parquet.tmp".toList.isSuffixOf name then true
  else
    match compactedGeneration name with
    | some generation =>
      decide (generation ≤ generationOf manifest) && !(filesOf manifest).contains name
    | none => (consumedOf manifest).contains name

def liveFlush (listed : List Text) : List Text :=
  listed.filter fun name =>
    isCommittedParquet name && (compactedGeneration name).isNone && isLive manifest name

/-- The live files of a partition as the compactor resolves them: the ones the manifest
names, and the listed flush files it does not consume. -/
def liveKeysOf (listed : List Text) : List Text :=
  filesOf manifest ++ liveFlush manifest listed

/-- The live files of a partition as the querier resolves them, from its listed data
files. -/
def liveInPartition (listed : List Text) : List Text :=
  filesOf manifest ++ listed.filter fun name =>
    (compactedGeneration name).isNone && isLive manifest name

/-- Compactor and querier resolve a listing to the same files. -/
theorem liveInPartition_eq (listed : List Text) :
    liveInPartition manifest (listed.filter isCommittedParquet) = liveKeysOf manifest listed := by
  rw [liveInPartition, liveKeysOf, liveFlush, List.filter_filter]
  congr 1
  apply List.filter_congr
  intro name _
  cases isCommittedParquet name <;> simp

theorem mem_liveFlush {manifest : Option Manifest} {listed : List Text} {name : Text} :
    name ∈ liveFlush manifest listed ↔ name ∈ listed ∧ isCommittedParquet name = true ∧
      compactedGeneration name = none ∧ name ∉ consumedOf manifest := by
  rw [liveFlush, List.mem_filter]
  constructor
  · rintro ⟨hmem, htest⟩
    simp only [Bool.and_eq_true, Option.isNone_iff_eq_none] at htest
    obtain ⟨⟨hparquet, hflush⟩, hlive⟩ := htest
    rw [isLive, hflush] at hlive
    simp only [Bool.and_eq_true, Bool.not_eq_true', List.contains_eq_mem, decide_eq_false_iff_not]
      at hlive
    exact ⟨hmem, hparquet, hflush, hlive.2⟩
  · rintro ⟨hmem, hparquet, hflush, hconsumed⟩
    refine ⟨hmem, ?_⟩
    simp [isLive, hflush, hparquet, hconsumed]

/-- The manifest a won commit publishes: its output is the only live compacted file, and
the flush files among its inputs join the ones already consumed. -/
def nextManifest (existing : Option Manifest) (generation : Nat) (output : Text)
    (inputs : List Text) : Manifest where
  generation := generation
  files := [output]
  consumed := consumedOf existing ++
    inputs.filter fun name => (compactedGeneration name).isNone

end Ourios.Parquet
