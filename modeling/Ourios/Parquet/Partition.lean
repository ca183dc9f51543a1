/-
# One partition in a store

The objects of one partition and the processes that work on it, each store request one
step: flush writers, compactors (`compaction/mod.rs`), collectors of orphans
(`compaction/commit.rs`), readers (`ourios-querier/src/file_set.rs`) and snapshots
(`compaction/plan.rs`). Any process may stop between two of its requests.

The store is either an object store, whose listings are ascending by key and whose
manifest is replaced by conditional puts, or a local directory, listed in any order, whose
manifest is overwritten by the one compactor there is. A conditional put may take effect
and still be answered with an error or a failed precondition; what a store promises beyond
that is a condition on a run.

The rows of a file are a multiset: a rewrite orders them, and nothing here depends on
their order.
-/

import Ourios.Foundation.AssocMap
import Ourios.Foundation.Interleaving
import Ourios.Foundation.Sorting
import Ourios.Parquet.Manifest

namespace Ourios.Parquet

open Ourios.Foundation

universe u

variable {Row : Type u}

/-! ## The store -/

/-- How an object store spells the tag it returns with an object. -/
inductive EtagForm
  | missing
  | bare
  | quoted
  deriving DecidableEq, Repr

/-- Where the partition is stored. -/
inductive Backend
  | objectStore (etag : EtagForm)
  | localFiles
  deriving DecidableEq, Repr

/-- The objects of a partition. A tag tells the versions of the manifest apart, and a
read returns the newest one.

The rest is what a run has done so far. `written` has every data file ever stored: names
are unique, so a file's rows never change. `claims` says which process may still commit
an output. `compactor` is the process that compacts a local directory. -/
structure Partition (Row : Type u) where
  objects : AList fun _ : Text => Multiset Row
  versions : List Manifest
  compactor : Option Nat
  written : AList fun _ : Text => Multiset Row
  claims : AList fun _ : Text => Nat

def Partition.empty : Partition Row := ⟨∅, [], none, ∅, ∅⟩

namespace Partition

variable (partition : Partition Row)

/-- The manifest a read returns. -/
def manifest : Option Manifest := partition.versions.head?

/-- The tag of the manifest, zero without one. -/
def etag : Nat := partition.versions.length

/-- The rows of a file that was stored at some time. -/
def rowsOf (name : Text) : Multiset Row := (partition.written.lookup name).getD 0

def rowsIn (names : List Text) : Multiset Row := (names.map partition.rowsOf).sum

/-- The flush files stored so far. -/
def flushed : List Text :=
  partition.written.keys.filter fun name => (compactedGeneration name).isNone

/-- The keys a listing of the partition can show. -/
def keys : List Text :=
  partition.objects.keys ++ if partition.versions.isEmpty then [] else [manifestFilename]

def put (name : Text) (rows : Multiset Row) : Partition Row :=
  { partition with
    objects := partition.objects.insert name rows
    written := partition.written.insert name rows }

/-- Store an output that a process may commit. -/
def stage (name : Text) (rows : Multiset Row) (pid : Nat) : Partition Row :=
  { partition.put name rows with claims := partition.claims.insert name pid }

/-- Delete a data file, if the request takes effect. -/
def delete (name : Text) (removed : Bool) : Partition Row :=
  if removed then { partition with objects := partition.objects.erase name } else partition

def publish (manifest : Manifest) : Partition Row :=
  { partition with versions := manifest :: partition.versions }

/-- A process no longer commits an output. -/
def unclaim (output : Text) : Partition Row :=
  { partition with claims := partition.claims.erase output }

/-- A process no longer compacts the local directory. -/
def release (pid : Nat) : Partition Row :=
  { partition with
    compactor := if partition.compactor = some pid then none else partition.compactor }

end Partition

/-! ## Listings -/

/-- A part of the key space that a listing looks at in one request. -/
inductive Cut
  | upTo (key : Text)
  | among (names : List Text)
  | all
  deriving DecidableEq

/-- Whether a request looks at a key. -/
def Cut.covers : Cut → Text → Bool
  | .upTo last, key => decide (key ≤ last)
  | .among names, key => names.contains key
  | .all, _ => true

/-- An object store lists in ascending order of the keys. -/
def Cut.allowed : Backend → Cut → Bool
  | .objectStore _, .among _ => false
  | _, _ => true

/-- A listing in progress: what it has looked at, and what it found. -/
structure Scan where
  passed : List Cut
  seen : List Text

namespace Scan

/-- A listing about to begin. -/
def start : Scan := ⟨[], []⟩

/-- Whether the listing has looked at a key. -/
def isPassed (scan : Scan) (key : Text) : Bool := scan.passed.any fun cut => cut.covers key

/-- One request: look at a part of the key space, and report what is stored there now and
was not looked at before. -/
def page (scan : Scan) (partition : Partition Row) (cut : Cut) : Scan where
  passed := cut :: scan.passed
  seen := scan.seen ++ partition.keys.filter fun key => cut.covers key && !scan.isPassed key

end Scan

/-! ## Requests -/

/-- How a put of the manifest is answered. -/
inductive Answer
  | ok
  | precondition
  | error
  deriving DecidableEq, Repr

/-- One store request of a process, with what the store makes of it. -/
inductive Action
  | read
  | page (cut : Cut)
  | get
  | put (uuid : Uuid)
  | commit (applied : Bool) (answer : Answer)
  | delete (removed : Bool)
  | stop
  deriving DecidableEq

/-! ## Rewriting a partition -/

/-- The manifest a rewrite starts from, with its tag. -/
structure Base where
  existing : Option Manifest
  etag : Nat

/-- What a rewrite reports. -/
structure CompactionOutcome where
  filesBefore : Nat
  committed : Option Nat
  commitLost : Bool
  deriving DecidableEq, Repr

/-- How a commit replaces the manifest. -/
inductive Swap
  | create
  | update (etag : Nat)
  | overwrite
  deriving DecidableEq, Repr

/-- The put `commit_manifest` makes. A store that returns no tag gets a create. -/
def Base.swap (base : Base) (backend : Backend) : Swap :=
  match base.existing, backend with
  | none, _ => .create
  | some _, .localFiles => .overwrite
  | some _, .objectStore .missing => .create
  | some _, .objectStore _ => .update base.etag

/-- Whether a put's precondition holds. -/
def Swap.enabled (partition : Partition Row) : Swap → Bool
  | .create => partition.versions.isEmpty
  | .update etag => partition.etag == etag
  | .overwrite => true

variable (backend : Backend)

/-- Whether a failed precondition is tried once more with the tag's other spelling. -/
def Swap.respells : Swap → Bool
  | .update _ => backend == .objectStore .quoted
  | _ => false

/-- A put can take effect only where its precondition holds, it took effect where it is
answered with success, and an overwrite has no precondition. -/
def Swap.possible (partition : Partition Row) (applied : Bool) (answer : Answer) (swap : Swap) :
    Bool :=
  (!applied || swap.enabled partition) && (answer != .ok || applied) &&
    (swap != .overwrite || answer != .precondition)

/-- Where a rewrite stands. -/
inductive Rewrite (Row : Type u)
  | started
  | listing (base : Base) (scan : Scan)
  | reading (base : Base) (inputs rest : List Text) (rows : Multiset Row)
  | committing (base : Base) (inputs : List Text) (output : Text) (respelled : Bool)
  | discarding (inputs : List Text) (output : Text)
  | cleaning (inputs rest : List Text) (generation : Nat)
  | finished (outcome : CompactionOutcome)
  | failed

/-- The rows of an input that a rewrite keeps. -/
def retained (drop : Option (Row → Bool)) (rows : Multiset Row) : Multiset Row :=
  match drop with
  | none => rows
  | some drop => rows.filter fun row => drop row = false

/-- Consolidation needs two files, an erasure one. -/
def minimumInputs (drop : Option (Row → Bool)) : Nat := if drop.isSome then 1 else 2

/-- The generation a rewrite writes for. -/
def Base.generation (base : Base) : Nat := min (generationOf base.existing + 1) u64Max

/-- The inputs of a rewrite: the live files, in the order of their names. -/
def Base.inputs (base : Base) (seen : List Text) : List Text :=
  sortByKey id (liveKeysOf base.existing seen)

/-- The manifest a rewrite commits. -/
def Base.next (base : Base) (output : Text) (inputs : List Text) : Manifest :=
  nextManifest base.existing base.generation output inputs

namespace Rewrite

/-- After the put of the manifest. -/
def answered (pid : Nat) (partition : Partition Row) (base : Base)
    (inputs : List Text) (output : Text) (respelled : Bool) :
    Answer → Partition Row × Rewrite Row
  | .ok => (partition.unclaim output, .cleaning inputs inputs base.generation)
  | .precondition =>
    if (base.swap backend).respells backend && !respelled then
      (partition, .committing base inputs output true)
    else (partition.unclaim output, .discarding inputs output)
  | .error => ((partition.unclaim output).release pid, .failed)

/-- One request of a rewrite. -/
def act (drop : Option (Row → Bool)) (partition : Partition Row) (pid : Nat) :
    Rewrite Row → Action → Option (Partition Row × Rewrite Row)
  | .started, .read => some (partition, .listing ⟨partition.manifest, partition.etag⟩ .start)
  | .listing base scan, .page cut =>
    if cut.allowed backend then
      let scan := scan.page partition cut
      let inputs := base.inputs scan.seen
      if cut ≠ .all then some (partition, .listing base scan)
      else if inputs.length < minimumInputs drop then
        some (partition.release pid, .finished ⟨inputs.length, none, false⟩)
      else some (partition, .reading base inputs inputs 0)
    else none
  | .reading base inputs (name :: rest) rows, .get =>
    match partition.objects.lookup name with
    | some content => some (partition, .reading base inputs rest (rows + retained drop content))
    | none => some (partition.release pid, .failed)
  | .reading base inputs [] rows, .put uuid =>
    let output := compactedName uuid base.generation
    if (partition.written.lookup output).isNone then
      some (partition.stage output rows pid, .committing base inputs output false)
    else none
  | .committing base inputs output respelled, .commit applied answer =>
    match (base.next output inputs).validate with
    | .error _ => some ((partition.unclaim output).release pid, .failed)
    | .ok _ =>
      if (base.swap backend).possible partition applied answer then
        let partition :=
          if applied then partition.publish (base.next output inputs) else partition
        some (answered backend pid partition base inputs output respelled answer)
      else none
  | .discarding inputs output, .delete removed =>
    some ((partition.delete output removed).release pid,
      .finished ⟨inputs.length, none, true⟩)
  | .cleaning inputs [name] generation, .delete removed =>
    some ((partition.delete name removed).release pid,
      .finished ⟨inputs.length, some generation, false⟩)
  | .cleaning inputs (name :: rest) generation, .delete removed =>
    some (partition.delete name removed, .cleaning inputs rest generation)
  | .finished _, .stop => none
  | .committing _ _ output _, .stop => some ((partition.unclaim output).release pid, .failed)
  | _, .stop => some (partition.release pid, .failed)
  | _, _ => none

end Rewrite

/-! ## Collecting orphans -/

/-- Where a collection stands. -/
inductive Gc
  | started
  | listing (manifest : Option Manifest) (scan : Scan)
  | deleting (orphans : List Text)
  | failed
  deriving Inhabited

/-- One request of a collection: the manifest is read before the listing. -/
def Gc.act (partition : Partition Row) : Gc → Action → Option (Partition Row × Gc)
  | .started, .read => some (partition, .listing partition.manifest .start)
  | .listing manifest scan, .page cut =>
    if cut.allowed backend then
      let scan := scan.page partition cut
      if cut ≠ .all then some (partition, .listing manifest scan)
      else some (partition, .deleting (scan.seen.filter (isOrphan manifest)))
    else none
  | .deleting (name :: orphans), .delete removed =>
    some (partition.delete name removed, .deleting orphans)
  | _, .stop => some (partition, .failed)
  | _, _ => none

/-! ## Reading a partition -/

/-- Where a reader stands. `due` has the flush files stored before its listing began. -/
inductive Reader (Row : Type u)
  | listing (due : List Text) (scan : Scan)
  | resolving (due seen : List Text)
  | opening (due live rest : List Text) (rows : Multiset Row)
  | failed

/-- The manifest a reader goes by: on an object store only a listed one is read. -/
def resolvedManifest (partition : Partition Row) (seen : List Text) : Option Manifest :=
  match backend with
  | .localFiles => partition.manifest
  | .objectStore _ => if seen.contains manifestFilename then partition.manifest else none

/-- One request of a reader: list, read the manifest, open every live file. -/
def Reader.act (partition : Partition Row) :
    Reader Row → Action → Option (Partition Row × Reader Row)
  | .listing due scan, .page cut =>
    if cut.allowed backend then
      let scan := scan.page partition cut
      if cut ≠ .all then some (partition, .listing due scan)
      else some (partition, .resolving due scan.seen)
    else none
  | .resolving due seen, .read =>
    let live := liveInPartition (resolvedManifest backend partition seen)
      (seen.filter isCommittedParquet)
    some (partition, .opening due live live 0)
  | .opening due live (name :: rest) rows, .get =>
    match partition.objects.lookup name with
    | some content => some (partition, .opening due live rest (rows + content))
    | none => some (partition, .failed)
  | _, .stop => some (partition, .failed)
  | _, _ => none

/-! ## Snapshots -/

/-- Where a snapshot stands; at the end it has the manifest and the live flush files. -/
inductive Snapshot
  | listing (due : List Text) (scan : Scan)
  | resolving (due seen : List Text)
  | taken (due : List Text) (manifest : Option Manifest) (live : List Text)
  | failed
  deriving Inhabited

/-- One request of a snapshot: list, then read the manifest. -/
def Snapshot.act (partition : Partition Row) :
    Snapshot → Action → Option (Partition Row × Snapshot)
  | .listing due scan, .page cut =>
    if cut.allowed backend then
      let scan := scan.page partition cut
      if cut ≠ .all then some (partition, .listing due scan)
      else some (partition, .resolving due scan.seen)
    else none
  | .resolving due seen, .read =>
    some (partition, .taken due partition.manifest (liveFlush partition.manifest seen))
  | _, .stop => some (partition, .failed)
  | _, _ => none

/-! ## The system -/

inductive Process (Row : Type u)
  | rewrite (drop : Option (Row → Bool)) (phase : Rewrite Row)
  | gc (phase : Gc)
  | reader (phase : Reader Row)
  | snapshot (phase : Snapshot)

/-- What comes from outside: a flush file, or a process. -/
inductive Event (Row : Type u)
  | flush (uuid : Uuid) (rows : Multiset Row)
  | rewrite (drop : Option (Row → Bool))
  | collect
  | query
  | inspect

def Process.act (backend : Backend) (partition : Partition Row) (pid : Nat) :
    Process Row → Action → Option (Partition Row × Process Row)
  | .rewrite drop phase, action =>
    (phase.act backend drop partition pid action).map fun next => (next.1, .rewrite drop next.2)
  | .gc phase, action =>
    (phase.act backend partition action).map fun next => (next.1, .gc next.2)
  | .reader phase, action =>
    (phase.act backend partition action).map fun next => (next.1, .reader next.2)
  | .snapshot phase, action =>
    (phase.act backend partition action).map fun next => (next.1, .snapshot next.2)

/-- What an event does. A flush file has a name of its own, and a local directory has one
compactor at a time. -/
def Event.occur (partition : Partition Row) (pid : Nat) :
    Event Row → Option (Partition Row × Option (Process Row))
  | .flush uuid rows =>
    if (partition.written.lookup (flushName uuid)).isNone then
      some (partition.put (flushName uuid) rows, none)
    else none
  | .rewrite drop =>
    match backend with
    | .objectStore _ => some (partition, some (.rewrite drop .started))
    | .localFiles =>
      if partition.compactor.isNone then
        some ({ partition with compactor := some pid }, some (.rewrite drop .started))
      else none
  | .collect => some (partition, some (.gc .started))
  | .query => some (partition, some (.reader (.listing partition.flushed .start)))
  | .inspect => some (partition, some (.snapshot (.listing partition.flushed .start)))

def partitionSystem (Row : Type u) (backend : Backend) :
    Interleaving (Partition Row) (Process Row) Action (Event Row) where
  act := fun partition pid process action => process.act backend partition pid action
  event := fun partition pid event => event.occur backend partition pid

end Ourios.Parquet
