/-
# Miner state

The cluster-wide id range (`cluster/id_alloc.rs`), the index of mined canonical
shapes (`cluster/canonicals.rs`) and the per-tenant state with the transitions
that touch one tenant only (`cluster/mod.rs`). Hash maps are association lists
with distinct keys.
-/

import Ourios.Miner.Plan

namespace Ourios.Miner

open Ourios.Foundation

/-- The sentinel id of a row without a template. -/
def noTemplate : Nat := 0

/-- The last id of the id domain, `i64::MAX`. -/
def maxTemplateId : Nat := 2 ^ 63 - 1

/-- A reserved, nonempty block of ids: those above `after`, up to `through`. -/
structure IdBlock where
  after : Nat
  through : Nat
  nonempty : after < through

/-- The source's checked constructor. -/
def IdBlock.new (after through : Nat) : Option IdBlock :=
  if h : after < through then some ⟨after, through, h⟩ else none

/-- The id allocator. A reserver is any function of the floors it was asked for so
far and the floor asked now; `none` is a failed reservation. The next id is never
the sentinel. -/
structure IdRange where
  next : Nat
  stop : Nat
  asked : List Nat
  reserve : List Nat → Nat → Option IdBlock
  next_pos : 0 < next

namespace IdRange

/-- The default reserver hands out the whole rest of the domain. -/
def unreserved (_asked : List Nat) (floor : Nat) : Option IdBlock := IdBlock.new floor maxTemplateId

/-- The range of a new cluster. -/
def new : IdRange := ⟨1, maxTemplateId + 1, [], unreserved, Nat.one_pos⟩

/-- Make sure an id is available, asking the reserver when the block is used up. -/
def ensure (ids : IdRange) : Bool × IdRange :=
  if ids.next < ids.stop then (true, ids)
  else
    let floor := ids.next - 1
    let answered := { ids with asked := ids.asked ++ [floor] }
    match ids.reserve ids.asked floor with
    | none => (false, answered)
    | some block =>
      if block.after < floor then (false, answered)
      else if maxTemplateId < block.through then (false, answered)
      else
        (true, { answered with
          stop := block.through + 1
          next := block.after + 1
          next_pos := Nat.succ_pos _ })

/-- Take the next id. -/
def take (ids : IdRange) : Option Nat × IdRange :=
  match ids.ensure with
  | (true, ready) =>
    (some ready.next, { ready with next := ready.next + 1, next_pos := Nat.succ_pos _ })
  | (false, failed) => (none, failed)

/-- Seat the allocator past an issued id; `none` past the end of the domain. -/
def allocatePast (ids : IdRange) (issued : Nat) : Option IdRange :=
  if maxTemplateId < issued then none
  else
    some { ids with
      next := max ids.next (issued + 1)
      next_pos := lt_max_of_lt_left ids.next_pos }

variable {ids : IdRange}

theorem ensure_next_le {ready : IdRange} {ok : Bool} (h : ids.ensure = (ok, ready)) :
    ids.next ≤ ready.next := by
  unfold ensure at h
  split at h
  · cases h
    exact le_rfl
  · dsimp only at h
    split at h
    · cases h
      exact le_rfl
    · split at h
      · cases h
        exact le_rfl
      · split at h
        · cases h
          exact le_rfl
        · cases h
          simp only
          omega

/-- A taken id is new, and the allocator has moved past it. -/
theorem take_some {after : IdRange} {id : Nat} (h : ids.take = (some id, after)) :
    ids.next ≤ id ∧ after.next = id + 1 := by
  unfold take at h
  cases hensure : ids.ensure with
  | mk ok ready =>
    cases ok with
    | false => simp [hensure] at h
    | true =>
      simp only [hensure, Prod.mk.injEq, Option.some.injEq] at h
      obtain ⟨rfl, rfl⟩ := h
      exact ⟨ensure_next_le hensure, rfl⟩

theorem take_none {after : IdRange} (h : ids.take = (none, after)) :
    ids.next ≤ after.next := by
  unfold take at h
  cases hensure : ids.ensure with
  | mk ok ready =>
    cases ok with
    | true => simp [hensure] at h
    | false =>
      simp only [hensure, Prod.mk.injEq, true_and] at h
      exact h ▸ ensure_next_le hensure

end IdRange

/-- A canonical template text with the severity and scope of its leaf. -/
abbrev CanonicalKey := Text × Nat × Option Text

/-- Severity, scope and event name of a structured record. -/
abbrev StructuredKey := Nat × Option Text × Option Text

/-- How many mined leaves carry each canonical shape. -/
abbrev MinedCanonicals := AList fun _ : CanonicalKey => Nat

variable (state : TenantState) (index : MinedCanonicals)

namespace MinedCanonicals

/-- Count one more leaf of a shape. -/
def insert (index : MinedCanonicals) (key : CanonicalKey) : MinedCanonicals :=
  AList.insert key ((index.lookup key).getD 0 + 1) index

/-- Whether some leaf has a shape. -/
def contains (key : CanonicalKey) : Bool := (index.lookup key).isSome

/-- One leaf's shape changed; a shape whose last leaf left is dropped. -/
def replace (old new : CanonicalKey) : MinedCanonicals :=
  let removed : MinedCanonicals :=
    match index.lookup old with
    | some count => if count - 1 = 0 then index.erase old else AList.insert old (count - 1) index
    | none => index
  insert removed new

/-- The index counts: a shape nothing has is absent, any other is bound to how many
have it. -/
def Counts (count : CanonicalKey → Nat) : Prop :=
  ∀ key, index.lookup key = if count key = 0 then none else some (count key)

variable {index : MinedCanonicals} {count : CanonicalKey → Nat}

variable (h : index.Counts count)
include h

theorem Counts.congr {count' : CanonicalKey → Nat} (hcount : ∀ key, count' key = count key) :
    index.Counts count' := by
  intro key
  rw [hcount]
  exact h key

theorem counts_insert (key : CanonicalKey) :
    (index.insert key).Counts fun k => count k + if k = key then 1 else 0 := by
  intro k
  rw [insert, lookup_insert_ite]
  by_cases hk : k = key
  · subst hk
    rw [if_pos rfl, h k]
    split <;> simp_all
  · simp [hk, h k]

theorem counts_remove {old : CanonicalKey} (hold : 0 < count old) :
    Counts (if count old - 1 = 0 then index.erase old else AList.insert old (count old - 1) index)
      fun k => count k - if k = old then 1 else 0 := by
  intro k
  by_cases hk : k = old
  · subst hk
    by_cases hlast : count k - 1 = 0
    · simp [hlast]
    · simp [hlast]
  · by_cases hlast : count old - 1 = 0
    · simp [hlast, hk, AList.lookup_erase_ne hk, h k]
    · simp [hlast, hk, AList.lookup_insert_ne hk, h k]

theorem counts_replace {old : CanonicalKey} (hold : 0 < count old) (new : CanonicalKey) :
    (index.replace old new).Counts fun k =>
      (count k - if k = old then 1 else 0) + if k = new then 1 else 0 := by
  have hlookup : index.lookup old = some (count old) := by
    rw [h old, if_neg (by omega)]
  unfold replace
  rw [hlookup]
  exact counts_insert (counts_remove h hold) new

end MinedCanonicals

structure OwnedAdopted where
  templateId : Nat
  provenance : ProvenanceSet
  associations : UpstreamAssociations
  deriving DecidableEq

/-- What an adopted canonical resolves to: a mined leaf at some version, or an
identity of its own. -/
inductive AdoptedEntry
  | treeBacked (templateId templateVersion : Nat)
  | owned (entry : OwnedAdopted)
  deriving DecidableEq

def AdoptedEntry.templateId : AdoptedEntry → Nat
  | .treeBacked templateId _ => templateId
  | .owned entry => entry.templateId

/-- The version an entry binds rows to; an identity of its own never moves. -/
def AdoptedEntry.templateVersion : AdoptedEntry → Nat
  | .treeBacked _ templateVersion => templateVersion
  | .owned _ => 1

/-- Everything the miner holds for one tenant. -/
structure TenantState where
  tree : Tree
  structuredTemplates : AList fun _ : StructuredKey => Nat
  adoptedTemplates : AList fun _ : CanonicalKey => AdoptedEntry
  ownedAdoptedCount : Nat
  minedCanonicals : MinedCanonicals
  templateCount : Nat
  leafCount : Nat
  config : MinerConfig

namespace TenantState

/-- The state of a tenant first seen under `config`. -/
def new (config : MinerConfig) : TenantState :=
  ⟨Tree.empty, ∅, ∅, 0, ∅, 0, 0, config⟩

/-- If adoption already owns this shape, hand its identity to the leaf about to be
mined. -/
def takeConvergedAdoption (key : CanonicalKey) : Option (OwnedAdopted × TenantState) :=
  match state.adoptedTemplates.lookup key with
  | some (.owned owned) =>
    some (owned, { state with
      adoptedTemplates := state.adoptedTemplates.insert key (.treeBacked owned.templateId 1)
      ownedAdoptedCount := state.ownedAdoptedCount - 1 })
  | _ => none

/-- Whether the tenant holds as many templates as it may. -/
def atCeiling (maxTemplates : Nat) : Bool :=
  maxTemplates ≤ state.leafCount + state.ownedAdoptedCount

/-- The leaves at the node a line is routed to. -/
def leavesFor (masked : Masked) : List Leaf :=
  state.tree.leavesAt
    (state.tree.placeOf masked.tokens state.config.prefixDepth state.config.maxNodeChildren)

/-- Rewrite the leaves at the node a line is routed to. -/
def withLeavesFor (masked : Masked) (f : List Leaf → List Leaf) : TenantState :=
  { state with
    tree := state.tree.descendMut masked.tokens state.config.prefixDepth
      state.config.maxNodeChildren f }

def pushLeaf (masked : Masked) (leaf : Leaf) (observed : Option Text)
    (key : CanonicalKey) (fresh : Bool) : TenantState :=
  let pushed := state.withLeavesFor masked fun leaves =>
    leaves ++ [leaf.associateUpstream observed state.config.upstreamAssociationLimit]
  { pushed with
    templateCount := if fresh then state.templateCount + 1 else state.templateCount
    leafCount := state.leafCount + 1
    minedCanonicals := state.minedCanonicals.insert key }

end TenantState

/-- One candidate of the best-match search. -/
structure Candidate where
  leafIdx : Nat
  similarity : ℚ
  templateId : Nat

/-- The order of the search: more similar first, then the lower id. -/
def Candidate.worse (a b : Candidate) : Bool :=
  a.similarity < b.similarity || (a.similarity == b.similarity && b.templateId < a.templateId)

/-- The better of the best so far and one more candidate, the later one on a full
tie. -/
def pickBetter (best : Option Candidate) (candidate : Candidate) : Option Candidate :=
  match best with
  | none => some candidate
  | some held => if candidate.worse held then some held else some candidate

def pickBest (candidates : List Candidate) : Option Candidate :=
  candidates.foldl pickBetter none

/-- The candidates among the leaves of a node, with their positions. -/
def candidatesIn (leaves : List Leaf) (record : OtlpLogRecord) (masked : Masked) :
    List Candidate :=
  (leaves.zipIdx.filter fun entry =>
      entry.1.severityNumber == record.severityNumber && entry.1.scopeName == record.scopeName).map
    fun entry =>
      ⟨entry.2, simSeqOwned masked.tokens entry.1.template masked.wildcardPositions,
        entry.1.templateId⟩

/-- The most similar leaf of a line's node with the record's severity and scope. -/
def TenantState.findBestCandidate (record : OtlpLogRecord) (masked : Masked) : Option Candidate :=
  (state.tree.descend masked.tokens state.config.prefixDepth state.config.maxNodeChildren).bind
    fun node => pickBest (candidatesIn node.bucket record masked)

end Ourios.Miner
