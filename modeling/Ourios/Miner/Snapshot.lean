/-
# Snapshot records

The records a tenant's state is flattened into (`snapshot.rs`). Sets travel as
lists in a fixed order and are collected again on the way back; a set that has a
member survives the trip.
-/

import Ourios.Foundation.Sorting
import Ourios.Miner.Bookkeeping

namespace Ourios.Miner

open Ourios.Foundation

/-- One leaf, with the path positions it reaches through a wildcard edge. -/
structure LeafRecord where
  template : List OwnedToken
  templateId : Nat
  templateVersion : Nat
  severityNumber : Nat
  scopeName : Option Text
  slotTypes : List (List ParamType)
  provenance : List Provenance
  upstreamAssociations : List Text
  upstreamAssociationOverflow : Nat
  wildcardRouted : List Nat
  deriving DecidableEq

structure StructuredTemplateRecord where
  severityNumber : Nat
  scopeName : Option Text
  eventName : Option Text
  templateId : Nat
  deriving DecidableEq

structure AdoptedTemplateRecord where
  canonical : Text
  severityNumber : Nat
  scopeName : Option Text
  templateId : Nat
  templateVersion : Nat
  owned : Bool
  provenance : List Provenance
  upstreamAssociations : List Text
  upstreamAssociationOverflow : Nat
  deriving DecidableEq

/-- The flattened state of one tenant. -/
structure SnapshotState where
  leaves : List LeafRecord
  structuredTemplates : List StructuredTemplateRecord
  adoptedTemplates : List AdoptedTemplateRecord
  deriving DecidableEq

/-! ### Sets as lists -/

def provenanceSetToRecord (provenance : ProvenanceSet) : List Provenance :=
  [Provenance.mined, .upstreamDerived, .producerDeclared].filter fun p => p ∈ provenance

/-- Collect a provenance list; an empty one is `default`. -/
def provenanceSetOr (default : Provenance) (records : List Provenance) : ProvenanceSet :=
  if records.isEmpty then {default} else records.toFinset

/-- A leaf written without provenance was mined. -/
def recordToProvenanceSet (records : List Provenance) : ProvenanceSet :=
  provenanceSetOr .mined records

theorem mem_provenanceSetToRecord {provenance : ProvenanceSet} {p : Provenance} :
    p ∈ provenanceSetToRecord provenance ↔ p ∈ provenance := by
  cases p <;> simp [provenanceSetToRecord]

/-- A set with a member survives. -/
theorem provenanceSetOr_toRecord {provenance : ProvenanceSet} (h : provenance.Nonempty)
    (default : Provenance) : provenanceSetOr default (provenanceSetToRecord provenance) =
      provenance := by
  obtain ⟨p, hp⟩ := h
  have hne : (provenanceSetToRecord provenance).isEmpty = false := by
    rw [List.isEmpty_eq_false_iff]
    exact List.ne_nil_of_mem (mem_provenanceSetToRecord.mpr hp)
  rw [provenanceSetOr, hne]
  ext q
  simp [mem_provenanceSetToRecord]

namespace UpstreamAssociations

/-- The stored strings in order. -/
def sorted (associations : UpstreamAssociations) : List Text :=
  associations.strings.sort (· ≤ ·)

/-- Rebuild from the stored strings and the overflow count. -/
def fromParts (stored : List Text) (overflow : Nat) : UpstreamAssociations :=
  ⟨stored.toFinset, overflow⟩

@[simp] theorem fromParts_sorted (associations : UpstreamAssociations) :
    fromParts associations.sorted associations.overflow = associations := by
  unfold fromParts sorted
  rw [Finset.sort_toFinset]

end UpstreamAssociations

/-! ### Flattening -/

def leafRecord (leaf : Leaf) (wildcardRouted : List Nat) : LeafRecord where
  template := leaf.template
  templateId := leaf.templateId
  templateVersion := leaf.templateVersion
  severityNumber := leaf.severityNumber
  scopeName := leaf.scopeName
  slotTypes := leaf.slotTypes.map SlotTypes.iter
  provenance := provenanceSetToRecord leaf.provenance
  upstreamAssociations := leaf.upstreamAssociations.sorted
  upstreamAssociationOverflow := leaf.upstreamAssociations.overflow
  wildcardRouted

def leafRecords (tree : Tree) : List LeafRecord :=
  sortByKey LeafRecord.templateId
    (tree.collectRoutedLeaves.map fun entry => leafRecord entry.1 entry.2)

def structuredRecord (key : StructuredKey) (templateId : Nat) : StructuredTemplateRecord :=
  ⟨key.1, key.2.1, key.2.2, templateId⟩

def adoptedRecord (key : CanonicalKey) : AdoptedEntry → AdoptedTemplateRecord
  | .treeBacked templateId templateVersion =>
    ⟨key.1, key.2.1, key.2.2, templateId, templateVersion, false, [], [], 0⟩
  | .owned owned =>
    ⟨key.1, key.2.1, key.2.2, owned.templateId, 1, true, provenanceSetToRecord owned.provenance,
      owned.associations.sorted, owned.associations.overflow⟩

/-- The order of the adopted records: by id, then by canonical text. -/
def AdoptedTemplateRecord.order (record : AdoptedTemplateRecord) : Nat ×ₗ Text :=
  toLex (record.templateId, record.canonical)

def TenantState.snapshot (state : TenantState) : SnapshotState where
  leaves := leafRecords state.tree
  structuredTemplates := sortByKey StructuredTemplateRecord.templateId
    (state.structuredTemplates.entries.map fun entry => structuredRecord entry.1 entry.2)
  adoptedTemplates := sortByKey AdoptedTemplateRecord.order
    (state.adoptedTemplates.entries.map fun entry => adoptedRecord entry.1 entry.2)

/-- Flatten one tenant of a cluster; an unseen tenant has nothing to flatten. -/
def MinerCluster.snapshotState (cluster : MinerCluster) (tenantId : TenantId) : SnapshotState :=
  match cluster.tenants.lookup tenantId with
  | none => ⟨[], [], []⟩
  | some state => state.snapshot

end Ourios.Miner
