/-
# Restoring a tenant

`restore_tenant` and everything under it (`cluster/persist.rs`,
`cluster/persist/leaf.rs`). A snapshot is checked record by record while the
tenant is rebuilt; the first record that could not have come from a live tree
ends the restore, and the cluster is then as it was.

A leaf's place in the tree is not recorded. It is found again by walking a path
made of the template's own tokens, of the tag of the one mask type a wildcard
slot has seen, and of the wildcard edge at the positions recorded as routed.
-/

import Ourios.Miner.Snapshot

namespace Ourios.Miner

open Ourios.Foundation

/-- What is wrong with a snapshot, with the data the source prints. -/
inductive Inconsistency
  | duplicateId (templateId : Nat)
  | emptyTemplate (templateId : Nat)
  | slotCount (templateId recorded wildcardCount : Nat)
  | unknownType (templateId slot : Nat) (recorded : ParamType)
  | emptySlot (templateId slot : Nat)
  | routes (templateId : Nat) (routed : List Nat) (walkDepth : Nat)
  | unroutedLiteral (templateId position : Nat)
  | pathTag (templateId slot position : Nat) (types : List ParamType)
  | duplicateStructured (severityNumber : Nat) (scopeName eventName : Option Text)
  | danglingAdoption (canonical : Text) (templateId : Nat)
  | foreignAdoption (canonical : Text) (templateId : Nat)
  | versionBeyondLeaf (canonical : Text) (templateId templateVersion leafVersion : Nat)
  | canonicalDisagrees (canonical : Text) (templateId templateVersion : Nat)
  | duplicateAdoption (canonical : Text) (severityNumber : Nat) (scopeName : Option Text)
  | idDomain (templateId : Nat)
  deriving DecidableEq

/-- Why a restore was refused. -/
inductive RestoreError
  | tenantAlreadyLive
  | inconsistent (detail : Inconsistency)
  deriving DecidableEq

def refuse {α : Type} (detail : Inconsistency) : Except RestoreError α :=
  .error (.inconsistent detail)

/-! ### One leaf -/

/-- A type no slot has a bit for. -/
def isUnknownType : ParamType → Bool
  | .unknown _ => true
  | _ => false

def restoreSlotsFrom (templateId slot : Nat) :
    List (List ParamType) → Except RestoreError (List SlotTypes)
  | [] => .ok []
  | recorded :: later =>
    match recorded.find? isUnknownType, recorded with
    | some unknown, _ => refuse (.unknownType templateId slot unknown)
    | none, [] => refuse (.emptySlot templateId slot)
    | none, first :: types => do
      let rest ← restoreSlotsFrom templateId (slot + 1) later
      .ok (types.foldl SlotTypes.insert (SlotTypes.singleton first) :: rest)

/-- Rebuild a leaf's slot sets. -/
def restoreSlotTypes (record : LeafRecord) (wildcardCount : Nat) :
    Except RestoreError (List SlotTypes) :=
  if record.slotTypes.length ≠ wildcardCount then
    refuse (.slotCount record.templateId record.slotTypes.length wildcardCount)
  else restoreSlotsFrom record.templateId 0 record.slotTypes

/-- The path component of a wildcard on the walk: the tag of the one mask type its
slot has seen. -/
def pathTag (record : LeafRecord) (slot position : Nat) : Except RestoreError Text :=
  let types := (record.slotTypes[slot]?).getD []
  match types with
  | [single] =>
    match tagStrFor single with
    | some tag => .ok tag
    | none => refuse (.pathTag record.templateId slot position types)
  | _ => refuse (.pathTag record.templateId slot position types)

/-- The recorded routes must be ascending positions on the walk, and a literal
wildcard on the walk must be among them. -/
def checkRoutes (record : LeafRecord) (template : List OwnedToken) (walkDepth : Nat) :
    Except RestoreError Unit :=
  let routed := record.wildcardRouted
  if ¬ routed.IsChain (· < ·) ∨ routed.getLast?.any (walkDepth ≤ ·) = true then
    refuse (.routes record.templateId routed walkDepth)
  else
    match (template.take walkDepth).zipIdx.find? fun entry =>
        entry.1 == .fixed wildcardText && !routed.contains entry.2 with
    | some entry => refuse (.unroutedLiteral record.templateId entry.2)
    | none => .ok ()

def pathComponent (record : LeafRecord) (walkDepth position slot : Nat) (token : OwnedToken) :
    Except RestoreError Text :=
  if record.wildcardRouted.contains position then .ok wildcardText
  else
    match token with
    | .fixed text => .ok text
    | .wildcard => if position < walkDepth then pathTag record slot position else .ok wildcardText

def descentPathFrom (record : LeafRecord) (walkDepth : Nat) :
    Nat → Nat → List OwnedToken → Except RestoreError (List Text)
  | _, _, [] => .ok []
  | position, slot, token :: template => do
    let component ← pathComponent record walkDepth position slot token
    let later ← descentPathFrom record walkDepth (position + 1)
      (slot + if token = .wildcard then 1 else 0) template
    .ok (component :: later)

/-- The descent path that puts a leaf back where live ingest left it. -/
def descentPath (record : LeafRecord) (template : List OwnedToken) (walkDepth : Nat) :
    Except RestoreError (List Text) := do
  checkRoutes record template walkDepth
  descentPathFrom record walkDepth 0 0 template

def LeafRecord.toLeaf (record : LeafRecord) (slotTypes : List SlotTypes) : Leaf where
  template := record.template
  templateId := record.templateId
  templateVersion := record.templateVersion
  severityNumber := record.severityNumber
  scopeName := record.scopeName
  slotTypes
  provenance := recordToProvenanceSet record.provenance
  upstreamAssociations :=
    .fromParts record.upstreamAssociations record.upstreamAssociationOverflow

/-- Rebuild one leaf and index its shape. -/
def restoreLeafInto (tenant : TenantState) (record : LeafRecord)
    (prefixDepth maxNodeChildren : Nat) : Except RestoreError TenantState :=
  if record.template.isEmpty then refuse (.emptyTemplate record.templateId)
  else do
    let slotTypes ← restoreSlotTypes record (wildcardCount record.template)
    let masked ← descentPath record record.template (min prefixDepth record.template.length)
    .ok { tenant with
      minedCanonicals := tenant.minedCanonicals.insert
        (formatTemplate record.template, record.severityNumber, record.scopeName)
      tree := tenant.tree.descendMut masked prefixDepth maxNodeChildren fun leaves =>
        leaves ++ [record.toLeaf slotTypes] }

/-! ### The whole tenant -/

/-- A tenant being rebuilt, with the ids seen so far. -/
structure Rebuild where
  seenIds : List Nat
  tenant : TenantState

/-- Take an id for a record, once. -/
def Rebuild.see (rebuild : Rebuild) (templateId : Nat) : Except RestoreError Rebuild :=
  if templateId ∈ rebuild.seenIds then refuse (.duplicateId templateId)
  else .ok { rebuild with seenIds := templateId :: rebuild.seenIds }

def restoreLeaf (prefixDepth maxNodeChildren : Nat) (rebuild : Rebuild) (record : LeafRecord) :
    Except RestoreError Rebuild := do
  let rebuild ← rebuild.see record.templateId
  let tenant ← restoreLeafInto rebuild.tenant record prefixDepth maxNodeChildren
  .ok { rebuild with tenant }

def restoreStructured (rebuild : Rebuild) (record : StructuredTemplateRecord) :
    Except RestoreError Rebuild := do
  let rebuild ← rebuild.see record.templateId
  let key : StructuredKey := (record.severityNumber, record.scopeName, record.eventName)
  if key ∈ rebuild.tenant.structuredTemplates then
    refuse (.duplicateStructured record.severityNumber record.scopeName record.eventName)
  else
    .ok { rebuild with
      tenant := { rebuild.tenant with
        structuredTemplates := rebuild.tenant.structuredTemplates.insert key record.templateId } }

/-- Check a record that names a leaf against the leaf records beside it. -/
def validateTreeBackedAdoption (record : AdoptedTemplateRecord) (leaves : List LeafRecord) :
    Except RestoreError Unit :=
  match leaves.find? (·.templateId == record.templateId) with
  | none => refuse (.danglingAdoption record.canonical record.templateId)
  | some leaf =>
    if leaf.severityNumber ≠ record.severityNumber ∨ leaf.scopeName ≠ record.scopeName then
      refuse (.foreignAdoption record.canonical record.templateId)
    else if leaf.templateVersion < record.templateVersion then
      refuse (.versionBeyondLeaf record.canonical record.templateId record.templateVersion
        leaf.templateVersion)
    else if record.templateVersion = leaf.templateVersion ∧
        formatTemplate leaf.template ≠ record.canonical then
      refuse (.canonicalDisagrees record.canonical record.templateId record.templateVersion)
    else .ok ()

/-- Rebuild one entry of the adoption map. An owned entry written without
provenance came from upstream. -/
def restoreAdoptedEntry (record : AdoptedTemplateRecord) : AdoptedEntry :=
  if record.owned then
    .owned ⟨record.templateId, provenanceSetOr .upstreamDerived record.provenance,
      .fromParts record.upstreamAssociations record.upstreamAssociationOverflow⟩
  else .treeBacked record.templateId record.templateVersion

/-- Count an owned record, or check a tree-backed one. -/
def checkAdopted (leaves : List LeafRecord) (rebuild : Rebuild) (record : AdoptedTemplateRecord) :
    Except RestoreError Rebuild :=
  if record.owned then do
    let rebuild ← rebuild.see record.templateId
    .ok { rebuild with
      tenant := { rebuild.tenant with
        ownedAdoptedCount := rebuild.tenant.ownedAdoptedCount + 1 } }
  else do
    validateTreeBackedAdoption record leaves
    .ok rebuild

def restoreAdopted (leaves : List LeafRecord) (rebuild : Rebuild)
    (record : AdoptedTemplateRecord) : Except RestoreError Rebuild := do
  let rebuild ← checkAdopted leaves rebuild record
  let key : CanonicalKey := (record.canonical, record.severityNumber, record.scopeName)
  if key ∈ rebuild.tenant.adoptedTemplates then
    refuse (.duplicateAdoption record.canonical record.severityNumber record.scopeName)
  else
    .ok { rebuild with
      tenant := { rebuild.tenant with
        adoptedTemplates :=
          rebuild.tenant.adoptedTemplates.insert key (restoreAdoptedEntry record) } }

/-- Every id a snapshot mentions. -/
def SnapshotState.ids (state : SnapshotState) : List Nat :=
  state.leaves.map LeafRecord.templateId ++
    (state.structuredTemplates.map StructuredTemplateRecord.templateId ++
      state.adoptedTemplates.map AdoptedTemplateRecord.templateId)

/-- Seat the allocator past every restored id. -/
def allocatePast (ids : IdRange) (state : SnapshotState) : Except RestoreError IdRange :=
  match state.ids.max? with
  | none => .ok ids
  | some issued =>
    match ids.allocatePast issued with
    | some ids => .ok ids
    | none => refuse (.idDomain issued)

def rebuildTenant (config : MinerConfig) (state : SnapshotState) :
    Except RestoreError TenantState := do
  let rebuild ← state.leaves.foldlM (restoreLeaf config.prefixDepth config.maxNodeChildren)
    ⟨[], TenantState.new config⟩
  let rebuild ← state.structuredTemplates.foldlM restoreStructured rebuild
  let rebuild ← state.adoptedTemplates.foldlM (restoreAdopted state.leaves) rebuild
  .ok { rebuild.tenant with
    templateCount := state.leaves.length + state.structuredTemplates.length +
      rebuild.tenant.ownedAdoptedCount
    leafCount := state.leaves.length }

def MinerCluster.restoreTenant (cluster : MinerCluster) (tenantId : TenantId)
    (state : SnapshotState) : Except RestoreError MinerCluster :=
  if tenantId ∈ cluster.tenants then .error .tenantAlreadyLive
  else do
    let tenant ← rebuildTenant (cluster.effectiveConfig tenantId) state
    let ids ← allocatePast cluster.ids state
    .ok ({ cluster with ids }.setTenant tenantId tenant)

end Ourios.Miner
