/-
# The miner cluster

`MinerCluster::ingest` and everything under it (`cluster/mod.rs`,
`cluster/structured.rs`). One ingest takes the cluster to its next state and
returns what it handed to the two sinks, in order, with the template id it
reports. Telemetry is left out; the counters the cluster itself keeps are not.
-/

import Ourios.Miner.State

namespace Ourios.Miner

/-- What an ingest hands to a sink. -/
inductive Emission
  | record (row : MinedRecord)
  | audit (event : AuditEvent)

/-- The state shared by all tenants. -/
structure MinerCluster where
  config : MinerConfig
  tenantOverrides : AList fun _ : TenantId => MinerConfig
  tenants : AList fun _ : TenantId => TenantState
  ids : IdRange
  mergesTotal : Nat
  parseFailuresTotal : Nat
  bodyRetentionsTotal : Nat
  paramsOverflowTotal : Nat
  clockReads : Nat

variable (cluster : MinerCluster)

namespace MinerCluster

/-- A cluster that has seen nothing. -/
def new (config : MinerConfig) (tenantOverrides : AList fun _ : TenantId => MinerConfig)
    (ids : IdRange) : MinerCluster :=
  ⟨config, tenantOverrides, ∅, ids, 0, 0, 0, 0, 0⟩

/-- The tunables a tenant runs under: those it was created with, else its
override, else the cluster's. -/
def effectiveConfig (tenant : TenantId) : MinerConfig :=
  match cluster.tenants.lookup tenant with
  | some state => state.config
  | none => (cluster.tenantOverrides.lookup tenant).getD cluster.config

/-- The tenant's state, created on first use. -/
def tenantOrNew (tenant : TenantId) : TenantState :=
  (cluster.tenants.lookup tenant).getD (TenantState.new (cluster.effectiveConfig tenant))

def setTenant (tenant : TenantId) (state : TenantState) : MinerCluster :=
  { cluster with tenants := cluster.tenants.insert tenant state }

end MinerCluster

/-- The result of an ingest, or of one of its branches. -/
structure Outcome where
  cluster : MinerCluster
  emitted : List Emission
  templateId : Nat

/-- A string line on its way through the miner. -/
structure StringLine where
  record : OtlpLogRecord
  raw : Text

/-- What the tokenizer and the masker kept of a line. -/
structure LineParts where
  separators : List Text
  params : List Param

/-- Whether a fresh leaf was minted beside a too weak candidate. -/
inductive FreshLeafZone
  | clean
  | lossy (confidence : ℚ)

/-- A row with the record's envelope and nothing mined. -/
def recordEnvelope (record : OtlpLogRecord) (bodyKind : BodyKind) : MinedRecord :=
  { toEnvelope := record.toEnvelope
    templateId := noTemplate
    templateVersion := 0
    bodyKind
    params := []
    separators := []
    body := none
    confidence := 0
    lossyFlag := false }

/-- The longest whole-character start of a line within the sample size. -/
def sampleWithin (budget : Nat) : Text → Text
  | [] => []
  | c :: rest => if c.utf8Size ≤ budget then c :: sampleWithin (budget - c.utf8Size) rest else []

/-- The audit sample of a line. -/
def sampleFirst256Bytes (raw : Text) : Text := sampleWithin 256 raw

namespace MinerCluster

variable (env : Environment) (cluster : MinerCluster)

def emitTemplateChange (line : StringLine) (templateId : Nat)
    (change : TemplateChange) : Emission × MinerCluster :=
  (.audit
    { tenantId := line.record.tenantId
      timestamp := env.clock cluster.clockReads
      templateId
      triggeringLineHash := env.hashTriggeringLine line.raw
      triggeringLineSample := some (sampleFirst256Bytes line.raw)
      change },
    { cluster with clockReads := cluster.clockReads + 1 })

/-- Retain the body of a row with an overflow marker. -/
def applyOverflowRetention (line : StringLine) (row : MinedRecord) : MinedRecord × MinerCluster :=
  let overflowCount := row.params.countP fun p => p.typeTag == .overflow
  if 0 < overflowCount then
    ({ row with body := some line.raw },
      { cluster with paramsOverflowTotal := cluster.paramsOverflowTotal + overflowCount })
  else (row, cluster)

/-- Count a line that produced no template. -/
def recordParseFailure : MinerCluster :=
  { cluster with
    parseFailuresTotal := cluster.parseFailuresTotal + 1
    bodyRetentionsTotal := cluster.bodyRetentionsTotal + 1 }

/-- Emit a row that keeps its body because no template was bound. -/
def emitStringParseFailure (line : StringLine) (parts : LineParts) : Outcome :=
  let row := { recordEnvelope line.record .string with
    separators := parts.separators
    params := parts.params
    body := some line.raw
    lossyFlag := true }
  let (row, cluster) := cluster.applyOverflowRetention line row
  ⟨cluster.recordParseFailure, [.record row], noTemplate⟩

def emitFreshLeafRecord (line : StringLine) (parts : LineParts)
    (newId : Nat) (zone : FreshLeafZone) : Outcome :=
  let row := { recordEnvelope line.record .string with
    templateId := newId
    templateVersion := 1
    separators := parts.separators
    params := parts.params }
  let (row, cluster) : MinedRecord × MinerCluster :=
    match zone with
    | .clean => ({ row with confidence := 1 }, cluster)
    | .lossy confidence =>
      ({ row with confidence, body := some line.raw },
        { cluster with bodyRetentionsTotal := cluster.bodyRetentionsTotal + 1 })
  let (row, cluster) := cluster.applyOverflowRetention line row
  ⟨cluster, [.record row], newId⟩

/-- Emit a row bound to a template without keeping its body. -/
def emitBoundRecord (line : StringLine) (separators : List Text)
    (params : List Param) (templateId templateVersion : Nat) : Outcome :=
  let row := { recordEnvelope line.record .string with
    templateId
    templateVersion
    separators
    params
    confidence := 1 }
  let (row, cluster) := cluster.applyOverflowRetention line row
  ⟨cluster, [.record row], templateId⟩

/-- Mint the leaf of a line, or `none` when no id can be had. -/
def createNewLeaf (line : StringLine) (masked : Masked)
    (observed : Option Text) : Option (Nat × List Emission) × MinerCluster :=
  let record := line.record
  let template := leafTemplate masked
  let createdTemplate := formatTemplate template
  let key : CanonicalKey := (createdTemplate, record.severityNumber, record.scopeName)
  let slotTypes := masked.typedParams.map fun p => SlotTypes.singleton p.typeTag
  let leafOf (templateId : Nat) (provenance : ProvenanceSet)
      (associations : UpstreamAssociations) : Leaf :=
    ⟨template, templateId, 1, record.severityNumber, record.scopeName, slotTypes, provenance,
      associations⟩
  let finish (cluster : MinerCluster) (state : TenantState) (leaf : Leaf) (fresh : Bool) :=
    let pushed := state.pushLeaf masked leaf observed key fresh
    let (event, cluster) := (cluster.setTenant record.tenantId pushed).emitTemplateChange env line
      leaf.templateId (.created createdTemplate)
    (some (leaf.templateId, [event]), cluster)
  match (cluster.tenants.lookup record.tenantId).bind (·.takeConvergedAdoption key) with
  | some (owned, state) =>
    finish cluster state
      (leafOf owned.templateId (insert .mined owned.provenance) owned.associations) false
  | none =>
    match cluster.ids.take with
    | (none, ids) => (none, { cluster with ids })
    | (some newId, ids) =>
      let cluster := { cluster with ids }
      finish cluster (cluster.tenantOrNew record.tenantId)
        (leafOf newId {.mined} .empty) true

/-- Mint a leaf under the tenant's ceiling and emit its row. -/
def mintFreshLeaf (line : StringLine) (masked : Masked)
    (parts : LineParts) (observed : Option Text) (zone : FreshLeafZone) (maxTemplates : Nat) :
    Outcome :=
  if ((cluster.tenants.lookup line.record.tenantId).map (·.atCeiling maxTemplates)).getD false then
    cluster.emitStringParseFailure line parts
  else
    match cluster.createNewLeaf env line masked observed with
    | (some (newId, events), cluster) =>
      let outcome := cluster.emitFreshLeafRecord line parts newId zone
      { outcome with emitted := events ++ outcome.emitted }
    | (none, cluster) => cluster.emitStringParseFailure line parts

/-- How an upstream template resolved. -/
inductive AdoptResolution
  | existing (templateId templateVersion : Nat)
  | firstOnLeaf (templateId templateVersion : Nat)
  | interned (templateId : Nat)
  | ceiling
  | noId

/-- Resolve a canonical shape: an adopted entry, a mined leaf of that shape, or a
new identity. -/
def resolveAdoption (record : OtlpLogRecord) (upstream : Text)
    (ownedTokens : List OwnedToken) (key : CanonicalKey) (config : MinerConfig) :
    AdoptResolution × MinerCluster :=
  let tenant := record.tenantId
  let state := (cluster.tenants.lookup tenant).getD (TenantState.new config)
  let cluster := cluster.setTenant tenant state
  match state.adoptedTemplates.lookup key with
  | some (.treeBacked templateId templateVersion) =>
    (.existing templateId templateVersion, cluster)
  | some (.owned owned) =>
    let associations := owned.associations.observe upstream config.upstreamAssociationLimit
    (.existing owned.templateId 1,
      cluster.setTenant tenant { state with
        adoptedTemplates :=
          state.adoptedTemplates.insert key (.owned { owned with associations }) })
  | none =>
    let minedHit :=
      if state.minedCanonicals.contains key then
        state.tree.findExact ownedTokens record.severityNumber record.scopeName
      else none
    match minedHit with
    | some leaf =>
      let first := !decide (Provenance.upstreamDerived ∈ leaf.provenance)
      let marked := { state with
        tree := state.tree.updateLeaf ownedTokens.length leaf.templateId fun leaf =>
          { leaf with provenance := insert .upstreamDerived leaf.provenance }
        adoptedTemplates := state.adoptedTemplates.insert key
          (.treeBacked leaf.templateId leaf.templateVersion) }
      (if first then .firstOnLeaf leaf.templateId leaf.templateVersion
        else .existing leaf.templateId leaf.templateVersion,
        cluster.setTenant tenant marked)
    | none =>
      if state.atCeiling config.maxTemplates then (.ceiling, cluster)
      else
        match cluster.ids.take with
        | (none, ids) => (.noId, { cluster with ids })
        | (some newId, ids) =>
          let associations :=
            UpstreamAssociations.empty.observe upstream config.upstreamAssociationLimit
          let interned := { state with
            adoptedTemplates := state.adoptedTemplates.insert key
              (.owned ⟨newId, {.upstreamDerived}, associations⟩)
            ownedAdoptedCount := state.ownedAdoptedCount + 1
            templateCount := state.templateCount + 1 }
          (.interned newId, { cluster with ids }.setTenant tenant interned)

/-- Adopt the producer's template where it parses, aligns and resolves. -/
def tryAdopt (line : StringLine) (upstream : Text) (masked : Masked)
    (config : MinerConfig) : Option (Nat × List Emission) × MinerCluster :=
  if config.upstreamTemplateByteLimit < upstream.byteLen then (none, cluster)
  else
    match parseUpstream upstream with
    | .error _ => (none, cluster)
    | .ok parsed =>
      match align parsed line.raw with
      | .error _ => (none, cluster)
      | .ok alignment =>
        let ownedTokens := parsed.toOwnedTokens
        let canonical := formatTemplate ownedTokens
        let key : CanonicalKey :=
          (canonical, line.record.severityNumber, line.record.scopeName)
        let bind (cluster : MinerCluster) (templateId templateVersion : Nat)
            (events : List Emission) :=
          let (params, separators) :=
            adoptedRowParts env parsed alignment masked config.paramByteLimit
          let outcome := cluster.emitBoundRecord line separators params templateId
            templateVersion
          (some (templateId, events ++ outcome.emitted), outcome.cluster)
        let announce (cluster : MinerCluster) (templateId templateVersion : Nat) :=
          let (event, cluster) := cluster.emitTemplateChange env line templateId
            (.adopted templateVersion canonical)
          bind cluster templateId templateVersion [event]
        match cluster.resolveAdoption line.record upstream ownedTokens key config with
        | (.ceiling, cluster) => (none, cluster)
        | (.noId, cluster) => (none, cluster)
        | (.existing templateId templateVersion, cluster) =>
          bind cluster templateId templateVersion []
        | (.firstOnLeaf templateId templateVersion, cluster) =>
          announce cluster templateId templateVersion
        | (.interned templateId, cluster) => announce cluster templateId 1

/-- Take one more change into the move: the first old text stays, the new one is
replaced. -/
def widenedFold (moved : Option (Text × Text)) : TemplateChange → Option (Text × Text)
  | .widened _ _ oldTemplate newTemplate _ =>
    some ((moved.map Prod.fst).getD oldTemplate, newTemplate)
  | _ => moved

/-- The first old and the last new text of the widenings among some events. -/
def widenedMove (events : List TemplateChange) : Option (Text × Text) :=
  events.foldl widenedFold none

/-- Move a widened leaf in the index of mined shapes. -/
def moveMinedCanonical (record : OtlpLogRecord) (events : List TemplateChange) : MinerCluster :=
  match widenedMove events, cluster.tenants.lookup record.tenantId with
  | some (old, new), some state =>
    cluster.setTenant record.tenantId { state with
      minedCanonicals := state.minedCanonicals.replace
        (old, record.severityNumber, record.scopeName)
        (new, record.severityNumber, record.scopeName) }
  | _, _ => cluster

/-- Emit the changes of an attach in order, counting the merges among them. -/
def emitChanges (line : StringLine) (templateId : Nat) :
    MinerCluster → List TemplateChange → List Emission × MinerCluster
  | cluster, [] => ([], cluster)
  | cluster, change :: changes =>
    let (event, cluster) := cluster.emitTemplateChange env line templateId change
    let cluster := if change.countsAsMerge then
      { cluster with mergesTotal := cluster.mergesTotal + 1 } else cluster
    let (events, cluster) := emitChanges line templateId cluster changes
    (event :: events, cluster)

/-- Attach a line to a candidate leaf, widening it if it must. The candidate was
found in the same state, so the tenant and the leaf exist; the source panics
otherwise. -/
def attachAndMaybeWiden (line : StringLine) (masked : Masked)
    (candidate : Candidate) (byteLimit : Nat) (observed : Option Text) (parts : LineParts) :
    Outcome :=
  let record := line.record
  match cluster.tenants.lookup record.tenantId with
  | none => ⟨cluster, [], noTemplate⟩
  | some state =>
    match (state.leavesFor masked)[candidate.leafIdx]? with
    | none => ⟨cluster, [], noTemplate⟩
    | some leaf =>
      let (plan, planned) := planAttach env leaf masked byteLimit
      let associated :=
        match plan with
        | .rejected .. => planned
        | _ => planned.associateUpstream observed state.config.upstreamAssociationLimit
      let cluster := cluster.setTenant record.tenantId
        (state.withLeavesFor masked (·.set candidate.leafIdx associated))
      match plan with
      | .cleanReuse templateId templateVersion params =>
        cluster.emitBoundRecord line parts.separators params templateId templateVersion
      | .rejected templateId version currentTemplate wouldBeTemplate wouldBePositions =>
        let (event, cluster) := cluster.emitTemplateChange env line templateId
          (.rejectedDegenerate version currentTemplate wouldBeTemplate wouldBePositions)
        let outcome := cluster.emitStringParseFailure line parts
        { outcome with emitted := event :: outcome.emitted }
      | .mutated templateId events finalVersion params =>
        let cluster := cluster.moveMinedCanonical record events
        let (emitted, cluster) := emitChanges env line templateId cluster events
        let outcome := cluster.emitBoundRecord line parts.separators params templateId
          finalVersion
        { outcome with emitted := emitted ++ outcome.emitted }

/-- The upstream template a record offers under the tenant's mode. -/
def upstreamRaw (config : MinerConfig) (record : OtlpLogRecord) : Option Text :=
  match config.upstreamTemplates with
  | .ignore => none
  | .observe | .adopt =>
    if config.upstreamTemplateByteLimit = 0 then none else upstreamTemplateOf record

/-- The upstream string to associate with the mined leaf. -/
def observedUpstream (config : MinerConfig) (record : OtlpLogRecord) : Option Text :=
  if config.upstreamTemplates = .observe then
    (upstreamRaw config record).bind fun s =>
      if config.upstreamTemplateByteLimit < s.byteLen then none
      else
        match parseUpstream s with
        | .error _ => none
        | .ok _ => some s
  else none

/-- Mine a line that adoption did not take: attach to the best candidate, or mint
a leaf. -/
def mineLine (line : StringLine) (masked : Masked) (parts : LineParts)
    (config : MinerConfig) : Outcome :=
  let observed := observedUpstream config line.record
  let mint := cluster.mintFreshLeaf env line masked parts observed
  match (cluster.tenants.lookup line.record.tenantId).bind
      (·.findBestCandidate line.record masked) with
  | none => mint .clean config.maxTemplates
  | some candidate =>
    match ConfidenceZone.classify candidate.similarity config.similarityThreshold
        config.similarityFloor with
    | .clean =>
      cluster.attachAndMaybeWiden env line masked candidate config.paramByteLimit observed parts
    | .lossy =>
      mint (.lossy (roundF32 (candidate.similarity / config.similarityThreshold)))
        config.maxTemplates
    | .parseFailure => mint .clean config.maxTemplates

/-- The row of a line whose body must be kept because nothing was mined from it. -/
def unminedRow (line : StringLine) (separators : List Text) : MinedRecord :=
  { recordEnvelope line.record .string with
    separators
    body := some line.raw
    lossyFlag := true }

/-- Ingest a tokenized line: the length guards, then adoption, then mining. -/
def ingestTokenized (line : StringLine) (tokenized : Tokenized) : Outcome :=
  let config := cluster.effectiveConfig line.record.tenantId
  let masked := mask tokenized.tokens
  let parts : LineParts :=
    ⟨tokenized.separators, paramsFromMask env masked.typedParams config.paramByteLimit⟩
  if masked.tokens.isEmpty then
    ⟨cluster.recordParseFailure, [.record (unminedRow line parts.separators)], noTemplate⟩
  else if config.maxLineTokens < masked.tokens.length then
    cluster.emitStringParseFailure line parts
  else
    match (if config.upstreamTemplates = .adopt then upstreamRaw config line.record else none) with
    | none => cluster.mineLine env line masked parts config
    | some upstream =>
      match cluster.tryAdopt env line upstream masked config with
      | (some (templateId, emitted), cluster) => ⟨cluster, emitted, templateId⟩
      | (none, cluster) => cluster.mineLine env line masked parts config

def ingestString (line : StringLine) : Outcome :=
  match tokenize line.raw with
  | .error _ =>
    ⟨{ cluster with parseFailuresTotal := cluster.parseFailuresTotal + 1 },
      [.record (unminedRow line [])], noTemplate⟩
  | .ok tokenized => cluster.ingestTokenized env line tokenized

/-- The template id of a structured record's key, taken on first sight. -/
def structuredTemplateId (record : OtlpLogRecord) : Nat × MinerCluster :=
  let key : StructuredKey := (record.severityNumber, record.scopeName, record.eventName)
  match (cluster.tenants.lookup record.tenantId).bind (·.structuredTemplates.lookup key) with
  | some existingId => (existingId, cluster)
  | none =>
    match cluster.ids.take with
    | (none, ids) => (noTemplate, { cluster with ids })
    | (some newId, ids) =>
      let state := cluster.tenantOrNew record.tenantId
      (newId, { cluster with ids }.setTenant record.tenantId { state with
        structuredTemplates := state.structuredTemplates.insert key newId
        templateCount := state.templateCount + 1 })

/-- Ingest any other body. -/
def ingestStructured (record : OtlpLogRecord) (value : AnyValue) : Outcome :=
  let (templateId, cluster) := cluster.structuredTemplateId record
  let cluster := if templateId = noTemplate then cluster.recordParseFailure else cluster
  let row := { recordEnvelope record .structured with
    templateId
    templateVersion := 1
    confidence := 1
    body := some (env.encodeAnyValue value) }
  ⟨cluster, [.record row], templateId⟩

def ingest (record : OtlpLogRecord) : Outcome :=
  match record.body with
  | none => ⟨cluster, [.record (recordEnvelope record .absent)], noTemplate⟩
  | some (.string raw) => cluster.ingestString env ⟨record, raw⟩
  | some (.structured value) => cluster.ingestStructured env record value

end MinerCluster

end Ourios.Miner
