/-
# What an ingest does

Every ingest is a sequence of moves followed by one row. The row of a string
line is one of three: it keeps the line because nothing was bound, it is bound
to a leaf of the state it leaves behind, or it is bound to the upstream template
that adoption resolved. A bound row captures the line in the tokens it is bound
to, unless an overflow marker made it keep the line as well.
-/

import Ourios.Miner.Bookkeeping

namespace Ourios.Miner

open Ourios.Foundation

/-- Two clusters that differ at most in the counters no template depends on. -/
structure Quiet (before after : MinerCluster) : Prop where
  config : after.config = before.config
  tenantOverrides : after.tenantOverrides = before.tenantOverrides
  tenants : after.tenants = before.tenants
  ids : after.ids = before.ids
  mergesTotal : after.mergesTotal = before.mergesTotal

variable (env : Environment) (cluster : MinerCluster)

namespace Quiet

theorem refl : Quiet cluster cluster := ⟨rfl, rfl, rfl, rfl, rfl⟩

theorem trans {first second third : MinerCluster} (h : Quiet first second)
    (h' : Quiet second third) : Quiet first third :=
  ⟨h'.config.trans h.config, h'.tenantOverrides.trans h.tenantOverrides,
    h'.tenants.trans h.tenants, h'.ids.trans h.ids, h'.mergesTotal.trans h.mergesTotal⟩

theorem moves {before after : MinerCluster} (h : Quiet before after) (record : OtlpLogRecord)
    (tokens : List Text) : Moves (ClusterMove record tokens) before [] after :=
  Moves.single (.quiet h.config h.tenantOverrides h.tenants (h.ids ▸ .nothing) h.mergesTotal)

end Quiet

/-- A row that captures a line in a template, or keeps the line because a
parameter overflowed. -/
structure BoundRow (raw : Text) (template : List OwnedToken) (row : MinedRecord) : Prop where
  lossyFlag : row.lossyFlag = false
  body : row.anyOverflow = true → row.body = some raw
  captures : row.anyOverflow = false → Captures row template raw

/-- A tenant holds a leaf with this id, version and shape. -/
def HoldsLeaf (tenant : TenantId) (templateId templateVersion : Nat)
    (template : List OwnedToken) : Prop :=
  ∃ state leaf, cluster.tenants.lookup tenant = some state ∧
    leaf ∈ state.tree.collectLeaves ∧ leaf.templateId = templateId ∧
    leaf.templateVersion = templateVersion ∧ leaf.template = template

/-- A tenant's adoption map resolves a shape to this id and version. -/
def HoldsEntry (tenant : TenantId) (key : CanonicalKey) (templateId templateVersion : Nat) : Prop :=
  ∃ state entry, cluster.tenants.lookup tenant = some state ∧
    state.adoptedTemplates.lookup key = some entry ∧ entry.templateId = templateId ∧
    entry.templateVersion = templateVersion

/-- The row of a string line, by what it was bound to. `adopted` is the upstream
template adoption took the line for. -/
inductive StringRow (record : OtlpLogRecord) (raw : Text) (adopted : Option UpstreamTemplate)
    (after : MinerCluster) (row : MinedRecord) : Prop
  | retained (hid : row.templateId = noTemplate) (hlossy : row.lossyFlag = true)
      (hbody : row.body = some raw)
  | mined {template : List OwnedToken} (hadopted : adopted = none)
      (hleaf : HoldsLeaf after record.tenantId row.templateId row.templateVersion template)
      (hbound : BoundRow raw template row)
  | adopted {parsed : UpstreamTemplate} {upstream : Text}
      (hparsed : parseUpstream upstream = .ok parsed) (hadopted : adopted = some parsed)
      (hentry : HoldsEntry after record.tenantId (canonicalKey record parsed.toOwnedTokens)
        row.templateId row.templateVersion)
      (hbound : BoundRow raw parsed.toOwnedTokens row)

/-- A branch of an ingest: moves, then one string row of the record. -/
def Yields (record : OtlpLogRecord) (raw : Text) (tokens : List Text)
    (adopted : Option UpstreamTemplate) (before : MinerCluster) (emitted : List Emission)
    (after : MinerCluster) : Prop :=
  ∃ events row, emitted = events.map Emission.audit ++ [.record row] ∧
    Moves (ClusterMove record tokens) before events after ∧
    row.toEnvelope = record.toEnvelope ∧ row.bodyKind = .string ∧
    StringRow record raw adopted after row

/-- What a branch of a string line's ingest yields when it returns `outcome`. -/
abbrev Outcome.Yields (outcome : Outcome) (line : StringLine) (tokens : List Text)
    (adopted : Option UpstreamTemplate) (before : MinerCluster) : Prop :=
  Miner.Yields line.record line.raw tokens adopted before outcome.emitted outcome.cluster

theorem StringRow.of_quiet {record : OtlpLogRecord} {raw : Text} {row : MinedRecord}
    {adopted : Option UpstreamTemplate} {before after : MinerCluster} (hquiet : Quiet before after)
    (h : StringRow record raw adopted before row) : StringRow record raw adopted after row := by
  cases h with
  | retained hid hlossy hbody => exact .retained hid hlossy hbody
  | mined hadopted hleaf hbound =>
    exact .mined hadopted (by rwa [HoldsLeaf, hquiet.tenants]) hbound
  | adopted hparsed hadopted hentry hbound =>
    exact .adopted hparsed hadopted (by rwa [HoldsEntry, hquiet.tenants]) hbound

/-- What the tokenizer and the masker keep of a tokenized line. -/
abbrev maskedParts (tokenized : Tokenized) (byteLimit : Nat) : LineParts :=
  ⟨tokenized.separators, paramsFromMask env (mask tokenized.tokens).typedParams byteLimit⟩

theorem Yields.after_moves {record : OtlpLogRecord} {raw : Text} {tokens : List Text}
    {adopted : Option UpstreamTemplate} {before middle after : MinerCluster}
    {events : List AuditEvent} {emitted : List Emission}
    (hmoves : Moves (ClusterMove record tokens) before events middle)
    (h : Yields record raw tokens adopted middle emitted after) :
    Yields record raw tokens adopted before (events.map Emission.audit ++ emitted) after := by
  obtain ⟨later, row, rfl, hlater, hrow⟩ := h
  exact ⟨events ++ later, row, by simp, hmoves.trans hlater, hrow⟩

namespace MinerCluster

variable (env : Environment) (cluster : MinerCluster) (line : StringLine)

/-! ### Rows -/

/-- Overflow retention keeps a row apart from its body, which becomes the line where
a parameter overflowed. -/
theorem applyOverflowRetention_spec (row : MinedRecord) :
    Quiet cluster (cluster.applyOverflowRetention line row).2 ∧
      (cluster.applyOverflowRetention line row).1 =
        { row with body := if row.anyOverflow then some line.raw else row.body } := by
  have hany : row.anyOverflow = true ↔
      0 < row.params.countP fun p => p.typeTag == .overflow := by
    simp [MinedRecord.anyOverflow, List.countP_pos_iff]
  unfold applyOverflowRetention
  by_cases hoverflow : 0 < row.params.countP fun p => p.typeTag == .overflow
  · simp only [hoverflow, hany.mpr hoverflow, if_true]
    exact ⟨⟨rfl, rfl, rfl, rfl, rfl⟩, trivial⟩
  · simp only [hoverflow, mt hany.mp hoverflow, if_false]
    exact ⟨.refl cluster, rfl⟩

/-- A row whose parts capture the line is bound, with or without retention. -/
theorem boundRow_applyOverflowRetention {template : List OwnedToken} {row : MinedRecord}
    (hlossy : row.lossyFlag = false)
    (hcaptures : row.anyOverflow = false → Captures row template line.raw) :
    BoundRow line.raw template (cluster.applyOverflowRetention line row).1 := by
  rw [(cluster.applyOverflowRetention_spec line row).2]
  refine ⟨hlossy, fun h => if_pos h, fun h => ?_⟩
  have hnone : row.anyOverflow = false := h
  rw [hnone]
  exact hcaptures hnone

theorem quiet_recordParseFailure : Quiet cluster cluster.recordParseFailure :=
  ⟨rfl, rfl, rfl, rfl, rfl⟩

theorem emitStringParseFailure_yields (parts : LineParts) (tokens : List Text)
    (adopted : Option UpstreamTemplate) :
    (cluster.emitStringParseFailure line parts).Yields line tokens adopted cluster := by
  unfold emitStringParseFailure
  generalize hrow : ({ recordEnvelope line.record .string with
    separators := parts.separators
    params := parts.params
    body := some line.raw
    lossyFlag := true } : MinedRecord) = row
  obtain ⟨hquiet, hkept⟩ := cluster.applyOverflowRetention_spec line row
  refine ⟨[], (cluster.applyOverflowRetention line row).1, rfl, ?_, ?_⟩
  · exact (hquiet.trans (quiet_recordParseFailure _)).moves line.record tokens
  · rw [hkept, ← hrow]
    exact ⟨rfl, rfl, .retained rfl rfl (ite_self _)⟩

end MinerCluster

/-! ### Captures -/

theorem anyOverflow_eq_false_iff (row : MinedRecord) :
    row.anyOverflow = false ↔ ∀ p ∈ row.params, p.typeTag ≠ .overflow := by
  simp [MinedRecord.anyOverflow]

/-- A row of these parts captures the line, unless a parameter overflowed. -/
def CapturedBy (raw : Text) (template : List OwnedToken) (separators : List Text)
    (params : List Param) : Prop :=
  ∀ row : MinedRecord, row.separators = separators → row.params = params →
    row.anyOverflow = false → Captures row template raw

section Captures

variable {raw : Text} {tokenized : Tokenized}

theorem capturedBy_of_fills (htokenize : tokenize raw = .ok tokenized)
    {template : List OwnedToken} {params : List Param}
    (hfills : (∀ p ∈ params, p.typeTag ≠ .overflow) →
      Fills template (params.map Param.value) tokenized.tokens) :
    CapturedBy raw template tokenized.separators params := by
  obtain ⟨hlen, hweave, -⟩ := tokenize_ok htokenize
  rintro row hseparators rfl hoverflow
  exact ⟨⟨tokenized.tokens, hseparators ▸ hweave, hseparators ▸ hlen,
    hfills ((anyOverflow_eq_false_iff row).mp hoverflow)⟩⟩

/-- The masker's parameters capture the line in the leaf it mints. -/
theorem captures_fresh (htokenize : tokenize raw = .ok tokenized) (byteLimit : Nat) :
    CapturedBy raw (leafTemplate (mask tokenized.tokens)) tokenized.separators
      (paramsFromMask env (mask tokenized.tokens).typedParams byteLimit) := by
  refine capturedBy_of_fills htokenize fun hoverflow => ?_
  rw [paramsFromMask, map_value_capParamValue env _ _ _ _ hoverflow]
  exact fills_leafTemplate tokenized.tokens

/-- The rebuilt parameters capture the line in the leaf it attached to. -/
theorem captures_attached (byteLimit : Nat)
    (htokenize : tokenize raw = .ok tokenized) {template : List OwnedToken}
    (hlen : template.length = tokenized.tokens.length) :
    CapturedBy raw (widenTemplate tokenized.tokens template) tokenized.separators
      (buildRecordParams env (widenTemplate tokenized.tokens template)
        (mask tokenized.tokens) byteLimit) :=
  capturedBy_of_fills htokenize (fills_buildRecordParams env (accepts_widenTemplate hlen))

theorem length_wildcardBodyPositions (template : UpstreamTemplate) :
    (wildcardBodyPositions template).length = wildcardCount template.toOwnedTokens := by
  unfold wildcardBodyPositions wildcardCount UpstreamTemplate.toOwnedTokens
  rw [List.length_map, ← List.countP_eq_length_filter, List.countP_map]
  conv_rhs => rw [← List.zipIdx_map_fst 0 template.tokens, List.countP_map]
  rfl

/-- The aligned values capture the line in the upstream template. -/
theorem captures_adopted {parsed : UpstreamTemplate} {alignment : Alignment}
    (halign : align parsed raw = .ok alignment) (masked : Masked) (byteLimit : Nat) :
    CapturedBy raw parsed.toOwnedTokens (adoptedRowParts env parsed alignment masked byteLimit).2
      (adoptedRowParts env parsed alignment masked byteLimit).1 := by
  obtain ⟨tokenized, htokenize, hseps, hfills⟩ := align_ok halign
  have hlen : alignment.params.length = (wildcardBodyPositions parsed).length := by
    rw [length_wildcardBodyPositions, ← hfills.length_values, List.length_map]
  have hseparators : (adoptedRowParts env parsed alignment masked byteLimit).2 =
    tokenized.separators := hseps
  rw [hseparators]
  refine capturedBy_of_fills htokenize fun hoverflow => ?_
  have hvalues := map_value_capParamValue env
    (fun entry : AlignedParam × Nat =>
      paramTypeForLinePosition entry.2 masked.wildcardPositions masked.typedParams)
    (fun entry => entry.1.value) byteLimit _ hoverflow
  have hzip : (alignment.params.zip (wildcardBodyPositions parsed)).map (·.1.value) =
      alignment.params.map AlignedParam.value := by
    have hfirst : (alignment.params.zip (wildcardBodyPositions parsed)).map Prod.fst =
        alignment.params := List.map_fst_zip (le_of_eq hlen)
    conv_rhs => rw [← hfirst, List.map_map]
    rfl
  rw [adoptedRowParts, hvalues, hzip]
  exact hfills

end Captures

/-! ### Minting -/

theorem takeConvergedAdoption_some {state after : TenantState} {key : CanonicalKey}
    {owned : OwnedAdopted} (h : state.takeConvergedAdoption key = some (owned, after)) :
    state.adoptedTemplates.lookup key = some (.owned owned) ∧
      after = state.yieldOwned key owned := by
  unfold TenantState.takeConvergedAdoption at h
  split at h
  · rename_i found hfound
    obtain ⟨rfl, rfl⟩ := h
    exact ⟨hfound, rfl⟩
  · cases h

theorem takeConvergedAdoption_none {state : TenantState} {key : CanonicalKey}
    (h : state.takeConvergedAdoption key = none) (owned : OwnedAdopted) :
    state.adoptedTemplates.lookup key ≠ some (.owned owned) := by
  intro hlookup
  simp [TenantState.takeConvergedAdoption, hlookup] at h

namespace MinerCluster

variable (env : Environment) (cluster : MinerCluster) (line : StringLine)

variable {fresh : Option Nat} {state : TenantState} {after : MinerCluster} {tokenized : Tokenized}
  {record : OtlpLogRecord} {candidate : Candidate} {config : MinerConfig}

/-- Storing a tenant stores it, whatever was taken from the allocator before. -/
theorem stored_setTenant {ids : IdRange} (hids : Takes cluster.ids fresh ids) (tenant : TenantId)
    (state : TenantState) :
    Stored cluster tenant fresh state 0 ({ cluster with ids }.setTenant tenant state) :=
  ⟨rfl, rfl, fun _ => lookup_insert_ite _ _ _ _, hids, rfl⟩

/-- Storing a tenant twice stores the second state. -/
theorem stored_setTenant_twice {ids : IdRange} (hids : Takes cluster.ids fresh ids)
    (tenant : TenantId) (first second : TenantState) :
    Stored cluster tenant fresh second 0
      ({ (cluster.setTenant tenant first) with ids }.setTenant tenant second) := by
  refine ⟨rfl, rfl, ?_, hids, rfl⟩
  intro other
  simp only [setTenant, AList.insert_insert]
  exact lookup_insert_ite _ _ _ _

/-- Announcing one change of a stored tenant completes the move. -/
theorem announce_move {cluster : MinerCluster} {tokens : List Text} {held : TenantState}
    {templateId : Nat} {change : TemplateChange} {stored : MinerCluster}
    (hheld : cluster.tenantOrNew line.record.tenantId = held)
    (hmove : TenantMove line.record tokens fresh held [(templateId, change)] state)
    (hstored : Stored cluster line.record.tenantId fresh state 0 stored)
    (hmerge : change.countsAsMerge = false) :
    ∃ event, (stored.emitTemplateChange env line templateId change).1 = .audit event ∧
      Moves (ClusterMove line.record tokens) cluster [event]
        (stored.emitTemplateChange env line templateId change).2 := by
  have hcount : countMerges [(templateId, change)] = 0 := by simp [countMerges, hmerge]
  have hstamped : Stored cluster line.record.tenantId fresh state
      (countMerges [(templateId, change)])
      (stored.emitTemplateChange env line templateId change).2 := by
    rw [hcount]
    exact ⟨hstored.config, hstored.tenantOverrides, hstored.lookup, hstored.ids,
      hstored.mergesTotal⟩
  subst hheld
  exact ⟨_, rfl, Moves.single (.commit hmove hstamped ⟨rfl, by simp⟩)⟩

variable {tokens : List Text} {observed : Option Text}

/-- Minting a leaf announces it and leaves it in the tenant, unless no id is left. -/
theorem createNewLeaf_spec (htokens : LineTokens tokens)
    (hroom : (cluster.tenantOrNew line.record.tenantId).atCeiling
      (cluster.tenantOrNew line.record.tenantId).config.maxTemplates = false)
    {created : Option (Nat × List Emission)}
    (h : cluster.createNewLeaf env line (mask tokens) observed = (created, after)) :
    (created = none ∧ Moves (ClusterMove line.record tokens) cluster [] after) ∨
      ∃ newId event, created = some (newId, [.audit event]) ∧
        Moves (ClusterMove line.record tokens) cluster [event] after ∧
        HoldsLeaf after line.record.tenantId newId 1 (leafTemplate (mask tokens)) := by
  have hholds : ∀ (source : MinerCluster) (state : TenantState) (leaf : Leaf) (key : CanonicalKey)
      (fresh : Bool) (change : TemplateChange), leaf.templateVersion = 1 →
      leaf.template = leafTemplate (mask tokens) →
      HoldsLeaf ((source.setTenant line.record.tenantId
          (state.pushLeaf (mask tokens) leaf observed key fresh)).emitTemplateChange env line
          leaf.templateId change).2 line.record.tenantId leaf.templateId 1
        (leafTemplate (mask tokens)) := by
    intro source state leaf key fresh change hversion htemplate
    exact ⟨_, _, AList.lookup_insert _, state.mem_pushLeaf_self (mask tokens), by simp,
      by simp [hversion], by simp [htemplate]⟩
  unfold createNewLeaf at h
  cases hconverged : (cluster.tenants.lookup line.record.tenantId).bind
      (·.takeConvergedAdoption (canonicalKey line.record (leafTemplate (mask tokens)))) with
  | some found =>
    obtain ⟨owned, state⟩ := found
    obtain ⟨held, hheld, htaken⟩ := Option.bind_eq_some_iff.mp hconverged
    obtain ⟨howned, rfl⟩ := takeConvergedAdoption_some htaken
    have hstate := tenantOrNew_of_lookup hheld
    rw [hstate] at hroom
    unfold canonicalKey at hconverged
    simp only [hconverged, Prod.mk.injEq] at h
    obtain ⟨rfl, rfl⟩ := h
    obtain ⟨event, hevent, hmoves⟩ := announce_move env line hstate
      (.converge owned observed htokens hroom howned)
      (cluster.stored_setTenant .nothing _ _) rfl
    refine .inr ⟨_, event, ?_, hmoves, hholds _ _ _ _ _ _ rfl rfl⟩
    rw [← hevent]
    rfl
  | none =>
    have hfresh : ∀ owned, (cluster.tenantOrNew line.record.tenantId).adoptedTemplates.lookup
        (canonicalKey line.record (leafTemplate (mask tokens))) ≠ some (.owned owned) := by
      intro owned
      unfold tenantOrNew
      cases hheld : cluster.tenants.lookup line.record.tenantId with
      | none => simp [TenantState.new]
      | some held =>
        rw [hheld] at hconverged
        exact takeConvergedAdoption_none hconverged owned
    unfold canonicalKey at hconverged
    simp only [hconverged] at h
    cases htake : cluster.ids.take with
    | mk taken ids =>
      cases taken with
      | none =>
        simp only [htake, Prod.mk.injEq] at h
        obtain ⟨rfl, rfl⟩ := h
        exact .inl ⟨rfl, Moves.single (.quiet rfl rfl rfl (.failed htake) rfl)⟩
      | some freshId =>
        simp only [htake, Prod.mk.injEq] at h
        obtain ⟨rfl, rfl⟩ := h
        obtain ⟨event, hevent, hmoves⟩ := announce_move env line rfl
          (.mint freshId observed htokens hroom hfresh)
          (cluster.stored_setTenant (.taken htake) _ _) rfl
        refine .inr ⟨_, event, ?_, hmoves, hholds _ _ _ _ _ _ rfl rfl⟩
        rw [← hevent]
        rfl

section Rows

variable {cluster}

/-- Emitting a row that captures the line yields it bound, whatever it is bound
to. -/
theorem yields_applyOverflowRetention {adopted : Option UpstreamTemplate}
    {template : List OwnedToken} {row : MinedRecord}
    (henvelope : row.toEnvelope = line.record.toEnvelope) (hkind : row.bodyKind = .string)
    (hlossy : row.lossyFlag = false)
    (hcaptures : row.anyOverflow = false → Captures row template line.raw)
    (hsound : ∀ body, BoundRow line.raw template { row with body } →
      StringRow line.record line.raw adopted cluster { row with body }) :
    Yields line.record line.raw tokens adopted cluster
      [.record (cluster.applyOverflowRetention line row).1]
      (cluster.applyOverflowRetention line row).2 := by
  obtain ⟨hquiet, hrow⟩ := cluster.applyOverflowRetention_spec line row
  have hbound := cluster.boundRow_applyOverflowRetention line hlossy hcaptures
  rw [hrow] at hbound ⊢
  exact ⟨[], _, rfl, hquiet.moves line.record tokens, henvelope, hkind,
    (hsound _ hbound).of_quiet hquiet⟩

theorem emitBoundRecord_mined {template : List OwnedToken} {separators : List Text}
    {params : List Param} {templateId templateVersion : Nat}
    (hleaf : HoldsLeaf cluster line.record.tenantId templateId templateVersion template)
    (hcaptures : CapturedBy line.raw template separators params) :
    (cluster.emitBoundRecord line separators params templateId templateVersion).Yields line tokens
      none cluster := by
  refine yields_applyOverflowRetention line rfl rfl rfl (hcaptures _ rfl rfl) ?_
  exact fun _ => .mined rfl hleaf

theorem emitBoundRecord_adopted {parsed : UpstreamTemplate} {upstream : Text}
    {separators : List Text} {params : List Param} {templateId templateVersion : Nat}
    (hparsed : parseUpstream upstream = .ok parsed)
    (hentry : HoldsEntry cluster line.record.tenantId
      (canonicalKey line.record parsed.toOwnedTokens) templateId templateVersion)
    (hcaptures : CapturedBy line.raw parsed.toOwnedTokens separators params) :
    (cluster.emitBoundRecord line separators params templateId templateVersion).Yields line tokens
      (some parsed) cluster := by
  refine yields_applyOverflowRetention line rfl rfl rfl (hcaptures _ rfl rfl) ?_
  exact fun _ => .adopted hparsed rfl hentry

theorem emitFreshLeafRecord_yields {tokenized : Tokenized} {byteLimit newId : Nat}
    (htokenize : tokenize line.raw = .ok tokenized) (zone : FreshLeafZone)
    (hleaf : HoldsLeaf cluster line.record.tenantId newId 1
      (leafTemplate (mask tokenized.tokens))) :
    (cluster.emitFreshLeafRecord line (maskedParts env tokenized byteLimit) newId zone).Yields line
      tokenized.tokens none cluster := by
  have hcaptures := captures_fresh env htokenize byteLimit
  cases zone with
  | clean =>
    exact yields_applyOverflowRetention line rfl rfl rfl (hcaptures _ rfl rfl)
      fun _ => .mined rfl hleaf
  | lossy confidence =>
    have hquiet : Quiet cluster
        { cluster with bodyRetentionsTotal := cluster.bodyRetentionsTotal + 1 } :=
      ⟨rfl, rfl, rfl, rfl, rfl⟩
    exact Yields.after_moves (hquiet.moves line.record tokenized.tokens)
      (yields_applyOverflowRetention line rfl rfl rfl (hcaptures _ rfl rfl)
        fun _ => .mined rfl hleaf)

end Rows

/-- A tenant below its ceiling, seen or not. -/
theorem atCeiling_eq_false {maxTemplates : Nat}
    (hmax : (cluster.effectiveConfig line.record.tenantId).maxTemplates = maxTemplates)
    (hroom : ((cluster.tenants.lookup line.record.tenantId).map (·.atCeiling maxTemplates)).getD
      false = false) :
    (cluster.tenantOrNew line.record.tenantId).atCeiling
      (cluster.tenantOrNew line.record.tenantId).config.maxTemplates = false := by
  rw [tenantOrNew_config, hmax]
  unfold tenantOrNew
  cases hlookup : cluster.tenants.lookup line.record.tenantId with
  | none =>
    have hpos := (cluster.effectiveConfig line.record.tenantId).maxTemplates_pos
    simp [TenantState.atCeiling, TenantState.new]
    omega
  | some state => simpa [hlookup] using hroom

theorem mintFreshLeaf_yields {byteLimit maxTemplates : Nat}
    (htokenize : tokenize line.raw = .ok tokenized) (hnonempty : tokenized.tokens ≠ [])
    (hmax : (cluster.effectiveConfig line.record.tenantId).maxTemplates = maxTemplates)
    (zone : FreshLeafZone) :
    (cluster.mintFreshLeaf env line (mask tokenized.tokens) (maskedParts env tokenized byteLimit)
      observed zone maxTemplates).Yields line tokenized.tokens none cluster := by
  unfold mintFreshLeaf
  split
  · exact cluster.emitStringParseFailure_yields line _ _ _
  · rename_i hceiling
    have htokens : LineTokens tokenized.tokens := ⟨hnonempty, (tokenize_ok htokenize).2.2⟩
    have hroom := cluster.atCeiling_eq_false line hmax (by simpa using hceiling)
    generalize hcreate : cluster.createNewLeaf env line (mask tokenized.tokens) observed = created
    obtain ⟨created, after⟩ := created
    rcases cluster.createNewLeaf_spec env line htokens hroom hcreate with
      ⟨rfl, hmoves⟩ | ⟨newId, event, rfl, hmoves, hleaf⟩
    · exact Yields.after_moves hmoves (emitStringParseFailure_yields after line _ _ _)
    · exact Yields.after_moves hmoves (emitFreshLeafRecord_yields env line htokenize zone hleaf)

/-! ### Attaching -/

/-- Emitting changes stamps them in order and counts the merges among them. -/
theorem emitChanges_spec (templateId : Nat) (changes : List TemplateChange) :
    ∃ events, (emitChanges env line templateId cluster changes).1 = events.map Emission.audit ∧
      Announces line.record.tenantId (changes.map fun change => (templateId, change)) events ∧
      Quiet { cluster with mergesTotal :=
          cluster.mergesTotal + countMerges (changes.map fun change => (templateId, change)) }
        (emitChanges env line templateId cluster changes).2 := by
  induction changes generalizing cluster with
  | nil => exact ⟨[], rfl, ⟨rfl, by simp⟩, rfl, rfl, rfl, rfl, rfl⟩
  | cons change changes ih =>
    obtain ⟨event, hevent, hid, htenant⟩ : ∃ event : AuditEvent,
        (cluster.emitTemplateChange env line templateId change).1 = .audit event ∧
        (event.templateId, event.change) = (templateId, change) ∧
        event.tenantId = line.record.tenantId := ⟨_, rfl, rfl, rfl⟩
    let stamped := (cluster.emitTemplateChange env line templateId change).2
    let next := if change.countsAsMerge then
      { stamped with mergesTotal := stamped.mergesTotal + 1 } else stamped
    have hnext : Quiet { cluster with mergesTotal :=
        cluster.mergesTotal + if change.countsAsMerge then 1 else 0 } next := by
      by_cases hmerge : change.countsAsMerge = true
      · simp only [next, hmerge, if_true]
        exact ⟨rfl, rfl, rfl, rfl, rfl⟩
      · simp only [next, hmerge]
        exact ⟨rfl, rfl, rfl, rfl, rfl⟩
    obtain ⟨events, hevents, ⟨hchanges, htenants⟩, hquiet⟩ := ih next
    refine ⟨event :: events, congrArg₂ List.cons hevent hevents, ⟨?_, ?_⟩, .trans ?_ hquiet⟩
    · simp [hchanges, hid]
    · simpa [htenant] using htenants
    · refine ⟨hnext.config, hnext.tenantOverrides, hnext.tenants, hnext.ids, ?_⟩
      simp only [countMerges, List.map_cons, List.countP_cons, hnext.mergesTotal]
      omega

theorem stored_moveMinedCanonical (record : OtlpLogRecord) (state : TenantState)
    (changes : List TemplateChange) :
    Stored cluster record.tenantId none (state.moveCanonical record changes) 0
      ((cluster.setTenant record.tenantId state).moveMinedCanonical record changes) := by
  have hstate : (cluster.setTenant record.tenantId state).tenants.lookup record.tenantId =
    some state := AList.lookup_insert _
  unfold moveMinedCanonical TenantState.moveCanonical
  cases widenedMove changes with
  | none => exact cluster.stored_setTenant .nothing _ _
  | some texts =>
    simp only [hstate]
    exact cluster.stored_setTenant_twice .nothing _ _ _

/-- Rewriting one leaf and announcing its changes is one move, after which the
tenant holds the rewritten leaf. -/
private theorem attach_move (observed : Option Text) {leaf : Leaf} {leafIdx : Nat}
    {changes : List TemplateChange}
    (hstate : cluster.tenants.lookup line.record.tenantId = some state)
    (htokens : LineTokens tokens) (hleaf : (state.leavesFor (mask tokens))[leafIdx]? = some leaf)
    (hseverity : leaf.severityNumber = line.record.severityNumber)
    (hscope : leaf.scopeName = line.record.scopeName)
    (hevolves : Evolves leaf.templateVersion leaf.template changes
      (leaf.attached tokens changes.length).templateVersion
      (leaf.attached tokens changes.length).template)
    (hafter : after = (cluster.setTenant line.record.tenantId
      (state.withLeavesFor (mask tokens) (·.set leafIdx
        ((leaf.attached tokens changes.length).associateUpstream observed
          state.config.upstreamAssociationLimit)))).moveMinedCanonical line.record changes) :
    ∃ events, (emitChanges env line leaf.templateId after changes).1 = events.map Emission.audit ∧
      Moves (ClusterMove line.record tokens) cluster events
        (emitChanges env line leaf.templateId after changes).2 ∧
      HoldsLeaf (emitChanges env line leaf.templateId after changes).2 line.record.tenantId
        leaf.templateId (leaf.attached tokens changes.length).templateVersion
        (leaf.attached tokens changes.length).template := by
  let attached := (leaf.attached tokens changes.length).associateUpstream observed
    state.config.upstreamAssociationLimit
  let written := state.withLeavesFor (mask tokens) (·.set leafIdx attached)
  have hstored := cluster.stored_moveMinedCanonical line.record written changes
  rw [← show after = _ from hafter] at hstored
  obtain ⟨events, hevents, hannounce, hquiet⟩ :=
    after.emitChanges_spec env line leaf.templateId changes
  have hmove : TenantMove line.record tokens none (cluster.tenantOrNew line.record.tenantId)
      (changes.map fun change => (leaf.templateId, change))
      (written.moveCanonical line.record changes) := by
    rw [tenantOrNew_of_lookup hstate]
    exact .attach changes observed htokens hleaf hseverity hscope hevolves
  refine ⟨events, hevents, Moves.single (.commit hmove ⟨hquiet.config.trans hstored.config,
    hquiet.tenantOverrides.trans hstored.tenantOverrides, ?_, ?_, ?_⟩ hannounce), ?_⟩
  · intro tenant
    rw [hquiet.tenants, hstored.lookup]
  · rw [hquiet.ids]
    exact hstored.ids
  · rw [hquiet.mergesTotal, hstored.mergesTotal]
    rfl
  · obtain ⟨rest, -, hset⟩ := state.collectLeaves_set (mask tokens) hleaf
    refine ⟨written.moveCanonical line.record changes, attached, ?_, ?_,
      by simp [attached, Leaf.attached], by simp [attached], by simp [attached]⟩
    · rw [hquiet.tenants, hstored.lookup, if_pos rfl]
    · rw [TenantState.tree_moveCanonical]
      exact (hset attached).mem_iff.mpr List.mem_cons_self

theorem attachAndMaybeWiden_yields {leaf : Leaf} {byteLimit : Nat} (params : List Param)
    (htokenize : tokenize line.raw = .ok tokenized) (hnonempty : tokenized.tokens ≠ [])
    (hstate : cluster.tenants.lookup line.record.tenantId = some state)
    (hleaf : (state.leavesFor (mask tokenized.tokens))[candidate.leafIdx]? = some leaf)
    (hseverity : leaf.severityNumber = line.record.severityNumber)
    (hscope : leaf.scopeName = line.record.scopeName)
    (hlen : leaf.template.length = tokenized.tokens.length) (hslots : leaf.SlotsAligned) :
    (cluster.attachAndMaybeWiden env line (mask tokenized.tokens) candidate byteLimit observed
      ⟨tokenized.separators, params⟩).Yields line tokenized.tokens none cluster := by
  have htokens : LineTokens tokenized.tokens := ⟨hnonempty, (tokenize_ok htokenize).2.2⟩
  have hplanned := planned_planAttach env byteLimit hlen hslots
  unfold attachAndMaybeWiden
  simp only [hstate, hleaf]
  generalize planAttach env leaf (mask tokenized.tokens) byteLimit = result at hplanned
  obtain ⟨plan, planned⟩ := result
  dsimp only at hplanned
  cases hplanned with
  | reused hsame =>
    have hevolves : Evolves leaf.templateVersion leaf.template []
        (leaf.attached tokenized.tokens 0).templateVersion
        (leaf.attached tokenized.tokens 0).template := by
      rw [hsame]
      exact .refl _ _
    obtain ⟨events, hevents, hmoves, hholds⟩ := attach_move env cluster line observed hstate
      htokens hleaf hseverity hscope hevolves rfl
    obtain rfl : events = [] := by simpa [emitChanges] using hevents
    have htemplate : widenTemplate tokenized.tokens leaf.template = leaf.template :=
      congrArg Leaf.template hsame
    simp only [List.length_nil, hsame] at hmoves hholds
    refine Yields.after_moves hmoves (emitBoundRecord_mined line hholds ?_)
    have hcaptures := captures_attached env byteLimit htokenize hlen
    rwa [htemplate] at hcaptures
  | rejected wouldBeTemplate wouldBePositions =>
    obtain ⟨event, hevent, hmoves⟩ := announce_move env line
      (tenantOrNew_of_lookup hstate) (.reject wouldBeTemplate wouldBePositions hleaf)
      (cluster.stored_setTenant .nothing _ _) rfl
    have := Yields.after_moves hmoves
      (emitStringParseFailure_yields _ line ⟨tokenized.separators, params⟩ _ none)
    rwa [List.map_singleton, ← hevent] at this
  | mutated changes hevolves =>
    obtain ⟨events, hevents, hmoves, hholds⟩ := attach_move env cluster line observed hstate
      htokens hleaf hseverity hscope hevolves rfl
    have := Yields.after_moves hmoves (emitBoundRecord_mined line hholds
      (captures_attached env byteLimit htokenize hlen))
    rwa [← hevents] at this

/-! ### Adopting -/

/-- What resolving an upstream shape can return. The event of a first adoption is
still to be emitted, so that move is only stored. -/
inductive Resolved (record : OtlpLogRecord) (tokens : List Text) (template : List OwnedToken)
    (before : MinerCluster) : AdoptResolution → MinerCluster → Prop
  | known {templateId templateVersion : Nat} {after : MinerCluster}
      (hmoves : Moves (ClusterMove record tokens) before [] after)
      (hentry : HoldsEntry after record.tenantId (canonicalKey record template) templateId
        templateVersion) :
      Resolved record tokens template before (.existing templateId templateVersion) after
  | onLeaf {templateId templateVersion : Nat} {state : TenantState} {after : MinerCluster}
      (hmove : TenantMove record tokens none (before.tenantOrNew record.tenantId)
        [(templateId, .adopted templateVersion (formatTemplate template))] state)
      (hstored : Stored before record.tenantId none state 0 after)
      (hentry : HoldsEntry after record.tenantId (canonicalKey record template) templateId
        templateVersion) :
      Resolved record tokens template before (.firstOnLeaf templateId templateVersion) after
  | interned {templateId : Nat} {state : TenantState} {after : MinerCluster}
      (hmove : TenantMove record tokens (some templateId) (before.tenantOrNew record.tenantId)
        [(templateId, .adopted 1 (formatTemplate template))] state)
      (hstored : Stored before record.tenantId (some templateId) state 0 after)
      (hentry : HoldsEntry after record.tenantId (canonicalKey record template) templateId 1) :
      Resolved record tokens template before (.interned templateId) after
  | ceiling {after : MinerCluster} (hmoves : Moves (ClusterMove record tokens) before [] after) :
      Resolved record tokens template before .ceiling after
  | noId {after : MinerCluster} (hmoves : Moves (ClusterMove record tokens) before [] after) :
      Resolved record tokens template before .noId after

theorem moves_of_stored
    (hmove : TenantMove record tokens none (cluster.tenantOrNew record.tenantId) [] state)
    (hstored : Stored cluster record.tenantId none state 0 after) :
    Moves (ClusterMove record tokens) cluster [] after :=
  Moves.single (.commit hmove hstored ⟨rfl, by simp⟩)

theorem resolved_resolveAdoption (tokens : List Text) (record : OtlpLogRecord) (upstream : Text)
    (template : List OwnedToken) (hconfig : cluster.effectiveConfig record.tenantId = config)
    (hmode : config.upstreamTemplates = .adopt) :
    Resolved record tokens template cluster
      (cluster.resolveAdoption record upstream template (canonicalKey record template) config).1
      (cluster.resolveAdoption record upstream template (canonicalKey record template) config).2
        := by
  have hheld : (cluster.tenants.lookup record.tenantId).getD (TenantState.new config) =
      cluster.tenantOrNew record.tenantId := by
    rw [tenantOrNew, hconfig]
  have hstateConfig : (cluster.tenantOrNew record.tenantId).config = config := by
    rw [tenantOrNew_config, hconfig]
  unfold resolveAdoption
  simp only [hheld]
  generalize hstate : cluster.tenantOrNew record.tenantId = state at hstateConfig
  subst hstateConfig
  have hopened := cluster.stored_setTenant .nothing record.tenantId state
  have hopen : Moves (ClusterMove record tokens) cluster []
      (cluster.setTenant record.tenantId state) :=
    moves_of_stored cluster (hstate ▸ .opened _) hopened
  have hstored := cluster.stored_setTenant_twice .nothing record.tenantId state
  cases hadopted : state.adoptedTemplates.lookup (canonicalKey record template) with
  | some entry =>
    cases entry with
    | treeBacked templateId templateVersion =>
      exact .known hopen ⟨state, _, AList.lookup_insert _, hadopted, rfl, rfl⟩
    | owned owned =>
      have hmove : TenantMove record tokens none state [] _ := .observeOwned upstream hadopted hmode
      exact .known (moves_of_stored cluster (hstate ▸ hmove) (hstored _))
        ⟨_, _, AList.lookup_insert _, AList.lookup_insert _, rfl, rfl⟩
  | none =>
    dsimp only
    split
    · rename_i leaf hhit
      have hexact : state.tree.findExact template record.severityNumber record.scopeName =
          some leaf := by
        split at hhit
        · exact hhit
        · cases hhit
      have hmove : TenantMove record tokens none state _ _ :=
        .adoptLeaf template hadopted hexact hmode
      by_cases hfirst : Provenance.upstreamDerived ∈ leaf.provenance
      · simp only [hfirst, decide_true, Bool.not_true, Bool.false_eq_true, if_false]
        rw [if_pos hfirst] at hmove
        exact .known (moves_of_stored cluster (hstate ▸ hmove) (hstored _))
          ⟨_, _, AList.lookup_insert _, AList.lookup_insert _, rfl, rfl⟩
      · simp only [hfirst, decide_false, Bool.not_false, if_true]
        rw [if_neg hfirst] at hmove
        exact .onLeaf (hstate ▸ hmove) (hstored _)
          ⟨_, _, AList.lookup_insert _, AList.lookup_insert _, rfl, rfl⟩
    · split
      · exact .ceiling hopen
      · rename_i hceiling
        have hroom : state.atCeiling state.config.maxTemplates = false := by simpa using hceiling
        cases htake : cluster.ids.take with
        | mk taken ids =>
          have htake' : (cluster.setTenant record.tenantId state).ids.take = (taken, ids) := htake
          cases taken with
          | none =>
            simp only [htake']
            exact .noId (hopen.trans (Moves.single (.quiet rfl rfl rfl (.failed htake) rfl)))
          | some newId =>
            simp only [htake']
            have hmove : TenantMove record tokens (some newId) state _ _ :=
              .intern newId template upstream hadopted hroom hmode
            have htaken := cluster.stored_setTenant_twice (.taken htake) record.tenantId state
            exact .interned (hstate ▸ hmove) (htaken _)
              ⟨_, _, AList.lookup_insert _, AList.lookup_insert _, rfl, rfl⟩

/-- An adopted line is bound to the shape its attribute parses to; a line that was
not adopted changes no template. -/
theorem tryAdopt_spec {upstream : Text} {masked : Masked}
    (hconfig : cluster.effectiveConfig line.record.tenantId = config)
    (hmode : config.upstreamTemplates = .adopt) {result : Option (Nat × List Emission)}
    (h : cluster.tryAdopt env line upstream masked config = (result, after)) :
    (result = none ∧ Moves (ClusterMove line.record tokens) cluster [] after) ∨
      ∃ templateId emitted parsed, result = some (templateId, emitted) ∧
        parseUpstream upstream = .ok parsed ∧
        Yields line.record line.raw tokens (some parsed) cluster emitted after := by
  unfold tryAdopt at h
  split at h
  · cases h
    exact .inl ⟨rfl, .refl _⟩
  · cases hparsed : parseUpstream upstream with
    | error error =>
      simp only [hparsed, Prod.mk.injEq] at h
      obtain ⟨rfl, rfl⟩ := h
      exact .inl ⟨rfl, .refl _⟩
    | ok parsed =>
      cases halign : align parsed line.raw with
      | error error =>
        simp only [hparsed, halign, Prod.mk.injEq] at h
        obtain ⟨rfl, rfl⟩ := h
        exact .inl ⟨rfl, .refl _⟩
      | ok alignment =>
        simp only [hparsed, halign] at h
        have hcaptures := captures_adopted env halign masked config.paramByteLimit
        have hresolved := cluster.resolved_resolveAdoption tokens line.record upstream
          parsed.toOwnedTokens hconfig hmode
        unfold canonicalKey at hresolved
        generalize cluster.resolveAdoption line.record upstream parsed.toOwnedTokens
          (formatTemplate parsed.toOwnedTokens, line.record.severityNumber,
            line.record.scopeName) config = resolution at h hresolved
        obtain ⟨resolution, stored⟩ := resolution
        cases hresolved with
        | ceiling hmoves | noId hmoves =>
          cases h
          exact .inl ⟨rfl, hmoves⟩
        | known hmoves hentry =>
          cases h
          exact .inr ⟨_, _, parsed, rfl, rfl, Yields.after_moves hmoves
            (emitBoundRecord_adopted line hparsed hentry hcaptures)⟩
        | onLeaf hmove hstored hentry | interned hmove hstored hentry =>
          obtain ⟨event, hevent, hmoves⟩ := announce_move env line rfl hmove hstored rfl
          cases h
          refine .inr ⟨_, _, parsed, rfl, rfl, ?_⟩
          have := Yields.after_moves hmoves
            (emitBoundRecord_adopted line hparsed hentry hcaptures)
          rwa [List.map_singleton, ← hevent] at this

/-! ### The whole ingest -/

/-- The best candidate is one of those searched. -/
theorem mem_of_pickBest {candidates : List Candidate} (h : pickBest candidates = some candidate) :
    candidate ∈ candidates := by
  refine List.foldlRecOn candidates pickBetter
    (motive := fun best => ∀ picked, best = some picked → picked ∈ candidates)
    (by simp) ?_ candidate h
  intro best hbest next hnext picked hpicked
  cases best with
  | none =>
    cases hpicked
    exact hnext
  | some held =>
    unfold pickBetter at hpicked
    dsimp only at hpicked
    split at hpicked
    · exact hbest picked hpicked
    · cases hpicked
      exact hnext

/-- A candidate names a leaf at the line's place with the record's severity and
scope. -/
theorem findBestCandidate_some {masked : Masked}
    (h : state.findBestCandidate record masked = some candidate) :
    ∃ leaf, (state.leavesFor masked)[candidate.leafIdx]? = some leaf ∧
      leaf.severityNumber = record.severityNumber ∧ leaf.scopeName = record.scopeName := by
  obtain ⟨node, hnode, hbest⟩ := Option.bind_eq_some_iff.mp h
  obtain ⟨entry, hentry, rfl⟩ := List.mem_map.mp (mem_of_pickBest hbest)
  obtain ⟨hzip, hmatch⟩ := List.mem_filter.mp hentry
  simp only [Bool.and_eq_true, beq_iff_eq] at hmatch
  have hat := List.mem_zipIdx_iff_getElem?.mp hzip
  rw [Tree.bucket_of_descend hnode] at hat
  exact ⟨entry.1, hat, hmatch.1, hmatch.2⟩

theorem mineLine_yields (byteLimit : Nat) (hwf : cluster.WellFormed)
    (htokenize : tokenize line.raw = .ok tokenized) (hnonempty : tokenized.tokens ≠ [])
    (hconfig : cluster.effectiveConfig line.record.tenantId = config) :
    (cluster.mineLine env line (mask tokenized.tokens) (maskedParts env tokenized byteLimit)
      config).Yields line tokenized.tokens none cluster := by
  have hmint := @cluster.mintFreshLeaf_yields env line
  have hmax := congrArg MinerConfig.maxTemplates hconfig
  unfold mineLine
  split
  · exact hmint htokenize hnonempty hmax _
  · rename_i candidate hcandidate
    split
    · obtain ⟨state, hstate, hbest⟩ := Option.bind_eq_some_iff.mp hcandidate
      obtain ⟨leaf, hleaf, hseverity, hscope⟩ := findBestCandidate_some hbest
      obtain ⟨hlen, hslots⟩ := (hwf.tenant _ _ hstate).leaf _
        (state.placed_of_mem_leavesFor _ (List.mem_of_getElem? hleaf))
      refine cluster.attachAndMaybeWiden_yields env line _ htokenize hnonempty hstate hleaf
        hseverity hscope (hlen.trans ?_) hslots
      simp [TenantState.placeFor, Tree.placeOf]
    · exact hmint htokenize hnonempty hmax _
    · exact hmint htokenize hnonempty hmax _

/-- The upstream template adoption takes a tokenized line for, where it does. -/
def adoptedFor (tokenized : Tokenized) : Option UpstreamTemplate :=
  let config := cluster.effectiveConfig line.record.tenantId
  match (if config.upstreamTemplates = .adopt then upstreamRaw config line.record else none) with
  | none => none
  | some upstream =>
    match cluster.tryAdopt env line upstream (mask tokenized.tokens) config with
    | (some _, _) => (parseUpstream upstream).toOption
    | (none, _) => none

theorem unminedRow_yields (hquiet : Quiet cluster after) (separators : List Text)
    (adopted : Option UpstreamTemplate) :
    Yields line.record line.raw tokens adopted cluster [.record (unminedRow line separators)]
      after :=
  ⟨[], _, rfl, hquiet.moves line.record tokens, rfl, rfl, .retained rfl rfl rfl⟩

theorem ingestTokenized_yields (hwf : cluster.WellFormed)
    (htokenize : tokenize line.raw = .ok tokenized) :
    (cluster.ingestTokenized env line tokenized).Yields line tokenized.tokens
      (cluster.adoptedFor env line tokenized) cluster := by
  unfold ingestTokenized
  dsimp only
  split
  · exact cluster.unminedRow_yields line cluster.quiet_recordParseFailure _ _
  · rename_i hempty
    have hnonempty : tokenized.tokens ≠ [] := by
      rintro hnil
      simp [hnil] at hempty
    split
    · exact cluster.emitStringParseFailure_yields line _ _ _
    · unfold adoptedFor
      dsimp only
      generalize hoffered :
        (if (cluster.effectiveConfig line.record.tenantId).upstreamTemplates = .adopt then
          upstreamRaw (cluster.effectiveConfig line.record.tenantId) line.record
        else none) = offered
      cases offered with
      | none => exact cluster.mineLine_yields env line _ hwf htokenize hnonempty rfl
      | some upstream =>
        dsimp only
        have hmode : (cluster.effectiveConfig line.record.tenantId).upstreamTemplates = .adopt := by
          by_contra hother
          rw [if_neg hother] at hoffered
          cases hoffered
        generalize htry : cluster.tryAdopt env line upstream (mask tokenized.tokens)
          (cluster.effectiveConfig line.record.tenantId) = attempt
        obtain ⟨result, after⟩ := attempt
        rcases cluster.tryAdopt_spec env line rfl hmode htry with
          ⟨rfl, hmoves⟩ | ⟨templateId, emitted, parsed, rfl, hparsed, hyields⟩
        · have hconfig := effectiveConfig_of_moves hmoves line.record.tenantId
          have hmined := after.mineLine_yields env line
            (cluster.effectiveConfig line.record.tenantId).paramByteLimit
            (wellFormed_of_moves hmoves hwf) htokenize hnonempty hconfig
          exact Yields.after_moves hmoves hmined
        · simp only [hparsed]
          exact hyields

end MinerCluster

/-- The tokens of a record's line; a record without a tokenizable string has none. -/
def lineTokens (record : OtlpLogRecord) : List Text :=
  match record.body with
  | some (.string raw) =>
    match tokenize raw with
    | .ok tokenized => tokenized.tokens
    | .error _ => []
  | _ => []

/-- The upstream template adoption takes a record for, where it does. -/
def MinerCluster.adoptedTemplate (record : OtlpLogRecord) : Option UpstreamTemplate :=
  match record.body with
  | some (.string raw) =>
    match tokenize raw with
    | .ok tokenized => cluster.adoptedFor env ⟨record, raw⟩ tokenized
    | .error _ => none
  | _ => none

inductive IngestedRow (record : OtlpLogRecord) (adopted : Option UpstreamTemplate)
    (after : MinerCluster) (row : MinedRecord) : Prop
  | absent (hkind : row.bodyKind = .absent) (hid : row.templateId = noTemplate)
  | structured (hkind : row.bodyKind = .structured)
      (hid : row.templateId = noTemplate ∨ ∃ state,
        after.tenants.lookup record.tenantId = some state ∧
          row.templateId ∈ state.structuredIds)
  | string {raw : Text} (hbody : record.body = some (.string raw)) (hkind : row.bodyKind = .string)
      (hrow : StringRow record raw adopted after row)

namespace MinerCluster

variable (env : Environment) (cluster : MinerCluster)

theorem structuredTemplateId_spec (record : OtlpLogRecord) (tokens : List Text) :
    Moves (ClusterMove record tokens) cluster [] (cluster.structuredTemplateId record).2 ∧
      ((cluster.structuredTemplateId record).1 = noTemplate ∨ ∃ state,
        (cluster.structuredTemplateId record).2.tenants.lookup record.tenantId = some state ∧
          (cluster.structuredTemplateId record).1 ∈ state.structuredIds) := by
  unfold structuredTemplateId
  dsimp only
  split
  · rename_i existingId hexisting
    obtain ⟨state, hstate, hlookup⟩ := Option.bind_eq_some_iff.mp hexisting
    refine ⟨.refl _, .inr ⟨state, hstate, ?_⟩⟩
    exact List.mem_flatMap.mpr ⟨⟨_, existingId⟩, AList.mem_lookup_iff.mp hlookup, by simp⟩
  · rename_i hmissing
    have hnone : (cluster.tenantOrNew record.tenantId).structuredTemplates.lookup
        (record.severityNumber, record.scopeName, record.eventName) = none := by
      unfold tenantOrNew
      cases hstate : cluster.tenants.lookup record.tenantId with
      | none => rfl
      | some state => simpa [hstate] using hmissing
    split
    · rename_i ids htake
      exact ⟨Moves.single (.quiet rfl rfl rfl (.failed htake) rfl), .inl rfl⟩
    · rename_i newId ids htake
      have hmove : TenantMove record tokens (some newId) _ [] _ := .structured newId hnone
      refine ⟨Moves.single (.commit hmove (cluster.stored_setTenant (.taken htake) _ _)
        ⟨rfl, by simp⟩), .inr ⟨_, AList.lookup_insert _, ?_⟩⟩
      exact List.mem_flatMap.mpr ⟨⟨_, newId⟩, List.mem_cons_self, by simp⟩

/-- Every ingest is a sequence of moves and one row. -/
theorem ingest_spec (hwf : cluster.WellFormed) (record : OtlpLogRecord) :
    ∃ events row,
      (cluster.ingest env record).emitted = events.map Emission.audit ++ [.record row] ∧
      Moves (ClusterMove record (lineTokens record)) cluster events
        (cluster.ingest env record).cluster ∧
      row.toEnvelope = record.toEnvelope ∧
      IngestedRow record (cluster.adoptedTemplate env record) (cluster.ingest env record).cluster
        row := by
  have hstring : ∀ {raw : Text} {adopted : Option UpstreamTemplate} {emitted : List Emission}
      {after : MinerCluster}, record.body = some (.string raw) →
      Yields record raw (lineTokens record) adopted cluster emitted after →
      ∃ events row, emitted = events.map Emission.audit ++ [.record row] ∧
        Moves (ClusterMove record (lineTokens record)) cluster events after ∧
        row.toEnvelope = record.toEnvelope ∧ IngestedRow record adopted after row := by
    rintro raw adopted emitted after hbody
      ⟨events, row, hemitted, hmoves, henvelope, hkind, hrow⟩
    exact ⟨events, row, hemitted, hmoves, henvelope, .string hbody hkind hrow⟩
  cases hbody : record.body with
  | none =>
    simp only [ingest, hbody]
    exact ⟨[], _, rfl, .refl _, rfl, .absent rfl rfl⟩
  | some body =>
    cases body with
    | string raw =>
      cases htokenize : tokenize raw with
      | error error =>
        have hquiet : Quiet cluster
            { cluster with parseFailuresTotal := cluster.parseFailuresTotal + 1 } :=
          ⟨rfl, rfl, rfl, rfl, rfl⟩
        simp only [ingest, ingestString, adoptedTemplate, hbody, htokenize]
        exact hstring hbody (cluster.unminedRow_yields ⟨record, raw⟩ hquiet [] none)
      | ok tokenized =>
        have htokens : lineTokens record = tokenized.tokens := by
          simp [lineTokens, hbody, htokenize]
        have hyields := cluster.ingestTokenized_yields env ⟨record, raw⟩ hwf htokenize
        simp only [ingest, ingestString, adoptedTemplate, hbody, htokenize]
        refine hstring hbody ?_
        rw [htokens]
        exact hyields
    | structured value =>
      obtain ⟨hmoves, hid⟩ := cluster.structuredTemplateId_spec record (lineTokens record)
      simp only [ingest, ingestStructured, hbody]
      generalize cluster.structuredTemplateId record = assigned at hmoves hid
      have hquiet : Quiet assigned.2
          (if assigned.1 = noTemplate then assigned.2.recordParseFailure else assigned.2) := by
        split
        · exact quiet_recordParseFailure _
        · exact .refl _
      refine ⟨[], _, rfl, hmoves.trans (hquiet.moves record _), rfl, .structured rfl ?_⟩
      rw [hquiet.tenants]
      exact hid

end MinerCluster

end Ourios.Miner
