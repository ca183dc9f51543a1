/-
# The attach algebra

The pure half of an attach (`cluster/plan.rs` and `overflow.rs`): which fixed
positions a line would widen, whether that leaves a template with no fixed
token, what the widened leaf looks like, and the parameters of the emitted row.
Position lists are walked exactly as the source walks them, with one cursor per
list.
-/

import Ourios.Miner.Mask
import Ourios.Miner.Tree
import Ourios.Miner.Upstream

namespace Ourios.Miner

/-- Code outside the repository that the miner calls: the two hash functions, the
canonical JSON encoder, and the clock, by how often it has been read. -/
structure Environment where
  /-- First eight bytes of SHA-256, in hexadecimal. -/
  sha256Prefix : Text → Text
  /-- First sixteen bytes of BLAKE3. -/
  hashTriggeringLine : Text → List Nat
  encodeAnyValue : AnyValue → Text
  clock : Nat → Int

/-- The attribute that carries an upstream template. -/
def logRecordTemplateAttr : Text := "log.record.template".toList

variable (env : Environment)

/-- Replace a value over the byte limit by an overflow marker. -/
def capParamValue (typeTag : ParamType) (value : Text) (byteLimit : Nat) : Param :=
  if value.byteLen ≤ byteLimit then ⟨typeTag, value⟩
  else
    ⟨.overflow, "OVERFLOW(length=".toList ++ Text.ofNat (min value.byteLen (2 ^ 32 - 1)) ++
      ",sha256=".toList ++ env.sha256Prefix value ++ [')']⟩

/-- The masker's parameters, capped. -/
def paramsFromMask (typedParams : List TypedParam) (byteLimit : Nat) : List Param :=
  typedParams.map fun p => capParamValue env p.typeTag p.value byteLimit

/-- The nonempty string a record's template attribute holds. -/
def upstreamTemplateOf (record : OtlpLogRecord) : Option Text :=
  match record.attributes.find? (fun kv => kv.key == logRecordTemplateAttr) with
  | some kv =>
    match kv.value with
    | some (.string s) => if s.isEmpty then none else some s
    | _ => none
  | none => none

/-- A fresh leaf's template, from position `p` on: a wildcard wherever the masker
masked. -/
def leafTemplateFrom (p : Nat) : List Text → List Nat → List OwnedToken
  | [], _ => []
  | token :: strs, positions =>
    if positions.head? = some p then .wildcard :: leafTemplateFrom (p + 1) strs positions.tail
    else .fixed token :: leafTemplateFrom (p + 1) strs positions

def leafTemplate (masked : Masked) : List OwnedToken :=
  leafTemplateFrom 0 masked.tokens masked.wildcardPositions

def wildcardBodyPositions (template : UpstreamTemplate) : List Nat :=
  (template.tokens.zipIdx.filter fun entry => entry.1.toOwned.isWildcard).map Prod.snd

def adoptedRowParts (parsed : UpstreamTemplate) (alignment : Alignment)
    (masked : Masked) (paramByteLimit : Nat) : List Param × List Text :=
  ((alignment.params.zip (wildcardBodyPositions parsed)).map fun entry =>
      capParamValue env
        (paramTypeForLinePosition entry.2 masked.wildcardPositions masked.typedParams)
        entry.1.value paramByteLimit,
    alignment.separators)

/-- Insert the slots of freshly widened wildcards, from position `p` and slot
`ordinal` on. -/
def updateSlotTypesFrom (masked : Masked) (p ordinal : Nat) (slotTypes : List SlotTypes) :
    List OwnedToken → List Nat → List SlotTypes
  | [], _ => slotTypes
  | .fixed _ :: template, widened =>
    updateSlotTypesFrom masked (p + 1) ordinal slotTypes template widened
  | .wildcard :: template, widened =>
    if widened.head? = some p then
      let initial := (SlotTypes.singleton .str).insert
        (paramTypeForLinePosition p masked.wildcardPositions masked.typedParams)
      updateSlotTypesFrom masked (p + 1) (ordinal + 1) (slotTypes.insertIdx ordinal initial)
        template widened.tail
    else updateSlotTypesFrom masked (p + 1) (ordinal + 1) slotTypes template widened

def updateSlotTypesOnWidening (masked : Masked) (slotTypes : List SlotTypes)
    (postWidenTemplate : List OwnedToken) (positionsWidened : List Nat) : List SlotTypes :=
  updateSlotTypesFrom masked 0 0 slotTypes postWidenTemplate positionsWidened

/-- The slots that see a new type, from position `p` and slot `ordinal` on. -/
def collectTypeExpansionsFrom (masked : Masked) (slotTypes : List SlotTypes) (p ordinal : Nat) :
    List OwnedToken → List Nat → List SlotExpansion
  | [], _ => []
  | .fixed _ :: template, skip =>
    collectTypeExpansionsFrom masked slotTypes (p + 1) ordinal template skip
  | .wildcard :: template, skip =>
    if skip.head? = some p then
      collectTypeExpansionsFrom masked slotTypes (p + 1) (ordinal + 1) template skip.tail
    else
      let lineType := paramTypeForLinePosition p masked.wildcardPositions masked.typedParams
      let later := collectTypeExpansionsFrom masked slotTypes (p + 1) (ordinal + 1) template skip
      if (slotTypes.getD ordinal .new).contains lineType then later
      else ⟨ordinal, [lineType]⟩ :: later

/-- The slots of a template that see a new type. -/
def collectTypeExpansions (masked : Masked) (template : List OwnedToken)
    (slotTypes : List SlotTypes) (skipPositions : List Nat) : List SlotExpansion :=
  collectTypeExpansionsFrom masked slotTypes 0 0 template skipPositions

def applyTypeExpansions (slotTypes : List SlotTypes) (expansions : List SlotExpansion) :
    List SlotTypes :=
  expansions.foldl (fun slots expansion =>
    slots.modify expansion.slotIndex fun set => expansion.addedTypes.foldl SlotTypes.insert set)
    slotTypes

/-- The parameters of a row, aligned with a template's wildcards, from position
`p` on. `positions` and `typed` are the masker's entries not yet used. -/
def buildRecordParamsFrom (env : Environment) (byteLimit p : Nat) :
    List OwnedToken → List Text → List Nat → List TypedParam → List Param
  | .wildcard :: template, token :: strs, positions, typed =>
    match typed with
    | param :: later =>
      if positions.head? = some p then
        capParamValue env param.typeTag param.value byteLimit ::
          buildRecordParamsFrom env byteLimit (p + 1) template strs positions.tail later
      else
        capParamValue env .str token byteLimit ::
          buildRecordParamsFrom env byteLimit (p + 1) template strs positions typed
    | [] =>
      capParamValue env .str token byteLimit ::
        buildRecordParamsFrom env byteLimit (p + 1) template strs positions typed
  | .fixed _ :: template, _ :: strs, positions, typed =>
    buildRecordParamsFrom env byteLimit (p + 1) template strs positions typed
  | _, _, _, _ => []

def buildRecordParams (template : List OwnedToken) (masked : Masked)
    (byteLimit : Nat) : List Param :=
  buildRecordParamsFrom env byteLimit 0 template masked.tokens masked.wildcardPositions
    masked.typedParams

/-- The fixed positions a line disagrees with, from position `i` on. -/
def findWideningPositionsFrom (wildcardPositions : List Nat) (i : Nat) :
    List Text → List OwnedToken → List Nat
  | token :: line, slot :: template =>
    let later := findWideningPositionsFrom wildcardPositions (i + 1) line template
    if positionMatches wildcardPositions i token slot then later else i :: later
  | _, _ => []

/-- The fixed positions a line disagrees with. -/
def findWideningPositions (line : List Text) (template : List OwnedToken)
    (wildcardPositions : List Nat) : List Nat :=
  findWideningPositionsFrom wildcardPositions 0 line template

/-- Whether widening would leave no fixed token, from position `i` on. -/
def wouldBeDegenerateFrom (i : Nat) : List OwnedToken → List Nat → Bool
  | [], _ => true
  | .wildcard :: template, widened => wouldBeDegenerateFrom (i + 1) template widened
  | .fixed _ :: template, widened =>
    if widened.head? = some i then wouldBeDegenerateFrom (i + 1) template widened.tail else false

/-- Whether widening would leave no fixed token. -/
def wouldBeDegenerate (template : List OwnedToken) (positionsWidened : List Nat) : Bool :=
  wouldBeDegenerateFrom 0 template positionsWidened

/-- Turn the given positions into wildcards. -/
def applyWidening (template : List OwnedToken) (positions : List Nat) : List OwnedToken :=
  positions.foldl (fun tokens position => tokens.set position .wildcard) template

/-- What an attach does to the leaf it is planned on. -/
inductive AttachPlan
  | cleanReuse (templateId templateVersion : Nat) (params : List Param)
  | rejected (templateId version : Nat) (currentTemplate wouldBeTemplate : Text)
      (wouldBePositions : List Nat)
  | mutated (templateId : Nat) (events : List TemplateChange) (finalVersion : Nat)
      (params : List Param)

/-- Plan an attach: the outcome and the leaf after it. -/
def planAttach (leaf : Leaf) (masked : Masked) (byteLimit : Nat) : AttachPlan × Leaf :=
  let positionsWidened :=
    findWideningPositions masked.tokens leaf.template masked.wildcardPositions
  if positionsWidened.isEmpty then
    let expansions := collectTypeExpansions masked leaf.template leaf.slotTypes []
    let params := buildRecordParams env leaf.template masked byteLimit
    if expansions.isEmpty then
      (.cleanReuse leaf.templateId leaf.templateVersion params, leaf)
    else
      let oldVersion := leaf.templateVersion
      let newVersion := oldVersion + 1
      let text := formatTemplate leaf.template
      (.mutated leaf.templateId [.typeExpanded oldVersion newVersion text text expansions]
          newVersion params,
        { leaf with
          slotTypes := applyTypeExpansions leaf.slotTypes expansions
          templateVersion := newVersion })
  else if wouldBeDegenerate leaf.template positionsWidened then
    (.rejected leaf.templateId leaf.templateVersion (formatTemplate leaf.template)
        (formatTemplate (applyWidening leaf.template positionsWidened)) positionsWidened,
      leaf)
  else
    let oldVersion := leaf.templateVersion
    let oldText := formatTemplate leaf.template
    let template := applyWidening leaf.template positionsWidened
    let slotTypes :=
      updateSlotTypesOnWidening masked leaf.slotTypes template positionsWidened
    let widenedVersion := oldVersion + 1
    let newText := formatTemplate template
    let widenedEvent : TemplateChange :=
      .widened oldVersion widenedVersion oldText newText positionsWidened
    let expansions := collectTypeExpansions masked template slotTypes positionsWidened
    let params := buildRecordParams env template masked byteLimit
    if expansions.isEmpty then
      (.mutated leaf.templateId [widenedEvent] widenedVersion params,
        { leaf with template, slotTypes, templateVersion := widenedVersion })
    else
      let expandedVersion := widenedVersion + 1
      (.mutated leaf.templateId
          [widenedEvent, .typeExpanded widenedVersion expandedVersion newText newText expansions]
          expandedVersion params,
        { leaf with
          template
          slotTypes := applyTypeExpansions slotTypes expansions
          templateVersion := expandedVersion })

end Ourios.Miner
