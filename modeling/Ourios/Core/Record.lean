/-
# Log records and miner configuration

The wire record the receiver hands to the miner, the mined record the miner
emits, and the tunables that decide between them (`ourios-core::otlp`,
`ourios-core::record`, `ourios-core::confidence` and `ourios-config`).
-/

import Ourios.Core.Audit

namespace Ourios

/-- An OTLP `AnyValue`. `unset` is the message whose `oneof` is empty; a double
is kept as its bit pattern. -/
inductive AnyValue
  | unset
  | string (text : Text)
  | bool (value : Bool)
  | int (value : Int)
  | double (bits : BitVec 64)
  | array (values : List AnyValue)
  | kvlist (pairs : List (Text × Option AnyValue))
  | bytes (bytes : List (BitVec 8))

/-- One attribute. The value message itself may be missing. -/
structure KeyValue where
  key : Text
  value : Option AnyValue

/-- The fields a mined record copies from its wire record. -/
structure Envelope where
  tenantId : TenantId
  timeUnixNano : Nat
  observedTimeUnixNano : Option Nat
  severityNumber : Nat
  severityText : Option Text
  scopeName : Option Text
  scopeVersion : Option Text
  scopeAttributes : List KeyValue
  resourceSchemaUrl : Option Text
  scopeSchemaUrl : Option Text
  attributes : List KeyValue
  droppedAttributesCount : Nat
  resourceAttributes : List KeyValue
  traceId : Option (List (BitVec 8))
  spanId : Option (List (BitVec 8))
  flags : Nat
  eventName : Option Text

/-- A record body: the string that is mined, or any other value. -/
inductive Body
  | string (raw : Text)
  | structured (value : AnyValue)

/-- One decoded wire record. -/
structure OtlpLogRecord extends Envelope where
  body : Option Body

/-- Which reconstruction applies to a stored row. -/
inductive BodyKind
  | string | structured | absent
  deriving DecidableEq, Repr

/-- One stored parameter. -/
structure Param where
  typeTag : ParamType
  value : Text
  deriving DecidableEq, Repr

/-- One emitted row. Confidence is an `f32`, kept as the rational it denotes. -/
structure MinedRecord extends Envelope where
  templateId : Nat
  templateVersion : Nat
  bodyKind : BodyKind
  params : List Param
  separators : List Text
  body : Option Text
  confidence : ℚ
  lossyFlag : Bool

/-- Whether some parameter was replaced by an overflow marker. -/
def MinedRecord.anyOverflow (record : MinedRecord) : Bool :=
  record.params.any fun p => p.typeTag == .overflow

/-- What the miner does with a template the producer attached. -/
inductive UpstreamTemplates
  | ignore | observe | adopt
  deriving DecidableEq, Repr

/-- Round a positive rational to the nearest `f32`, ties to even. The exponent is
found from the integer parts; the values that occur are ratios of token counts
and their quotients by the threshold, so neither end of the range is reached. -/
def roundF32 (q : ℚ) : ℚ :=
  if q ≤ 0 then q
  else
    -- `scale` is the power of two that brings the significand into 24 bits.
    let shift : Int := (Nat.log2 q.num.toNat : Int) - (Nat.log2 q.den : Int)
    let exponent : Int := if q < (2 : ℚ) ^ shift then shift - 1 else shift
    let ulp : ℚ := (2 : ℚ) ^ (exponent - 23)
    let scaled := q / ulp
    let lower := scaled.floor
    let rest := scaled - lower
    let rounded : Int :=
      if rest < 1 / 2 then lower
      else if 1 / 2 < rest then lower + 1
      else if lower % 2 = 0 then lower else lower + 1
    rounded * ulp

def paramByteLimitCeiling : Nat := 1024

def prefixDepthCeiling : Nat := 8

/-! The defaults of the tunables are in range. -/

theorem threshold_default : 0 < roundF32 (7 / 10) ∧ roundF32 (7 / 10) ≤ 1 := by decide +kernel

theorem floor_default :
    0 < roundF32 (4 / 10) ∧ roundF32 (4 / 10) ≤ roundF32 (7 / 10) := by decide +kernel

theorem byteLimit_default : 0 < 256 ∧ 256 ≤ paramByteLimitCeiling := by decide

theorem depth_default : 2 ≤ prefixDepthCeiling := by decide

/-- The miner's tunables. The two `f32` bounds are kept as rationals. The proof
fields are the ranges `try_new_full` and the `with_*` builders check, so a
configuration that exists has been validated. -/
structure MinerConfig where
  similarityThreshold : ℚ := roundF32 (7 / 10)
  similarityFloor : ℚ := roundF32 (4 / 10)
  paramByteLimit : Nat := 256
  prefixDepth : Nat := 2
  maxNodeChildren : Nat := 100
  maxTemplates : Nat := 20000
  maxLineTokens : Nat := 512
  upstreamTemplates : UpstreamTemplates := .ignore
  upstreamTemplateByteLimit : Nat := 8192
  upstreamAssociationLimit : Nat := 4
  threshold_range : 0 < similarityThreshold ∧ similarityThreshold ≤ 1 := by
    first | exact threshold_default | decide +kernel
  floor_range : 0 < similarityFloor ∧ similarityFloor ≤ similarityThreshold := by
    first | exact floor_default | decide +kernel
  paramByteLimit_range : 0 < paramByteLimit ∧ paramByteLimit ≤ paramByteLimitCeiling := by
    first | exact byteLimit_default | decide
  prefixDepth_le : prefixDepth ≤ prefixDepthCeiling := by
    first | exact depth_default | decide
  maxNodeChildren_pos : 0 < maxNodeChildren := by exact Nat.succ_pos _
  maxTemplates_pos : 0 < maxTemplates := by exact Nat.succ_pos _
  maxLineTokens_pos : 0 < maxLineTokens := by exact Nat.succ_pos _
  deriving DecidableEq

inductive ConfidenceZone
  | clean | lossy | parseFailure
  deriving DecidableEq, Repr

/-- Classify a similarity against the threshold and the floor. -/
def ConfidenceZone.classify (similarity threshold floor : ℚ) : ConfidenceZone :=
  if threshold ≤ similarity then .clean
  else if floor ≤ similarity then .lossy
  else .parseFailure

end Ourios
