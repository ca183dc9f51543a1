/-
# The query representation

The surface-independent form both front ends parse into (`dsl/ir.rs`), with the
resolution of its time literals (`plan/time.rs`). What the querier borrows from
other crates (the regular expressions, the calendar, floating-point arithmetic
and the printing of numbers) is collected in one structure of functions, so that
every result holds whatever those functions are.
-/

import Ourios.Core.Record

namespace Ourios.Querier

/-- A field a query may name. -/
inductive Field
  | body | severity | ts | observedTs | traceId | spanId | scope | eventName | flags | service
  | templateId | confidence | lossy
  | resource (key : Text)
  | attr (key : Text)
  deriving DecidableEq, Repr

inductive OrdOp
  | eq | ne | lt | le | gt | ge
  deriving DecidableEq, Repr

/-- The comparison operators: the ordering ones and the two for regular
expressions. -/
inductive CmpOp
  | ord (op : OrdOp)
  | matches
  | notMatches
  deriving DecidableEq, Repr

/-- A literal. A float is kept as its bit pattern. -/
inductive Value
  | str (text : Text)
  | int (n : Int)
  | float (bits : BitVec 64)
  | bool (value : Bool)
  | null
  | duration (literal : Text)
  | timestamp (literal : Text)
  deriving DecidableEq, Repr

inductive SeverityName
  | trace | debug | info | warn | error | fatal
  deriving DecidableEq, Repr

/-- The lowest severity number of a band. -/
def SeverityName.floor : SeverityName → Int
  | .trace => 1
  | .debug => 5
  | .info => 9
  | .warn => 13
  | .error => 17
  | .fatal => 21

/-- The highest severity number of a band. -/
def SeverityName.ceil (name : SeverityName) : Int := name.floor + 3

/-- The right-hand side of a severity comparison. -/
inductive SeverityValue
  | name (name : SeverityName)
  | number (n : Int)
  deriving DecidableEq, Repr

inductive Call
  | matches (field : Field) (arg : Text)
  | contains (field : Field) (arg : Text)
  | startsWith (field : Field) (arg : Text)
  | endsWith (field : Field) (arg : Text)
  | resolvesTo (id : Nat)
  deriving DecidableEq, Repr

/-- The filter of a query. -/
inductive Predicate
  | bool (value : Bool)
  | comparison (field : Field) (op : CmpOp) (value : Value)
  | severity (op : OrdOp) (value : SeverityValue)
  | call (call : Call)
  | not (inner : Predicate)
  | and (terms : List Predicate)
  | or (terms : List Predicate)

inductive GroupTerm
  | field (field : Field)
  | param (n : Nat)
  | bucket (width : Text)
  deriving DecidableEq, Repr

inductive AggFn
  | sum | min | max | avg
  deriving DecidableEq, Repr

/-- A bound of a time window. -/
inductive Time
  | now
  | duration (neg : Bool) (literal : Text)
  | timestamp (literal : Text)
  deriving DecidableEq, Repr

/-- A stage of the pipeline after the predicate. -/
inductive Stage
  | range (start : Time) (stop : Time)
  | count (terms : List GroupTerm)
  | agg (func : AggFn) (path : Field) (terms : List GroupTerm)
  | sort (key : Text) (desc : Bool)
  | limit (n : Nat)
  | project (fields : List Field)
  | render
  deriving DecidableEq, Repr

structure Query where
  predicate : Predicate
  stages : List Stage

/-- A content column a masked reader may not see. -/
inductive ContentColumn
  | body
  | attr (key : Text)
  | resource (key : Text)
  deriving DecidableEq, Repr

/-- The ways a query fails. -/
inductive QueryError
  | invalidQuery (detail : Text)
  | storage (detail : Text)
  | forbidden (column : ContentColumn)
  deriving DecidableEq, Repr

/-- The functions of other crates the querier computes with. -/
structure Engine where
  /-- Read an RFC 3339 instant; the inner `none` is one nanoseconds cannot hold. -/
  parseRfc3339 : Text → Option (Option Int)
  /-- Print a nanosecond instant as RFC 3339. -/
  printRfc3339 : Int → Text
  /-- The error of a regular expression that does not compile. -/
  regexError : Text → Option Text
  /-- Whether a regular expression matches somewhere in a text. -/
  isMatch : Text → Text → Bool
  /-- Print a text between quotes, as the debug format does. -/
  debug : Text → Text
  f64OfInt : Int → BitVec 64
  f32OfInt : Int → ℚ
  f32OfF64 : BitVec 64 → ℚ
  f64Parse : Text → Option (BitVec 64)
  f64IsFinite : BitVec 64 → Bool
  f64Compare : OrdOp → BitVec 64 → BitVec 64 → Bool
  /-- A scalar aggregate over the non-null cells of a group; null when there are
  none. -/
  f64Aggregate : AggFn → List (BitVec 64) → Option (BitVec 64)
  printF32 : ℚ → Text
  printF64 : BitVec 64 → Text
  /-- The JSON form of a double, the non-finite ones included. -/
  jsonF64 : BitVec 64 → Text
  base64 : List (BitVec 8) → Text
  /-- Read a structured body back from its canonical JSON. -/
  decodeAnyValue : Text → Option AnyValue

/-- Stand-ins for the borrowed functions, to evaluate inputs that use none of them. -/
instance : Inhabited Engine where
  default :=
    { parseRfc3339 := fun _ => none
      printRfc3339 := fun ns => (toString ns).toList
      regexError := fun _ => none
      isMatch := fun pattern text => text.tails.any pattern.isPrefixOf
      debug := fun text => '"' :: text ++ ['"']
      f64OfInt := fun n => BitVec.ofInt 64 n
      f32OfInt := fun n => n
      f32OfF64 := fun bits => bits.toInt
      f64Parse := fun _ => none
      f64IsFinite := fun _ => true
      f64Compare := fun _ _ _ => false
      f64Aggregate := fun _ _ => none
      printF32 := fun value => (toString value.num).toList
      printF64 := fun bits => (toString bits.toInt).toList
      jsonF64 := fun bits => (toString bits.toInt).toList
      base64 := fun _ => []
      decodeAnyValue := fun _ => none }

def fieldName : Field → Text
  | .body => "body".toList
  | .severity => "severity".toList
  | .ts => "ts".toList
  | .observedTs => "observed_ts".toList
  | .traceId => "trace_id".toList
  | .spanId => "span_id".toList
  | .scope => "scope".toList
  | .eventName => "event_name".toList
  | .flags => "flags".toList
  | .service => "service".toList
  | .templateId => "template_id".toList
  | .confidence => "confidence".toList
  | .lossy => "lossy".toList
  | .resource key => "resource.".toList ++ key
  | .attr key => "attr.".toList ++ key

/-- The largest nanosecond count a timestamp column holds. -/
def i64Max : Nat := 2 ^ 63 - 1

def nsPerSecond : Nat := 1000000000

def unitNanos : Char → Option Nat
  | 's' => some nsPerSecond
  | 'm' => some (60 * nsPerSecond)
  | 'h' => some (3600 * nsPerSecond)
  | 'd' => some (86400 * nsPerSecond)
  | 'w' => some (7 * 86400 * nsPerSecond)
  | _ => none

def durationNanos (engine : Engine) (literal : Text) : Except QueryError Nat :=
  let invalid := QueryError.invalidQuery
    ("duration ".toList ++ engine.debug literal ++ " is not resolvable".toList)
  match literal.getLast?, parseU64 literal.dropLast with
  | some unit, some n =>
    match unitNanos unit with
    | some perUnit => if n * perUnit < 2 ^ 64 then .ok (n * perUnit) else .error invalid
    | none => .error invalid
  | _, _ => .error invalid

def timestampNanos (engine : Engine) (literal : Text) : Except QueryError Nat :=
  let quoted := "timestamp ".toList ++ engine.debug literal
  match engine.parseRfc3339 literal with
  | none => .error (.invalidQuery (quoted ++ " is not a resolvable RFC 3339 instant".toList))
  | some none => .error (.invalidQuery (quoted ++ " is out of the representable range".toList))
  | some (some ns) =>
    if ns < 0 then .error (.invalidQuery (quoted ++ " predates the epoch".toList))
    else .ok ns.toNat

/-- An absolute instant; arithmetic on `u64` saturates. -/
def resolveTime (engine : Engine) (time : Time) (now : Nat) : Except QueryError Nat :=
  match time with
  | .now => .ok now
  | .duration neg literal => do
    let nanos ← durationNanos engine literal
    return if neg then now - nanos else min (now + nanos) (2 ^ 64 - 1)
  | .timestamp literal => timestampNanos engine literal

/-- A bound as a timestamp cell. -/
def timeBoundScalar (ns : Nat) : Except QueryError Int :=
  if ns ≤ i64Max then .ok ns
  else .error (.invalidQuery
    ("time bound ".toList ++ Text.ofNat ns ++ " exceeds i64 nanoseconds".toList))

end Ourios.Querier
