/-
# Rows, columns and filter expressions

What a scan hands to the filter: rows of typed, nullable cells under a union
schema, and the boolean expressions the querier builds over them. Evaluation is
the three-valued one of the execution engine.
-/

import Ourios.Foundation.Kleene
import Ourios.Querier.Attributes

namespace Ourios.Querier

open Ourios.Foundation

/-- The columns a query plan names. The promoted ones are literally called
`resource.<key>` and `attr.<key>`. -/
inductive Column
  | tenantId | templateId | templateVersion | severityNumber
  | timeUnixNano | observedTimeUnixNano | effectiveTimeUnixNano
  | traceId | spanId | scopeName | eventName | flags | confidence | lossyFlag
  | bodyKind | body | attributes | resourceAttributes
  | promotedResource (key : Text)
  | promotedAttr (key : Text)
  deriving DecidableEq, Repr

inductive ColumnType
  | utf8 | int64 | float64 | other
  deriving DecidableEq, Repr

/-- A union schema: the type of each column some scanned file has. -/
def Schema := Column → Option ColumnType

def hasColumn (schema : Schema) (column : Column) : Bool := (schema column).isSome

def Schema.without (schema : Schema) (column : Column) : Schema :=
  fun other => if other = column then none else schema other

@[simp] theorem Schema.without_self (schema : Schema) (column : Column) :
    schema.without column column = none := by
  simp [Schema.without]

theorem Schema.without_of_ne (schema : Schema) {column other : Column} (h : other ≠ column) :
    schema.without column other = schema other := by
  simp [Schema.without, h]

/-- One cell. Texts stand for the UTF-8 columns and for the binary ones that hold
UTF-8 bytes. -/
inductive Scalar
  | null
  | bool (value : Bool)
  | int (value : Int)
  | f32 (value : ℚ)
  | f64 (bits : BitVec 64)
  | text (content : Text)
  | bytes (content : List (BitVec 8))
  deriving DecidableEq, Repr

/-- A nullable cell. -/
def Scalar.ofOption {α : Type} (cell : α → Scalar) : Option α → Scalar
  | some value => cell value
  | none => .null

/-- One stored row: the record, the derived effective time where its file has
one, and the promoted cells. A column the row's file lacks reads as null. -/
structure Row where
  record : MinedRecord
  effectiveTime : Option Int
  promotedResource : Text → Scalar
  promotedAttr : Text → Scalar

def BodyKind.number : BodyKind → Int
  | .string => 0
  | .structured => 1
  | .absent => 2

def Row.cell (engine : Engine) (row : Row) : Column → Scalar
  | .tenantId => .text row.record.tenantId
  | .templateId => .int row.record.templateId
  | .templateVersion => .int row.record.templateVersion
  | .severityNumber => .int row.record.severityNumber
  | .timeUnixNano => .int row.record.timeUnixNano
  | .observedTimeUnixNano => .ofOption (fun ns : Nat => .int ns) row.record.observedTimeUnixNano
  | .effectiveTimeUnixNano => .ofOption .int row.effectiveTime
  | .traceId => .ofOption .bytes row.record.traceId
  | .spanId => .ofOption .bytes row.record.spanId
  | .scopeName => .ofOption .text row.record.scopeName
  | .eventName => .ofOption .text row.record.eventName
  | .flags => .int row.record.flags
  | .confidence => .f32 row.record.confidence
  | .lossyFlag => .bool row.record.lossyFlag
  | .bodyKind => .int (BodyKind.number row.record.bodyKind)
  | .body => .ofOption .text row.record.body
  | .attributes => .text (encodeAttributes engine row.record.attributes)
  | .resourceAttributes => .text (encodeAttributes engine row.record.resourceAttributes)
  | .promotedResource key => row.promotedResource key
  | .promotedAttr key => row.promotedAttr key

def Row.attributeList (row : Row) : Column → List KeyValue
  | .resourceAttributes => row.record.resourceAttributes
  | _ => row.record.attributes

/-- A scalar-valued expression. `param` is the value of an element of the `params`
list and `separator` an element of the `separators` list, both from zero. -/
inductive Term
  | lit (value : Scalar)
  | col (column : Column)
  | param (n : Nat)
  | separator (n : Nat)
  deriving DecidableEq, Repr

/-- Evaluate a scalar expression; an element past the end of a list is null. -/
def Term.eval (engine : Engine) (row : Row) : Term → Scalar
  | .lit value => value
  | .col column => row.cell engine column
  | .param n => .ofOption (fun p : Param => .text p.value) row.record.params[n]?
  | .separator n => .ofOption .text row.record.separators[n]?

/-- Whether an operator holds between two values of an ordered type. -/
def OrdOp.holds {α : Type} [DecidableEq α] [LT α] [DecidableRel fun a b : α => a < b]
    (op : OrdOp) (left right : α) : Bool :=
  match op with
  | .eq => left = right
  | .ne => left ≠ right
  | .lt => left < right
  | .le => ¬ right < left
  | .gt => right < left
  | .ge => ¬ left < right

/-- Compare two cells of one type; null compares to null. -/
def Scalar.compare (engine : Engine) (op : OrdOp) : Scalar → Scalar → Truth
  | .bool left, .bool right => some (op.holds left.toNat right.toNat)
  | .int left, .int right => some (op.holds left right)
  | .f32 left, .f32 right => some (op.holds left right)
  | .f64 left, .f64 right => some (engine.f64Compare op left right)
  | .text left, .text right => some (op.holds left right)
  | .bytes left, .bytes right => some (op.holds (left.map BitVec.toNat) (right.map BitVec.toNat))
  | _, _ => none

def Scalar.testText (test : Text → Bool) : Scalar → Truth
  | .text content => some (test content)
  | _ => none

/-- A boolean expression over the columns of a scan. -/
inductive Filter
  | lit (value : Bool)
  | flag (column : Column)
  | compare (op : OrdOp) (left right : Term)
  | isNull (term : Term)
  | isNotNull (term : Term)
  | like (term : Term) (pattern : Text)
  | regexpLike (term : Term) (pattern : Text)
  | startsWith (term : Term) (arg : Text)
  | inList (term : Term) (ids : List Nat)
  | attrCmp (column : Column) (key expected : Text) (eq : Bool)
  | not (inner : Filter)
  | and (left right : Filter)
  | or (left right : Filter)
  | isNotTrue (inner : Filter)
  deriving DecidableEq, Repr

/-- Evaluate a boolean expression. -/
def Filter.eval (engine : Engine) (row : Row) : Filter → Truth
  | .lit value => some value
  | .flag column => match row.cell engine column with
      | .bool value => some value
      | _ => none
  | .compare op left right => (left.eval engine row).compare engine op (right.eval engine row)
  | .isNull term => some (term.eval engine row == .null)
  | .isNotNull term => some (term.eval engine row != .null)
  | .like term pattern => (term.eval engine row).testText (Foundation.like pattern)
  | .regexpLike term pattern => (term.eval engine row).testText (engine.isMatch pattern)
  | .startsWith term arg => (term.eval engine row).testText arg.isPrefixOf
  | .inList term ids => match term.eval engine row with
      | .int value => some (ids.any fun id => (id : Int) = value)
      | _ => none
  | .attrCmp column key expected eq =>
    some (Querier.attrCmp engine (row.attributeList column) key expected eq)
  | .not inner => (inner.eval engine row).not
  | .and left right => (left.eval engine row).and (right.eval engine row)
  | .or left right => (left.eval engine row).or (right.eval engine row)
  | .isNotTrue inner => some !(inner.eval engine row).holds

section Eval

variable (engine : Engine) (row : Row)

@[simp] theorem Filter.eval_lit (value : Bool) : (Filter.lit value).eval engine row = some value :=
  rfl

@[simp] theorem Filter.eval_not (inner : Filter) :
    (Filter.not inner).eval engine row = (inner.eval engine row).not :=
  rfl

@[simp] theorem Filter.eval_and (left right : Filter) :
    (Filter.and left right).eval engine row =
      Truth.and (left.eval engine row) (right.eval engine row) :=
  rfl

@[simp] theorem Filter.eval_or (left right : Filter) :
    (Filter.or left right).eval engine row =
      Truth.or (left.eval engine row) (right.eval engine row) :=
  rfl

end Eval

end Ourios.Querier
