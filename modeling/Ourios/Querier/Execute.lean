/-
# Running a query for a masked reader

Validation of the stages (`plan/mod.rs`), the layer-2 visibility of a principal
that may not read some content columns (`visibility.rs`), the group keys and
scalar aggregates (`plan/group.rs`, `decode.rs`), the rendering of rows
(`log_row.rs`) and the scan that ties them together (`lib.rs`). The rows are those
of the files a query resolves to, in scan order.
-/

import Ourios.Querier.Meaning

namespace Ourios.Querier

open Ourios.Foundation Ourios.Miner

/-! ## Validation -/

structure Aggregate where
  terms : List GroupTerm
  scalar : Option (AggFn × Field)
  deriving DecidableEq, Repr

/-- What validation resolves of a query. -/
structure Validated where
  window : Nat × Nat
  limit : Option Nat
  aggregate : Option Aggregate

/-- The template id a comparison pins. -/
def pinOf : Predicate → Option Nat
  | .comparison .templateId (.ord .eq) (.int n) => if n < 0 then none else some n.toNat
  | _ => none

/-- The one template id the top level of a predicate pins. -/
def pinnedTemplateId (predicate : Predicate) : Option Nat :=
  let pins := match predicate with
    | .and terms => terms.filterMap pinOf
    | leaf => (pinOf leaf).toList
  match pins with
  | first :: rest => if rest.all (· = first) then some first else none
  | [] => none

/-- Check the terms of a `by` list from left to right. -/
def validateGroupTermsFrom (engine : Engine) (predicate : Predicate) (params : List Nat)
    (hasBucket : Bool) : List GroupTerm → Except QueryError Unit
  | [] => .ok ()
  | .param n :: terms =>
    let named := "param(".toList ++ Text.ofNat n ++ ")".toList
    if (pinnedTemplateId predicate).isNone then
      .error (.invalidQuery (named ++ (" requires the predicate to pin exactly one template: " ++
        "a top-level \x60template_id == <id>\x60 conjunct, with every such comparison naming " ++
        "the same id (params are positional per template)").toList))
    else if n ∈ params then
      .error (.invalidQuery (named ++ " appears more than once in the \x60by\x60 list".toList))
    else validateGroupTermsFrom engine predicate (n :: params) hasBucket terms
  | .bucket width :: terms => do
    let named := "bucket(".toList ++ width ++ ") width ".toList
    if hasBucket then
      throw (.invalidQuery "a \x60by\x60 list takes at most one bucket(...) term".toList)
    let nanos ← durationNanos engine width
    if nanos = 0 then throw (.invalidQuery (named ++ "must be positive".toList))
    if i64Max < nanos then throw (.invalidQuery (named ++ "exceeds i64 nanoseconds".toList))
    validateGroupTermsFrom engine predicate params true terms
  | .field _ :: terms => validateGroupTermsFrom engine predicate params hasBucket terms

variable (engine : Engine) (scan : Scan)

def validateGroupTerms (terms : List GroupTerm) (predicate : Predicate) : Except QueryError Unit :=
  validateGroupTermsFrom engine predicate [] false terms

/-- The error of a scalar aggregate over anything but an attribute. -/
def aggPathError : QueryError :=
  .invalidQuery
    "sum/min/max/avg require a promoted attribute path (attr.<key> or resource.<key>)".toList

/-- A scalar aggregate takes an attribute. -/
def validateAggPath : Field → Except QueryError Unit
  | .attr _ | .resource _ => .ok ()
  | _ => .error aggPathError

/-- Check the stages from left to right and pick the aggregation. -/
def validateStagesFrom (engine : Engine) (predicate : Predicate) (aggregate : Option Aggregate) :
    List Stage → Except QueryError (Option Aggregate)
  | [] => .ok aggregate
  | stage :: stages =>
    let unsupported (name : String) : Except QueryError (Option Aggregate) :=
      .error (.invalidQuery
        ("the \x60" ++ name ++ "\x60 stage is not yet supported by the querier").toList)
    let single := QueryError.invalidQuery "a query takes at most one aggregation stage".toList
    match stage with
    | .range _ _ | .limit _ => validateStagesFrom engine predicate aggregate stages
    | .count terms => do
      if aggregate.isSome then throw single
      validateGroupTerms engine terms predicate
      validateStagesFrom engine predicate (some { terms, scalar := none }) stages
    | .agg func path terms => do
      if aggregate.isSome then throw single
      validateGroupTerms engine terms predicate
      validateAggPath path
      validateStagesFrom engine predicate (some { terms, scalar := some (func, path) }) stages
    | .sort _ _ => unsupported "sort"
    | .project _ => unsupported "project"
    | .render => unsupported "render"

def PredicateLeaf.bodyTextMatch : PredicateLeaf → Option String
  | .comparison .body .matches _ => some "=~"
  | .comparison .body .notMatches _ => some "!~"
  | .call (.matches .body _) => some "matches"
  | .call (.startsWith .body _) => some "starts_with"
  | _ => none

/-- The first text operator a predicate applies to the body. -/
def bodyTextMatch (predicate : Predicate) : Option String :=
  (predicate.leaves true).findSome? fun term => term.2.bodyTextMatch

def rejectBodyTextMatch (predicate : Predicate) : Except QueryError Unit :=
  match bodyTextMatch predicate with
  | some operator => .error (.invalidQuery (("\x60" ++ operator ++
      "\x60 on body is not supported yet: a mined log line is stored as " ++
      "its template and parameters, not as body text, so matching the stored " ++
      "text alone would silently miss most lines (RFC 0044 §7)").toList))
  | none => .ok ()

/-- The regular expression of a leaf. -/
def PredicateLeaf.pattern : PredicateLeaf → Option Text
  | .comparison _ .matches (.str pattern) | .comparison _ .notMatches (.str pattern) => some pattern
  | .call (.matches _ arg) => some arg
  | _ => none

/-- Reject a regular expression that does not compile. -/
def checkRegexPatterns (predicate : Predicate) : Except QueryError Unit :=
  match (predicate.leaves true).findSome? fun term => term.2.pattern.bind engine.regexError with
  | some error => .error (.invalidQuery ("invalid regular expression: ".toList ++ error))
  | none => .ok ()

def lastRange (stages : List Stage) : Option (Time × Time) :=
  stages.reverse.findSome? fun
    | .range start stop => some (start, stop)
    | _ => none

/-- The time window: the last `range`, or the tenant's default. -/
def resolveWindow (stages : List Stage) (now defaultWindow : Nat) : Except QueryError (Nat × Nat) :=
  match lastRange stages with
  | some (start, stop) => do
    let start ← resolveTime engine start now
    let stop ← resolveTime engine stop now
    return (min start stop, max start stop)
  | none => .ok (now - defaultWindow, now)

def lastLimit (stages : List Stage) : Option Nat :=
  stages.reverse.findSome? fun
    | .limit n => some n
    | _ => none

/-- Validate a query before any data is read. -/
def validate (query : Query) (now defaultWindow : Nat) : Except QueryError Validated := do
  let aggregate ← validateStagesFrom engine query.predicate none query.stages
  rejectBodyTextMatch query.predicate
  checkRegexPatterns engine query.predicate
  let window ← resolveWindow engine query.stages now defaultWindow
  let limit := lastLimit query.stages
  if limit.isSome ∧ aggregate.isSome then
    throw (.invalidQuery (("a query with a \x60count\x60 stage does not support \x60limit\x60; " ++
      "group-limiting semantics are not implemented yet").toList))
  return { window, limit, aggregate }

/-! ## Visibility -/

/-- A field a query reads; `paths` when the read can also follow the key as a path
into a map. -/
structure Read where
  field : Field
  paths : Bool
  deriving DecidableEq, Repr

/-- The rank at which a head reaches a key: the key itself, or, for a path, a head
followed by a dot. -/
def reachKey (paths : Bool) (key head : Text) : Option Nat :=
  if head.isPrefixOf key then
    match key.drop head.length with
    | [] => some 0
    | '.' :: _ => if paths then some (head.byteLen + 1) else none
    | _ => none
  else none

/-- Whether a read reaches a content column, ranked by how. -/
def Read.reach (read : Read) (column : ContentColumn) : Option Nat :=
  match read.field, column with
  | .attr key, .attr head => reachKey read.paths key head
  | .resource key, .resource head => reachKey read.paths key head
  | .service, .resource head => reachKey read.paths "service.name".toList head
  | .body, .body => some 0
  | _, _ => none

/-- The content column a read reaches first. -/
def Read.maskedBy (read : Read) (columns : List ContentColumn) : Option ContentColumn :=
  let reached := columns.filterMap fun column => (read.reach column).map fun rank => (rank, column)
  match reached with
  | [] => none
  | first :: rest =>
    some (rest.foldl (fun best next => if next.1 < best.1 then next else best) first).2

def PredicateLeaf.read : PredicateLeaf → Option Read
  | .comparison field op _ => some { field, paths := op = .ord .eq ∨ op = .ord .ne }
  | .call asked => asked.operand.map fun operand => { field := operand.1, paths := false }
  | .severity _ _ => none

def collectPredicateFields (predicate : Predicate) : List Read :=
  (predicate.leaves true).filterMap fun term => term.2.read

/-- The reads of a `by` list. A `param` term collects none. -/
def collectGroupFields (terms : List GroupTerm) : List Read :=
  terms.filterMap fun
    | .field field => some { field, paths := false }
    | _ => none

def Stage.reads : Stage → List Read
  | .count terms => collectGroupFields terms
  | .agg _ path terms => { field := path, paths := false } :: collectGroupFields terms
  | _ => []

def Query.reads (query : Query) : List Read :=
  collectPredicateFields query.predicate ++ query.stages.flatMap Stage.reads

/-- Refuse a query that reads a masked column. -/
def validateVisibility (columns : List ContentColumn) (query : Query) : Except QueryError Unit :=
  match query.reads.findSome? fun read => read.maskedBy columns with
  | some column => .error (.forbidden column)
  | none => .ok ()

/-! ## Rows -/

/-- The body a reader gets. -/
inductive LogBody
  | rendered (line : Text) (reconstruction : Reconstruction)
  | structured (value : AnyValue)
  | masked
  | absent

structure LogRow where
  timeUnixNano : Nat
  observedTimeUnixNano : Option Nat
  severityNumber : Nat
  severityText : Option Text
  traceId : Option (List (BitVec 8))
  spanId : Option (List (BitVec 8))
  flags : Nat
  eventName : Option Text
  scopeName : Option Text
  scopeVersion : Option Text
  scopeAttributes : List KeyValue
  resourceSchemaUrl : Option Text
  scopeSchemaUrl : Option Text
  attributes : List KeyValue
  resourceAttributes : List KeyValue
  droppedAttributesCount : Nat
  templateId : Nat
  templateVersion : Nat
  template : Option Text
  body : LogBody

def renderBodyFromTokens (record : MinedRecord) (tokens : Option (List OwnedToken)) : LogBody :=
  match record.bodyKind with
  | .absent => .absent
  | .structured => match record.body.bind engine.decodeAnyValue with
      | some value => .structured value
      | none => .rendered [] .retainedVerbatim
  | .string =>
    let (line, reconstruction) := render record (tokens.getD [])
    .rendered line reconstruction

def LogRow.fromRecord (registry : TemplateRegistry) (record : MinedRecord) : LogRow :=
  let tokens := registry.lookup (record.templateId, record.templateVersion)
  { timeUnixNano := record.timeUnixNano
    observedTimeUnixNano := record.observedTimeUnixNano
    severityNumber := record.severityNumber
    severityText := record.severityText
    traceId := record.traceId
    spanId := record.spanId
    flags := record.flags
    eventName := record.eventName
    scopeName := record.scopeName
    scopeVersion := record.scopeVersion
    scopeAttributes := record.scopeAttributes
    resourceSchemaUrl := record.resourceSchemaUrl
    scopeSchemaUrl := record.scopeSchemaUrl
    attributes := record.attributes
    resourceAttributes := record.resourceAttributes
    droppedAttributesCount := record.droppedAttributesCount
    templateId := record.templateId
    templateVersion := record.templateVersion
    template := tokens.map formatTemplate
    body := renderBodyFromTokens engine record tokens }

def maskedAttrs (columns : List ContentColumn) : List Text :=
  columns.filterMap fun
    | .attr key => some key
    | _ => none

def maskedResources (columns : List ContentColumn) : List Text :=
  columns.filterMap fun
    | .resource key => some key
    | _ => none

def maskValues (keys : List Text) (attributes : List KeyValue) : List KeyValue :=
  attributes.map fun kv => if kv.key ∈ keys then { kv with value := none } else kv

def LogRow.mask (columns : List ContentColumn) (row : LogRow) : LogRow :=
  { row with
    body := if .body ∈ columns then .masked else row.body
    attributes := maskValues (maskedAttrs columns) row.attributes
    resourceAttributes := maskValues (maskedResources columns) row.resourceAttributes }

/-! ## Groups -/

inductive GroupExpr
  | null
  | cell (column : Column)
  | param (n : Nat)
  | bucket (width : Nat) (effective : Bool)
  deriving DecidableEq, Repr

/-- The promoted column of an attribute that is grouped or aggregated. -/
def promotedFor (source : Column) (key : Text) (schema : Schema) (verb : String) :
    Except QueryError Column :=
  let column := promotedColumnName source key
  if hasColumn schema column then .ok column
  else
    let sublist := if source = .resourceAttributes then "resource" else "log"
    .error (.invalidQuery (verb.toList ++ " '".toList ++ promotedName source key ++
      "' requires the attribute to be promoted to a column present in ".toList ++
      "the queried range; add '".toList ++ key ++ "' to storage.promoted_attributes.".toList ++
      sublist.toList))

def fieldGroupExpr (field : Field) (schema : Schema) : Except QueryError GroupExpr :=
  match field with
  | .service =>
    let column := promotedColumnName .resourceAttributes "service.name".toList
    .ok (if hasColumn schema column then .cell column else .null)
  | .resource key =>
    (promotedFor .resourceAttributes key schema "grouping by").map .cell
  | .attr key => (promotedFor .attributes key schema "grouping by").map .cell
  | field =>
    let (column, optional) := columnOf field
    .ok (if optional ∧ hasColumn schema column = false then .null else .cell column)

def groupExpr (schema : Schema) : GroupTerm → Except QueryError GroupExpr
  | .field field => fieldGroupExpr field schema
  | .param n => .ok (.param n)
  | .bucket width => do
    let nanos ← durationNanos engine width
    if i64Max < nanos then
      throw (.invalidQuery ("bucket(".toList ++ width ++ ") width exceeds i64 nanoseconds".toList))
    return .bucket nanos (hasColumn schema .effectiveTimeUnixNano)

/-- The column a scalar aggregate reads, with its type. -/
def scalarAggExpr (path : Field) (schema : Schema) :
    Except QueryError (Column × Option ColumnType) := do
  let column ← match path with
    | .attr key => promotedFor .attributes key schema "aggregating"
    | .resource key => promotedFor .resourceAttributes key schema "aggregating"
    | _ => throw aggPathError
  return (column, schema column)

/-- The group cell of a row. A bucket is the effective time rounded down to a
multiple of its width. -/
def GroupExpr.eval (engine : Engine) (row : Row) : GroupExpr → Scalar
  | .null => .null
  | .cell column => row.cell engine column
  | .param n => (Term.param n).eval engine row
  | .bucket width effective =>
    let ns := if effective then row.effectiveTime.getD row.record.timeUnixNano
      else row.record.timeUnixNano
    .int (ns.tdiv width * width)

def hexByte (byte : BitVec 8) : Text :=
  [Nat.digitChar (byte.toNat / 16), Nat.digitChar (byte.toNat % 16)]

def GroupExpr.isTimestamp : GroupExpr → Bool
  | .cell .timeUnixNano | .cell .observedTimeUnixNano | .bucket _ _ => true
  | _ => false

/-- The text of a group cell; null has none. -/
def groupKeyString (expr : GroupExpr) : Scalar → Option Text
  | .null => none
  | .bool value => some (if value then "true" else "false").toList
  | .int value => some (if expr.isTimestamp then engine.printRfc3339 value
      else (toString value).toList)
  | .f32 value => some (engine.printF32 value)
  | .f64 bits => some (engine.printF64 bits)
  | .text content => some content
  | .bytes content => some (content.flatMap hexByte)

/-- One group of a result. `value` is absent without a scalar aggregate, and null
when the aggregate is null or not finite. -/
structure AggregateGroup where
  key : List Text
  count : Nat
  value : Option (Option (BitVec 64))
  deriving DecidableEq, Repr

/-- What the aggregation reads of a row: its group cells, and the aggregated
number. -/
structure Observation where
  cells : List Scalar
  number : Option (BitVec 64)
  deriving DecidableEq, Repr

def aggregatedNumber (row : Row) : Column × Option ColumnType →
    Option (BitVec 64)
  | (column, columnType) =>
    match row.cell engine column, columnType with
    | .f64 bits, some .float64 => some bits
    | .int value, some .int64 => some (engine.f64OfInt value)
    | .text content, some .utf8 | .text content, some .other => engine.f64Parse content
    | _, _ => none

/-- The engine's groups: the observations with the same cells. Without group terms
there is one group, empty or not. -/
def engineGroups (terms : List GroupExpr) (observations : List Observation) :
    List (List Scalar × List Observation) :=
  if terms.isEmpty then [([], observations)]
  else (observations.map Observation.cells).dedup.map fun cells =>
    (cells, observations.filter fun observation => observation.cells = cells)

/-- The text key of a group, if none of its cells is null. -/
def groupKey (terms : List GroupExpr) (cells : List Scalar) : Option (List Text) :=
  (terms.zip cells).mapM fun (expr, cell) => groupKeyString engine expr cell

structure QueryResult where
  rows : Nat
  rowsExcluded : Nat
  records : List LogRow
  aggregate : Option (List AggregateGroup)

/-- Decode one of the engine's groups; one with a null cell has no key. -/
def decodeGroup (terms : List GroupExpr) (func : Option AggFn)
    (group : List Scalar × List Observation) : Option AggregateGroup :=
  (groupKey engine terms group.1).map fun key =>
    { key := key
      count := group.2.length
      value := func.map fun func =>
        (engine.f64Aggregate func (group.2.filterMap Observation.number)).filter
          engine.f64IsFinite }

/-- Decode the engine's groups: a group without a key only counts as excluded. -/
def decodeAggregate (terms : List GroupExpr) (func : Option AggFn)
    (observations : List Observation) : QueryResult :=
  let grouped := engineGroups terms observations
  let excluded := grouped.filter fun group => (groupKey engine terms group.1).isNone
  { rows := (grouped.map fun group => group.2.length).sum
    rowsExcluded := (excluded.map fun group => group.2.length).sum
    records := []
    aggregate := some ((grouped.filterMap (decodeGroup engine terms func)).mergeSort
      fun left right => ¬ right.key < left.key) }

def emptyResult (aggregate : Option Aggregate) : QueryResult :=
  { rows := 0
    rowsExcluded := 0
    records := []
    aggregate := aggregate.map fun agg =>
      if agg.terms.isEmpty then
        [{ key := [], count := 0, value := agg.scalar.map fun _ => none }]
      else [] }

/-! ## The scan -/

/-- What a query runs against besides the rows. No schema means that no file is in
range. -/
structure Scan where
  engine : Engine
  tenant : TenantId
  now : Nat
  defaultWindow : Nat
  aliasClasses : Nat → List Nat
  registry : TemplateRegistry
  schema : Option Schema
  elideCountScan : Bool

def Scan.lowering (schema : Schema) : Lowering where
  engine := scan.engine
  schema := schema
  aliasClasses := scan.aliasClasses
  bodyEqualities := bodyEqualityPlan scan.registry

/-- The time window as a filter, over the effective time where there is one. -/
def timeWindowFilter (schema : Schema) (window : Nat × Nat) : Except QueryError Filter := do
  let lo ← timeBoundScalar window.1
  let hi ← timeBoundScalar window.2
  let within (column : Column) : Filter :=
    .and (.compare .ge (.col column) (.lit (.int lo))) (.compare .lt (.col column) (.lit (.int hi)))
  if hasColumn schema .effectiveTimeUnixNano then
    return .or (within .effectiveTimeUnixNano)
      (.and (.isNull (.col .effectiveTimeUnixNano)) (within .timeUnixNano))
  return within .timeUnixNano

/-- The filter of a scan; none when the predicate is provably empty. -/
def Scan.filter (scan : Scan) (schema : Schema) (predicate : Predicate) (window : Nat × Nat) :
    Except QueryError (Option (Row → Bool)) := do
  let window ← timeWindowFilter schema window
  let lowered ← compilePredicate (scan.lowering schema) predicate
  match lowered with
  | .none => return none
  | .all => return some fun row => (window.eval scan.engine row).holds
  | .filter expr =>
    return some fun row =>
      (window.eval scan.engine row).holds && (expr.eval scan.engine row).holds

/-- A lowered aggregation: its group terms, and the function and column of its
scalar. -/
structure LoweredAggregate where
  terms : List GroupExpr
  scalar : Option (AggFn × (Column × Option ColumnType))

def lowerAggregate (schema : Schema) (aggregate : Aggregate) :
    Except QueryError LoweredAggregate := do
  let terms ← aggregate.terms.mapM (groupExpr engine schema)
  match aggregate.scalar with
  | none => return { terms, scalar := none }
  | some (func, path) => return { terms, scalar := some (func, ← scalarAggExpr path schema) }

/-- What an aggregation reads of a row. -/
def LoweredAggregate.observe (lowered : LoweredAggregate) (row : Row) : Observation where
  cells := lowered.terms.map (GroupExpr.eval engine row)
  number := lowered.scalar.bind fun scalar => aggregatedNumber engine row scalar.2

/-- Run the aggregation over the filtered rows of the tenant. -/
def Scan.executeAggregate (schema : Schema) (aggregate : Aggregate)
    (kept : List Row) : Except QueryError QueryResult := do
  let lowered ← lowerAggregate scan.engine schema aggregate
  let own := kept.filter fun row => row.record.tenantId = scan.tenant
  return decodeAggregate scan.engine lowered.terms (lowered.scalar.map Prod.fst)
    (own.map (lowered.observe scan.engine))

/-- Materialise and render up to `limit` rows, refusing a row of another tenant. -/
def Scan.collectRecords (limit : Nat) (kept : List Row) : Except QueryError (List LogRow) :=
  let returned := (kept.take limit).map Row.record
  match (returned.map fun record => record.tenantId).find? (· ≠ scan.tenant) with
  | some foreign => .error (.storage ("a returned row carries tenant ".toList ++ foreign ++
      " under tenant ".toList ++ scan.tenant ++ "'s partition root".toList))
  | none => .ok (returned.map (LogRow.fromRecord scan.engine scan.registry))

/-- Count the filtered rows and return up to a limit of them, masked. -/
def Scan.executeRows (columns : List ContentColumn) (limit : Option Nat)
    (kept : List Row) : Except QueryError QueryResult := do
  match limit with
  | none => return { rows := kept.length, rowsExcluded := 0, records := [], aggregate := none }
  | some limit =>
    let records ← scan.collectRecords limit kept
    -- A result below the limit is complete, so its length is the count.
    let rows := if scan.elideCountScan ∧ records.length < limit then records.length
      else kept.length
    return { rows, rowsExcluded := 0, records := records.map (LogRow.mask columns)
             aggregate := none }

/-- A query ready to run: validated, and with its filter unless there is nothing to
scan. -/
structure Prepared where
  validated : Validated
  scanned : Option (Schema × (Row → Bool))

/-- Everything that happens before a row is read. -/
def Scan.prepare (columns : List ContentColumn) (query : Query) : Except QueryError Prepared := do
  validateVisibility columns query
  let validated ← validate scan.engine query scan.now scan.defaultWindow
  match scan.schema with
  | none => return { validated, scanned := none }
  | some schema =>
    let keeps ← scan.filter schema query.predicate validated.window
    return { validated, scanned := keeps.map fun keeps => (schema, keeps) }

def Scan.finish (columns : List ContentColumn) (prepared : Prepared)
    (rows : List Row) : Except QueryError QueryResult :=
  match prepared.scanned with
  | none => .ok (emptyResult prepared.validated.aggregate)
  | some (schema, keeps) =>
    match prepared.validated.aggregate with
    | some aggregate => scan.executeAggregate schema aggregate (rows.filter keeps)
    | none => scan.executeRows columns prepared.validated.limit (rows.filter keeps)

/-- Run a query for a reader that may not see some content columns. -/
def Scan.runQuery (columns : List ContentColumn) (query : Query) (rows : List Row) :
    Except QueryError QueryResult := do
  let prepared ← scan.prepare columns query
  scan.finish columns prepared rows

end Ourios.Querier
