/-
# Predicate lowering

A predicate becomes a boolean expression over the union schema of the scanned
files (`plan/predicate.rs`, `body_match.rs`). A leaf over an OPTIONAL column no
scanned file has is folded to `false`, and the constants are folded through the
connectives. Body equality and attribute equality lower to two arms: one over the
stored column, one over what stands for it in the rows without.
-/

import Ourios.Miner.Template
import Ourios.Querier.Filter

namespace Ourios.Querier

open Ourios.Foundation Ourios.Miner

/-! ## Body literals -/

/-- The tokens of every registered template version. -/
abbrev TemplateRegistry := AList fun _ : Nat × Nat => List OwnedToken

/-- A template version a body literal may be an instance of, with the parameter
values it implies. -/
structure BodyLiteralMatch where
  templateId : Nat
  templateVersion : Nat
  params : List Text
  deriving DecidableEq, Repr

/-- Unify a template with the tokens of a literal; a wildcard captures its token. -/
def unify : List OwnedToken → List Text → Option (List Text)
  | [], [] => some []
  | .fixed fixed :: template, token :: tokens =>
    if fixed = token then unify template tokens else none
  | .wildcard :: template, token :: tokens => (unify template tokens).map (token :: ·)
  | _, _ => none

/-- The template versions a literal unifies with, in order. -/
def bodyLiteralCandidates (registry : TemplateRegistry) (literal : Text) : List BodyLiteralMatch :=
  match tokenize literal with
  | .error _ => []
  | .ok tokenized =>
    let candidates := registry.entries.filterMap fun entry =>
      (unify entry.2 tokenized.tokens).map fun params =>
        { templateId := entry.1.1, templateVersion := entry.1.2, params := params }
    candidates.mergeSort fun left right =>
      left.templateId < right.templateId ||
        (left.templateId == right.templateId && left.templateVersion ≤ right.templateVersion)

/-- What a body literal resolves to at plan time. -/
structure BodyEqualityPlan where
  candidates : List BodyLiteralMatch
  separators : List Text
  deriving DecidableEq, Repr

/-- Resolve a body literal against the registry. -/
def bodyEqualityPlan (registry : TemplateRegistry) (literal : Text) : BodyEqualityPlan :=
  { candidates := bodyLiteralCandidates registry literal
    separators := match tokenize literal with
      | .ok tokenized => tokenized.separators
      | .error _ => [] }

/-! ## Leaves -/

/-- What the lowering is given besides the predicate: the union schema, the alias
class of each template id, and the resolution of each body literal. The source
keeps the last two as maps filled from the same predicate beforehand. -/
structure Lowering where
  engine : Engine
  schema : Schema
  aliasClasses : Nat → List Nat
  bodyEqualities : Text → BodyEqualityPlan

/-- A lowered predicate: a constant, or an expression. -/
inductive PredExpr
  | all
  | none
  | filter (expr : Filter)
  deriving DecidableEq, Repr

def PredExpr.intoExpr : PredExpr → Filter
  | .all => .lit true
  | .none => .lit false
  | .filter expr => expr

variable (engine : Engine)

def PredExpr.verdict (row : Row) (expr : PredExpr) : Truth :=
  expr.intoExpr.eval engine row

def reduceOr : List Filter → Option Filter
  | [] => none
  | first :: rest => some (rest.foldl .or first)

/-- The severity of a record that has none. -/
def severityUnspecified : Int := 0

/-- Lower a severity comparison. A name is a band; a floor lets records of
unspecified severity through and a ceiling does not. -/
def compileSeverity (op : OrdOp) (value : SeverityValue) : PredExpr :=
  let sev := Term.col .severityNumber
  let cmp (op : OrdOp) (n : Int) : Filter := .compare op sev (.lit (.int n))
  let threshold := match value with
    | .name name => name.floor
    | .number n => n
  .filter <| match value, op with
    | .name name, .eq => .and (cmp .ge name.floor) (cmp .le name.ceil)
    | .name name, .ne => .or (cmp .lt name.floor) (cmp .gt name.ceil)
    | _, .ge | _, .gt =>
      if severityUnspecified < threshold then
        .or (cmp .eq severityUnspecified) (cmp op threshold)
      else cmp op threshold
    | _, .lt | _, .le =>
      if severityUnspecified < threshold then
        .and (cmp .ne severityUnspecified) (cmp op threshold)
      else cmp op threshold
    | _, _ => cmp op threshold

/-- The conjunction one candidate stands for. -/
def candidateArm (candidate : BodyLiteralMatch) (separators : List Text) : Filter :=
  let identity := Filter.and
    (.compare .eq (.col .templateId) (.lit (.int candidate.templateId)))
    (.compare .eq (.col .templateVersion) (.lit (.int candidate.templateVersion)))
  let withParams := candidate.params.zipIdx.foldl
    (fun arm (value, i) => .and arm (.compare .eq (.param i) (.lit (.text value)))) identity
  separators.zipIdx.foldl
    (fun arm (separator, k) => .and arm (.compare .eq (.separator k) (.lit (.text separator))))
    withParams

/-- Lower `body ==` and, negated, `body !=`. -/
def bodyEquality (plan : BodyEqualityPlan) (literal : Text) (schema : Schema) (negated : Bool) :
    PredExpr :=
  let stringKind := Filter.compare .eq (.col .bodyKind) (.lit (.int 0))
  let physicalPresent := hasColumn schema .body
  let templateArm := reduceOr (plan.candidates.map fun c => candidateArm c plan.separators)
  let bodyNull : Filter := if physicalPresent then .isNull (.col .body) else .lit true
  let minedBase := Filter.and (.and stringKind (.not (.flag .lossyFlag))) bodyNull
  if negated then
    let minedNe := match templateArm with
      | some arm => Filter.and minedBase (.isNotTrue arm)
      | none => minedBase
    .filter <| if physicalPresent then
      .or (.and (.and stringKind (.isNotNull (.col .body)))
          (.compare .ne (.col .body) (.lit (.text literal)))) minedNe
    else minedNe
  else
    let physicalEq := Filter.and stringKind (.compare .eq (.col .body) (.lit (.text literal)))
    let templateEq := templateArm.map (Filter.and minedBase)
    match physicalPresent, templateEq with
    | true, some template => .filter (.or physicalEq template)
    | true, none => .filter physicalEq
    | false, some template => .filter template
    | false, none => .none

/-- The column of a field, and whether it is OPTIONAL. -/
def columnOf : Field → Column × Bool
  | .body => (.body, true)
  | .severity => (.severityNumber, false)
  | .ts => (.timeUnixNano, false)
  | .observedTs => (.observedTimeUnixNano, true)
  | .traceId => (.traceId, true)
  | .spanId => (.spanId, true)
  | .scope => (.scopeName, true)
  | .eventName => (.eventName, true)
  | .flags => (.flags, false)
  | .templateId => (.templateId, false)
  | .confidence => (.confidence, false)
  | .lossy => (.lossyFlag, false)
  | .service | .resource _ | .attr _ => (.resourceAttributes, false)

/-- The fields the regular expression operators apply to. -/
def isTextField : Field → Bool
  | .body | .scope | .eventName => true
  | _ => false

def stringLiteral (field : Field) : Value → Except QueryError Text
  | .str text => .ok text
  | _ => .error (.invalidQuery (fieldName field ++ " expects a string literal".toList))

/-- The value of a hexadecimal digit of either case. -/
def hexDigit (c : Char) : Option Nat :=
  if c.isDigit then some (c.toNat - '0'.toNat)
  else if 'a' ≤ c ∧ c ≤ 'f' then some (c.toNat - 'a'.toNat + 10)
  else if 'A' ≤ c ∧ c ≤ 'F' then some (c.toNat - 'A'.toNat + 10)
  else none

def hexPairs : Text → Option (List (BitVec 8))
  | [] => some []
  | high :: low :: rest => do
    let high ← hexDigit high
    let low ← hexDigit low
    let bytes ← hexPairs rest
    return BitVec.ofNat 8 (16 * high + low) :: bytes
  | [_] => none

def hexBytes (field : Field) (literal : Text) : Except QueryError (List (BitVec 8)) :=
  let want := match field with
    | .traceId => 16
    | _ => 8
  let err := QueryError.invalidQuery
    (fieldName field ++ " expects a ".toList ++ Text.ofNat (want * 2) ++ "-hex-digit id".toList)
  if literal.byteLen ≠ want * 2 then .error err
  else match hexPairs literal with
    | some bytes => .ok bytes
    | none => .error err

/-- The literal of a comparison over a first-class column, in its stored type. -/
def fieldLiteral (field : Field) (value : Value) : Except QueryError Scalar :=
  let typeErr (want : String) : Except QueryError Scalar :=
    .error (.invalidQuery
      (fieldName field ++ " expects a ".toList ++ want.toList ++ " literal".toList))
  match field with
  | .ts | .observedTs => match value with
      | .timestamp literal => do
        let ns ← timestampNanos engine literal
        let bound ← timeBoundScalar ns
        return .int bound
      | .int n =>
        if n < 0 then typeErr "non-negative timestamp"
        else do
          let bound ← timeBoundScalar n.toNat
          return .int bound
      | _ => typeErr "timestamp"
  | .traceId | .spanId => match value with
      | .str literal => (hexBytes field literal).map .bytes
      | _ => typeErr "hex-string"
  | .templateId => match value with
      | .int n => if n < 0 then typeErr "non-negative integer" else .ok (.int n)
      | _ => typeErr "integer"
  | .confidence => match value with
      | .float bits => .ok (.f32 (engine.f32OfF64 bits))
      | .int n => .ok (.f32 (engine.f32OfInt n))
      | _ => typeErr "number"
  | .lossy => match value with
      | .bool b => .ok (.bool b)
      | _ => typeErr "boolean"
  | .flags => match value with
      | .int n => if n < 0 ∨ 2 ^ 32 ≤ n then typeErr "u32 integer" else .ok (.int n)
      | _ => typeErr "integer"
  | _ => (stringLiteral field value).map .text

def columnComparison (field : Field) (op : CmpOp) (value : Value)
    (schema : Schema) : Except QueryError PredExpr :=
  let (column, optional) := columnOf field
  if (op = .matches ∨ op = .notMatches) ∧ isTextField field = false then
    .error (.invalidQuery
      ("the regex operators =~ / !~ are not defined on ".toList ++ fieldName field))
  else if optional ∧ hasColumn schema column = false then .ok .none
  else match op with
    | .ord op => do
      let literal ← fieldLiteral engine field value
      return .filter (.compare op (.col column) (.lit literal))
    | .matches => do
      let pattern ← stringLiteral field value
      return .filter (.regexpLike (.col column) pattern)
    | .notMatches => do
      let pattern ← stringLiteral field value
      return .filter (.not (.regexpLike (.col column) pattern))

/-! ## Attributes -/

def promotedColumnName (column : Column) (key : Text) : Column :=
  match column with
  | .resourceAttributes => .promotedResource key
  | _ => .promotedAttr key

def promotedName (column : Column) (key : Text) : Text :=
  match column with
  | .resourceAttributes => "resource.".toList ++ key
  | _ => "attr.".toList ++ key

/-- Whether a key is short enough for a pattern per tail. -/
def tabled (key : Text) : Bool := key.byteLen ≤ 1024 && (dotTails key).length + 1 ≤ 16

/-- The substrings a row that can match contains one of. -/
def jsonPatterns (key expected : Text) (eq : Bool) : List Text :=
  let dotted := !(dotTails key).isEmpty
  if eq && dotted then [expected.drop (typePrefix expected).length ++ ['}']]
  else if !eq && dotted && !tabled key then [",\"value\":".toList ++ typePrefix expected]
  else (storedKeys key).map fun stored =>
    if eq then encodePair stored (some expected)
    else "\x7b\"key\":".toList ++ jsonQuote stored ++ ",\"value\":".toList ++ typePrefix expected

/-- The arm of an attribute comparison over the stored JSON: a substring prefilter
and the comparison itself. -/
def jsonArm (column : Column) (key : Text) (eq : Bool) (value : AnyValue) : Filter :=
  let expected := encodeAnyValue engine value
  let candidates := (jsonPatterns key expected eq).map fun pattern =>
    Filter.like (.col column) ('%' :: likeEscape pattern ++ ['%'])
  .and ((reduceOr candidates).getD (.lit false)) (.attrCmp column key expected eq)

inductive NumericClass
  | i64 | f64
  deriving DecidableEq, Repr

def NumericClass.name : NumericClass → Text
  | .i64 => "i64".toList
  | .f64 => "f64".toList

/-- The literal of a comparison with a numeric promoted key, and the integer the
JSON arm looks for. -/
def NumericClass.literal (engine : Engine) : NumericClass → Value →
    Except String (Scalar × Option Int)
  | .i64, .int n => .ok (.int n, some n)
  | .f64, .int n => .ok (.f64 (engine.f64OfInt n), none)
  | .f64, .float bits => .ok (.f64 bits, none)
  | .i64, .float _ => .error "compare it with an integer literal, not a float"
  | _, _ => .error "compare it with a numeric literal, not a string"

/-- Lower a comparison with a numeric promoted key. -/
def numericAttrMatch (column : Column) (key : Text) (op : CmpOp) (value : Value)
    (numeric : NumericClass) : Except QueryError PredExpr :=
  let classErr (what : String) : Except QueryError PredExpr :=
    .error (.invalidQuery ("'".toList ++ promotedName column key ++ "' is promoted as ".toList ++
      numeric.name ++ ": ".toList ++ what.toList ++ " (RFC 0042 §3.4)".toList))
  let p := Term.col (promotedColumnName column key)
  match numeric.literal engine value with
  | .error what => classErr what
  | .ok (literal, forJson) =>
    match op with
    | .matches | .notMatches => classErr "regex applies to string-class keys only"
    | .ord op =>
      if op = .eq ∨ op = .ne then
        let typed := if op = .eq then Filter.compare .eq p (.lit literal)
          else .and (.isNotNull p) (.compare .ne p (.lit literal))
        match forJson with
        | none => .ok (.filter typed)
        | some n => .ok (.filter (.or typed
            (.and (.isNull p) (jsonArm engine column key (op = .eq) (.int n)))))
      else .ok (.filter (.compare op p (.lit literal)))

/-- Lower a comparison with an attribute. With a promoted column, equality takes
the column's value where it has one and the stored JSON where it is null; without
it, the stored JSON alone. -/
def attrMatch (column : Column) (key : Text) (op : CmpOp) (value : Value)
    (schema : Schema) : Except QueryError PredExpr :=
  let promoted := promotedColumnName column key
  if hasColumn schema column = false then .ok .none
  else match schema promoted with
    | some .int64 => numericAttrMatch engine column key op value .i64
    | some .float64 => numericAttrMatch engine column key op value .f64
    | present => match value with
        | .str literal =>
          let p := Term.col promoted
          let json (eq : Bool) := jsonArm engine column key eq (.string literal)
          let compare (op : OrdOp) := Filter.compare op p (.lit (.text literal))
          let needsColumn (expr : Filter) : Except QueryError PredExpr :=
            if present.isSome then .ok (.filter expr)
            else .error (.invalidQuery
              "non-promoted attributes support only == / != in this query surface".toList)
          match op with
          | .ord .eq =>
            if present.isSome then
              .ok (.filter (.or (compare .eq) (.and (.isNull p) (json true))))
            else .ok (.filter (json true))
          | .ord .ne =>
            if present.isSome then
              .ok (.filter (.or (.and (.isNotNull p) (compare .ne))
                (.and (.isNull p) (json false))))
            else .ok (.filter (json false))
          | .ord op => needsColumn (compare op)
          | .matches => needsColumn (.regexpLike p literal)
          | .notMatches => needsColumn (.not (.regexpLike p literal))
        | _ => .error (.invalidQuery
            "attribute comparisons take a string value in this query surface".toList)

/-! ## Calls and connectives -/

/-- The column and the key an attribute-backed field is looked up by. -/
def Field.keyed? : Field → Option (Column × Text)
  | .service => some (.resourceAttributes, "service.name".toList)
  | .resource key => some (.resourceAttributes, key)
  | .attr key => some (.attributes, key)
  | _ => none

def compileComparison (lowering : Lowering) (field : Field) (op : CmpOp) (value : Value) :
    Except QueryError PredExpr :=
  let engine := lowering.engine
  let schema := lowering.schema
  match field, op, value with
  | .body, .ord .eq, .str literal =>
    .ok (bodyEquality (lowering.bodyEqualities literal) literal schema false)
  | .body, .ord .ne, .str literal =>
    .ok (bodyEquality (lowering.bodyEqualities literal) literal schema true)
  | .service, _, _ => attrMatch engine .resourceAttributes "service.name".toList op value schema
  | .resource key, _, _ => attrMatch engine .resourceAttributes key op value schema
  | .attr key, _, _ => attrMatch engine .attributes key op value schema
  | _, _, _ => columnComparison engine field op value schema

def stringCallColumn : Field → Except QueryError Column
  | .body => .ok .body
  | .scope => .ok .scopeName
  | .eventName => .ok .eventName
  | .traceId => .error (.invalidQuery
      "string functions are not defined on the binary id field trace_id".toList)
  | .spanId => .error (.invalidQuery
      "string functions are not defined on the binary id field span_id".toList)
  | .service | .resource _ | .attr _ => .error (.invalidQuery
      "string functions on attribute fields are not supported in this query surface".toList)
  | other => .error (.invalidQuery (fieldName other ++ " is not a string field".toList))

def stringCall (field : Field) (schema : Schema) (build : Term → Filter) :
    Except QueryError PredExpr := do
  let column ← stringCallColumn field
  if (columnOf field).2 ∧ hasColumn schema column = false then return .none
  return .filter (build (.col column))

/-- Join a term to the expression a connective has built so far. -/
def joinTerm (isAnd : Bool) (acc : Option Filter) (expr : Filter) : Filter :=
  match acc with
  | some acc => if isAnd then .and acc expr else .or acc expr
  | none => expr

def compileCall (lowering : Lowering) : Call → Except QueryError PredExpr
  | .matches field arg => stringCall field lowering.schema (.regexpLike · arg)
  | .contains field arg =>
    stringCall field lowering.schema (.like · ('%' :: likeEscape arg ++ ['%']))
  | .startsWith field arg => stringCall field lowering.schema (.startsWith · arg)
  | .endsWith field arg => stringCall field lowering.schema (.like · ('%' :: likeEscape arg))
  | .resolvesTo id => .ok (.filter (.inList (.col .templateId) (lowering.aliasClasses id)))

/-- The field a string function reads and the test it makes; `resolves_to` reads
none. -/
def Call.operand : Call → Option (Field × (Term → Filter))
  | .matches field arg => some (field, (.regexpLike · arg))
  | .contains field arg => some (field, (.like · ('%' :: likeEscape arg ++ ['%'])))
  | .startsWith field arg => some (field, (.startsWith · arg))
  | .endsWith field arg => some (field, (.like · ('%' :: likeEscape arg)))
  | .resolvesTo _ => none

theorem compileCall_of_operand (lowering : Lowering) {call : Call} {field : Field}
    {build : Term → Filter} (h : call.operand = some (field, build)) :
    compileCall lowering call = stringCall field lowering.schema build := by
  cases call <;> cases h <;> rfl

theorem Call.eq_resolvesTo {call : Call} (h : call.operand = none) :
    ∃ id, call = .resolvesTo id := by
  cases call with
  | resolvesTo id => exact ⟨id, rfl⟩
  | _ => cases h

mutual

def compilePredicate (lowering : Lowering) : Predicate → Except QueryError PredExpr
  | .bool true => .ok .all
  | .bool false => .ok .none
  | .not inner => do
    match ← compilePredicate lowering inner with
    | .all => return .none
    | .none => return .all
    | .filter expr => return .filter (.not expr)
  | .and terms => combine lowering true none terms
  | .or terms => combine lowering false none terms
  | .comparison field op value => compileComparison lowering field op value
  | .severity op value => .ok (compileSeverity op value)
  | .call call => compileCall lowering call

/-- Lower the terms of a connective from left to right: the unit is dropped, and
the deciding constant ends the loop before the later terms are looked at. -/
def combine (lowering : Lowering) (isAnd : Bool) (acc : Option Filter) :
    List Predicate → Except QueryError PredExpr
  | [] => match acc with
      | some expr => .ok (.filter expr)
      | none => .ok (if isAnd then .all else .none)
  | term :: terms => do
    match ← compilePredicate lowering term, isAnd with
    | .all, true | .none, false => combine lowering isAnd acc terms
    | .none, true => return .none
    | .all, false => return .all
    | .filter expr, _ => combine lowering isAnd (some (joinTerm isAnd acc expr)) terms

end

/-! ## The prefilter admits every match -/

theorem typePrefix_append_drop (expected : Text) :
    typePrefix expected ++ expected.drop (typePrefix expected).length = expected := by
  have hstarts : typePrefix expected <+: expected := by
    unfold typePrefix
    split
    · rename_i before rest hspan
      rw [List.span_eq_takeWhile_dropWhile, Prod.mk.injEq] at hspan
      have hwhole := List.takeWhile_append_dropWhile (p := (decide <| · ≠ ':')) (l := expected)
      rw [hspan.1, hspan.2] at hwhole
      exact ⟨rest, by rw [← hwhole]; simp⟩
    · exact List.prefix_rfl
  exact (List.prefix_append_drop hstarts).symm

/-- A row the comparison accepts contains one of the prefilter's substrings. -/
theorem attrCmp_pattern {attributes : List KeyValue} {key expected : Text}
    {eq : Bool} (h : attrCmp engine attributes key expected eq = true) :
    ∃ pattern ∈ jsonPatterns key expected eq, pattern <:+: encodeAttributes engine attributes := by
  unfold attrCmp at h
  split at h
  case h_2 => cases h
  rename_i value hresolve
  obtain ⟨stored, hstored, hinfix⟩ := resolve_infix engine hresolve
  have hpair : ∀ text, encodePair stored (some text) = "\x7b\"key\":".toList ++ jsonQuote stored ++
      ",\"value\":".toList ++ text ++ ['}'] := fun _ => rfl
  cases eq with
  | true =>
    have htext : encodeAnyValue engine value = expected := by simpa using h
    rw [htext] at hinfix
    unfold jsonPatterns
    by_cases hdotted : (dotTails key).isEmpty = true
    · -- Without a dot the pair itself is the pattern.
      simp only [hdotted, Bool.not_true, Bool.and_false, Bool.false_eq_true, if_false, if_true]
      exact ⟨_, List.mem_map_of_mem hstored, hinfix⟩
    · simp only [hdotted, Bool.not_false, Bool.and_self, if_true]
      have hsplit : encodePair stored (some expected) =
          ("\x7b\"key\":".toList ++ jsonQuote stored ++ ",\"value\":".toList ++
            typePrefix expected) ++ (expected.drop (typePrefix expected).length ++ ['}']) := by
        rw [hpair, List.append_assoc _ (typePrefix expected), ← List.append_assoc
          (typePrefix expected), typePrefix_append_drop, ← List.append_assoc]
      rw [hsplit] at hinfix
      exact ⟨_, List.mem_singleton_self _, (List.suffix_append _ _).isInfix.trans hinfix⟩
  | false =>
    have hstarts : typePrefix expected <+: encodeAnyValue engine value := by
      simp only [Bool.false_eq_true, if_false, Bool.and_eq_true, List.isPrefixOf_iff_prefix] at h
      exact h.1
    obtain ⟨rest, hrest⟩ := hstarts
    rw [← hrest, hpair] at hinfix
    unfold jsonPatterns
    simp only [Bool.false_and, Bool.false_eq_true, if_false, Bool.not_false, Bool.true_and]
    split
    · refine ⟨_, List.mem_singleton_self _, .trans ?_ hinfix⟩
      exact ⟨"\x7b\"key\":".toList ++ jsonQuote stored, rest ++ ['}'],
        by simp only [List.append_assoc]⟩
    · refine ⟨_, List.mem_map_of_mem hstored, .trans ?_ hinfix⟩
      exact ⟨[], rest ++ ['}'], by simp only [List.append_assoc, List.nil_append]⟩

/-- The cell of an attribute column is the stored text of its list. -/
def Column.IsAttributes (column : Column) : Prop :=
  column = .attributes ∨ column = .resourceAttributes

theorem Column.IsAttributes.cell {column : Column} (h : column.IsAttributes) (engine : Engine)
    (row : Row) :
    row.cell engine column = .text (encodeAttributes engine (row.attributeList column)) := by
  rcases h with rfl | rfl <;> rfl

variable {engine : Engine} {row : Row}

/-- A disjunction of tests that are never null holds as soon as one of them does. -/
theorem foldl_or_eval {α : Type} {build : α → Filter} {test : α → Bool} {items : List α}
    (h : ∀ item ∈ items, (build item).eval engine row = some (test item)) {start : Filter}
    {started : Bool} (hstart : start.eval engine row = some started) :
    ((items.map build).foldl .or start).eval engine row = some (started || items.any test) := by
  induction items generalizing start started with
  | nil => simpa using hstart
  | cons item items ih =>
    obtain ⟨hitem, hitems⟩ := List.forall_mem_cons.mp h
    have hjoined : (Filter.or start (build item)).eval engine row =
        some (started || test item) := by
      rw [Filter.eval, hstart, hitem]
      cases started <;> rfl
    rw [List.map_cons, List.foldl_cons, ih hitems hjoined, List.any_cons, Bool.or_assoc]

theorem reduceOr_eval {α : Type} {build : α → Filter} {test : α → Bool} {items : List α}
    (h : ∀ item ∈ items, (build item).eval engine row = some (test item)) :
    ((reduceOr (items.map build)).getD (.lit false)).eval engine row = some (items.any test) := by
  cases items with
  | nil => rfl
  | cons item items =>
    obtain ⟨hitem, hitems⟩ := List.forall_mem_cons.mp h
    exact foldl_or_eval hitems hitem

/-- The arm over the stored JSON is the comparison itself: it is never null, and
its prefilter drops nothing the comparison accepts. -/
theorem jsonArm_eval {column : Column} (hcolumn : column.IsAttributes) (key : Text) (eq : Bool)
    (value : AnyValue) :
    (jsonArm engine column key eq value).eval engine row =
      some (attrCmp engine (row.attributeList column) key (encodeAnyValue engine value) eq) := by
  let admits (pattern : Text) : Bool :=
    like ('%' :: likeEscape pattern ++ ['%']) (encodeAttributes engine (row.attributeList column))
  have hlike : ∀ pattern ∈ jsonPatterns key (encodeAnyValue engine value) eq,
      (Filter.like (.col column) ('%' :: likeEscape pattern ++ ['%'])).eval engine row =
        some (admits pattern) := by
    intro pattern _
    rw [Filter.eval, Term.eval, hcolumn.cell]
    rfl
  refine (congrArg₂ Truth.and (reduceOr_eval hlike) rfl).trans ?_
  cases hcmp : attrCmp engine (row.attributeList column) key (encodeAnyValue engine value) eq with
  | false => simp [Filter.eval, hcmp]
  | true =>
    obtain ⟨pattern, hmem, hinfix⟩ := attrCmp_pattern engine hcmp
    have hany : (jsonPatterns key (encodeAnyValue engine value) eq).any admits = true :=
      List.any_eq_true.mpr ⟨pattern, hmem, (like_contains_iff pattern _).mpr hinfix⟩
    rw [hany]
    simp [Filter.eval, hcmp]

end Ourios.Querier
