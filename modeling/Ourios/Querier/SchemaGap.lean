/-
# A column some scanned files lack

The union schema of a scan depends on which files it reads, so one row can be
matched under a schema with a column and under one without it. The lowering folds
a comparison over an absent OPTIONAL column to `false`, while over a present one
it reads the row's null and is unknown. The two agree on what they keep until a
negation stands above the comparison: `false` becomes `true` and unknown stays
unknown.

So a column never adds a row to an answer. It removes exactly the rows of which the
predicate is true only by counting a comparison that misses its value in the column
as false, and it removes none when the predicate mentions the column only under an
even number of negations. The same holds of promoting an attribute key that is
compared by equality.
-/

import Ourios.Foundation.FallibleFold
import Ourios.Querier.Meaning

namespace Ourios.Querier

open Ourios.Foundation

/-- Whether a lowered predicate keeps a row. -/
def PredExpr.keeps (engine : Engine) (row : Row) (expr : PredExpr) : Bool :=
  (expr.verdict engine row).holds

def Lowering.without (lowering : Lowering) (column : Column) : Lowering :=
  { lowering with schema := lowering.schema.without column }

def Column.isOptional : Column → Bool
  | .body | .observedTimeUnixNano | .traceId | .spanId | .scopeName | .eventName => true
  | _ => false

/-- A column that tells nothing of a row beyond its own file: an OPTIONAL column
that is null in it, or a promoted string column that holds the projection of the
row's attribute list or, in a file written before the promotion, null. -/
inductive ColumnGap (engine : Engine) (schema : Schema) (row : Row) : Column → Prop
  | optional {column : Column} (hoptional : column.isOptional = true)
      (hnull : row.cell engine column = .null) : ColumnGap engine schema row column
  | promotedResource {key : Text} (htype : schema (.promotedResource key) = some .utf8)
      (hcell : row.promotedResource key =
          .ofOption .text (projectStringValue row.record.resourceAttributes key) ∨
        row.promotedResource key = .null) :
      ColumnGap engine schema row (.promotedResource key)
  | promotedAttr {key : Text} (htype : schema (.promotedAttr key) = some .utf8)
      (hcell : row.promotedAttr key =
          .ofOption .text (projectStringValue row.record.attributes key) ∨
        row.promotedAttr key = .null) :
      ColumnGap engine schema row (.promotedAttr key)

/-- The column whose presence a comparison of a field depends on. -/
def Field.dependsOn : Field → Column
  | .service => .promotedResource "service.name".toList
  | .resource key => .promotedResource key
  | .attr key => .promotedAttr key
  | field => (columnOf field).1

/-- The column whose presence the lowering of a leaf depends on. -/
def PredicateLeaf.dependsOn : PredicateLeaf → Option Column
  | .comparison field _ _ => some field.dependsOn
  | .call asked => asked.operand.map fun operand => (columnOf operand.1).1
  | .severity _ _ => none

/-- Whether a leaf is unknown on a row for a null in the column it depends on.
`body == "…"` is false of a body that is no string whatever the column holds, `!=`
tests for the null first, and so do the comparisons of an attribute but for `==`. -/
def PredicateLeaf.unknownOnNull (schema : Schema) (row : Row) : PredicateLeaf → Bool
  | .comparison .body (.ord .eq) (.str _) => row.record.bodyKind == .string
  | .comparison .body (.ord .ne) (.str _) => false
  | .comparison field op _ => match field.keyed? with
    | some (source, _) => hasColumn schema source && op == .ord .eq
    | none => true
  | .severity _ _ | .call _ => true

/-- A leaf misses its value in a column the schema has: the row's cell is null, and
the leaf does not look elsewhere. -/
def Lowering.misses (lowering : Lowering) (row : Row) (column : Column) (term : PredicateLeaf) :
    Bool :=
  term.dependsOn == some column && hasColumn lowering.schema column &&
    row.cell lowering.engine column == .null && term.unknownOnNull lowering.schema row

section Gap

variable {lowering : Lowering} {row : Row} {column : Column}

theorem ColumnGap.not_isAttributes (h : ColumnGap lowering.engine lowering.schema row column) :
    ¬ column.IsAttributes := by
  rintro (rfl | rfl) <;> cases h with
  | optional hoptional _ => cases hoptional

variable {schema : Schema} {engine : Engine} {source : Column} {field : Field} {term : Term}
  {call : Call} {op : CmpOp} {value : Value} {expr expr' : PredExpr} {key : Text}

theorem hasColumn_without {other : Column} (h : other ≠ column) :
    hasColumn (schema.without column) other = hasColumn schema other := by
  rw [hasColumn, hasColumn, Schema.without_of_ne schema h]

@[simp] theorem hasColumn_without_self :
    hasColumn (schema.without column) column = false := by
  simp [hasColumn]

theorem keyed_column (h : field.keyed? = some (source, key)) :
    source.IsAttributes ∧ field.dependsOn = promotedColumnName source key := by
  cases field <;> cases h
  · exact ⟨.inr rfl, rfl⟩
  · exact ⟨.inr rfl, rfl⟩
  · exact ⟨.inl rfl, rfl⟩

theorem dependsOn_column (h : field.keyed? = none) : field.dependsOn = (columnOf field).1 := by
  cases field <;> first | rfl | cases h

/-- A comparison is one of a body with a text, of an attribute or of a column. -/
theorem compileComparison_cases (field : Field) (op : CmpOp) (value : Value) :
    (∃ literal negated, field = .body ∧
      (∀ schema row, (PredicateLeaf.comparison field op value).unknownOnNull schema row =
        (!negated && row.record.bodyKind == .string)) ∧
      ∀ lowering, compileComparison lowering field op value =
        .ok (bodyEquality (lowering.bodyEqualities literal) literal lowering.schema negated)) ∨
    (∃ source key, field.keyed? = some (source, key) ∧
      (∀ schema row, (PredicateLeaf.comparison field op value).unknownOnNull schema row =
        (hasColumn schema source && op == .ord .eq)) ∧
      ∀ lowering, compileComparison lowering field op value =
        attrMatch lowering.engine source key op value lowering.schema) ∨
    (field.keyed? = none ∧
      (∀ schema row, (PredicateLeaf.comparison field op value).unknownOnNull schema row = true) ∧
      ∀ lowering, compileComparison lowering field op value =
        columnComparison lowering.engine field op value lowering.schema) := by
  unfold compileComparison
  split
  · exact .inl ⟨_, _, rfl, fun _ _ => rfl, fun _ => rfl⟩
  · exact .inl ⟨_, _, rfl, fun _ _ => rfl, fun _ => rfl⟩
  · exact .inr (.inl ⟨_, _, rfl, fun _ _ => rfl, fun _ => rfl⟩)
  · exact .inr (.inl ⟨_, _, rfl, fun _ _ => rfl, fun _ => rfl⟩)
  · exact .inr (.inl ⟨_, _, rfl, fun _ _ => rfl, fun _ => rfl⟩)
  · have hkey : field.keyed? = none := by
      cases field <;> simp_all [Field.keyed?]
    refine .inr (.inr ⟨hkey, fun schema row => ?_, fun _ => rfl⟩)
    unfold PredicateLeaf.unknownOnNull
    split <;> simp_all

/-! ### Leaves that do not depend on the column -/

theorem columnComparison_without (field : Field) (op : CmpOp) (value : Value)
    (h : (columnOf field).1 ≠ column) :
    columnComparison engine field op value (schema.without column) =
      columnComparison engine field op value schema := by
  simp only [columnComparison, hasColumn_without h]

theorem stringCall_without (field : Field) (build : Term → Filter)
    (h : (columnOf field).1 ≠ column) :
    stringCall field (schema.without column) build = stringCall field schema build := by
  unfold stringCall
  cases hcolumn : stringCallColumn field with
  | error error => rfl
  | ok called =>
    have hsame : called = (columnOf field).1 := by
      cases field <;> simp_all [stringCallColumn, columnOf]
    subst hsame
    simp only [bind, Except.bind, hasColumn_without h]

theorem attrMatch_without (key : Text) (op : CmpOp) (value : Value) (hsource : source ≠ column)
    (hpromoted : promotedColumnName source key ≠ column) :
    attrMatch engine source key op value (schema.without column) =
      attrMatch engine source key op value schema := by
  simp only [attrMatch, hasColumn_without hsource, Schema.without_of_ne schema hpromoted]

theorem bodyEquality_without (plan : BodyEqualityPlan) (literal : Text) (negated : Bool)
    (h : Column.body ≠ column) :
    bodyEquality plan literal (schema.without column) negated =
      bodyEquality plan literal schema negated := by
  simp only [bodyEquality, hasColumn_without h]

theorem compileComparison_without (field : Field) (op : CmpOp) (value : Value)
    (hattributes : ¬ column.IsAttributes) (h : field.dependsOn ≠ column) :
    compileComparison (lowering.without column) field op value =
      compileComparison lowering field op value := by
  obtain ⟨literal, negated, rfl, -, heq⟩ | ⟨source, key, hkey, -, heq⟩ | ⟨hkey, -, heq⟩ :=
    compileComparison_cases field op value
  · rw [heq, heq]
    exact congrArg Except.ok (bodyEquality_without _ _ _ h)
  · obtain ⟨hsource, hdepends⟩ := keyed_column hkey
    rw [hdepends] at h
    rw [heq, heq]
    exact attrMatch_without key op value (fun hsame => hattributes (hsame ▸ hsource)) h
  · rw [dependsOn_column hkey] at h
    rw [heq, heq]
    exact columnComparison_without field op value h

/-- A leaf that does not depend on a column lowers the same with and without it. -/
theorem compileLeaf_without {term : PredicateLeaf} (hattributes : ¬ column.IsAttributes)
    (h : term.dependsOn ≠ some column) :
    compileLeaf (lowering.without column) term = compileLeaf lowering term := by
  cases term with
  | comparison field op value =>
    exact compileComparison_without field op value hattributes fun heq => h (congrArg some heq)
  | severity op value => rfl
  | call call =>
    cases hoperand : call.operand with
    | none =>
      obtain ⟨id, rfl⟩ := Call.eq_resolvesTo hoperand
      rfl
    | some operand =>
      rw [compileLeaf, compileLeaf, compileCall_of_operand _ hoperand,
        compileCall_of_operand _ hoperand]
      apply stringCall_without operand.1 operand.2
      intro heq
      exact h (by rw [PredicateLeaf.dependsOn, hoperand, ← heq]; rfl)

/-! ### Leaves over an OPTIONAL column that is null in the row -/

theorem optional_of_isOptional (h : (columnOf field).1.isOptional = true) :
    (columnOf field).2 = true := by
  cases field <;> first | rfl | cases h

/-- A lowered leaf beside what it lowers to without the column: the verdict is the
same but for a lost `false`. -/
def PredExpr.LosesTo (engine : Engine) (row : Row) (lost : Bool) (expr : PredExpr) :
    Except QueryError PredExpr → Prop
  | .ok expr' => Truth.Loses lost (expr.verdict engine row) (expr'.verdict engine row)
  | .error _ => lost = false

/-- A test of a null cell is unknown; the folded leaf is false. -/
theorem losesTo_none {expr : Filter} (h : expr.eval engine row = none) :
    (PredExpr.filter expr).LosesTo engine row true (.ok .none) := by
  change Truth.Loses true (expr.eval engine row) (some false)
  rw [h]
  exact .of_none

theorem isNull_eval {cell : Scalar} (h : term.eval engine row = cell) :
    (Filter.isNull term).eval engine row = some (cell == .null) := by
  rw [Filter.eval, h]

theorem isNotNull_eval {cell : Scalar} (h : term.eval engine row = cell) :
    (Filter.isNotNull term).eval engine row = some (cell != .null) := by
  rw [Filter.eval, h]

theorem compare_null (h : term.eval engine row = .null) (op : OrdOp) (right : Term) :
    (Filter.compare op term right).eval engine row = none := by
  rw [Filter.eval, h]
  rfl

theorem regexpLike_null (h : term.eval engine row = .null) (pattern : Text) :
    (Filter.regexpLike term pattern).eval engine row = none := by
  rw [Filter.eval, h]
  rfl

theorem operand_null (h : term.eval engine row = .null) {build : Term → Filter}
    (hoperand : call.operand = some (field, build)) : (build term).eval engine row = none := by
  cases call <;> cases hoperand <;> rw [Filter.eval, h] <;> rfl

theorem columnComparison_gap (hoptional : (columnOf field).1.isOptional = true)
    (hnull : row.cell engine (columnOf field).1 = .null)
    (hwith : columnComparison engine field op value schema = .ok expr) :
    expr.LosesTo engine row (hasColumn schema (columnOf field).1)
      (columnComparison engine field op value (schema.without (columnOf field).1)) := by
  have hterm : (Term.col (columnOf field).1).eval engine row = .null := hnull
  have hflag := optional_of_isOptional hoptional
  unfold columnComparison at hwith ⊢
  dsimp only at hwith ⊢
  split at hwith
  case isTrue => cases hwith
  rename_i hregex
  rw [if_neg hregex, if_pos ⟨hflag, hasColumn_without_self⟩]
  split at hwith
  · rename_i habsent
    cases hwith
    rw [habsent.2]
    exact Truth.Loses.refl _
  rename_i hpresent
  rw [Bool.eq_true_of_not_eq_false fun habsent => hpresent ⟨hflag, habsent⟩]
  cases op with
  | ord op =>
    obtain ⟨literal, -, hlowered⟩ := bind_eq_ok_iff.mp hwith
    cases hlowered
    exact losesTo_none (compare_null hterm op _)
  | «matches» =>
    obtain ⟨pattern, -, hlowered⟩ := bind_eq_ok_iff.mp hwith
    cases hlowered
    exact losesTo_none (regexpLike_null hterm pattern)
  | notMatches =>
    obtain ⟨pattern, -, hlowered⟩ := bind_eq_ok_iff.mp hwith
    cases hlowered
    refine losesTo_none ?_
    rw [Filter.eval, regexpLike_null hterm]
    rfl

theorem stringCall_gap {build : Term → Filter} (hoperand : call.operand = some (field, build))
    (hoptional : (columnOf field).1.isOptional = true)
    (hnull : row.cell engine (columnOf field).1 = .null)
    (hwith : stringCall field schema build = .ok expr) :
    expr.LosesTo engine row (hasColumn schema (columnOf field).1)
      (stringCall field (schema.without (columnOf field).1) build) := by
  have hterm : (Term.col (columnOf field).1).eval engine row = .null := hnull
  have hflag := optional_of_isOptional hoptional
  unfold stringCall at hwith ⊢
  cases hcolumn : stringCallColumn field with
  | error error => simp [hcolumn, bind, Except.bind] at hwith
  | ok called =>
    have hsame : called = (columnOf field).1 := by
      cases field <;> simp_all [stringCallColumn, columnOf]
    subst hsame
    simp only [hcolumn, bind, Except.bind, pure, Except.pure] at hwith ⊢
    rw [if_pos ⟨hflag, hasColumn_without_self⟩]
    split at hwith <;> cases hwith
    · rename_i habsent
      rw [habsent.2]
      exact Truth.Loses.refl _
    · rename_i hpresent
      rw [Bool.eq_true_of_not_eq_false fun habsent => hpresent ⟨hflag, habsent⟩]
      exact losesTo_none (operand_null hterm hoperand)

/-- Body equality on a row without a stored body: the physical arm of `==` is
unknown where the folded one is false, and that of `!=` is false either way. -/
theorem bodyEquality_gap (plan : BodyEqualityPlan) (literal : Text) (negated : Bool)
    (hnull : row.cell engine .body = .null) :
    Truth.Loses (hasColumn schema .body && (!negated && row.record.bodyKind == .string))
      ((bodyEquality plan literal schema negated).verdict engine row)
      ((bodyEquality plan literal (schema.without .body) negated).verdict engine row) := by
  have hterm : (Term.col .body).eval engine row = .null := hnull
  have hkind : (Filter.compare .eq (.col .bodyKind) (.lit (.int 0))).eval engine row =
      some (row.record.bodyKind == .string) := by
    rw [Filter.eval, Term.eval, Term.eval, Row.cell]
    cases row.record.bodyKind <;> rfl
  generalize (row.record.bodyKind == BodyKind.string) = kind at hkind ⊢
  unfold bodyEquality
  rw [hasColumn_without_self]
  generalize reduceOr _ = arm
  cases arm <;> cases negated <;> cases hasColumn schema .body <;>
    simp only [if_true, Bool.false_eq_true, if_false, Option.map_none, Option.map_some,
      PredExpr.verdict, PredExpr.intoExpr, Filter.eval_and, Filter.eval_or, Filter.eval_lit, hkind,
      compare_null hterm, isNull_eval hterm, isNotNull_eval hterm, beq_self_eq_true,
      bne_self_eq_false, Truth.and_true, Truth.and_false, Truth.false_and, Truth.false_or]
  all_goals try exact .refl _
  · cases kind <;> simp [Truth.Loses, Truth.and]
  · -- The template arm stands beside an unknown or false physical arm.
    generalize Truth.and (Truth.and _ _) _ = template
    rcases template with _ | _ | _ <;> cases kind <;>
      simp [Truth.Loses, Truth.and, Truth.or]

/-! ### Leaves over a promoted string column -/

theorem typePrefix_append {before rest : Text} (h : ':' ∉ before) :
    typePrefix (before ++ ':' :: rest) = before ++ [':'] := by
  have hspan : (before ++ ':' :: rest).span (· ≠ ':') = (before, ':' :: rest) := by
    have hbefore : ∀ c ∈ before, decide (c ≠ ':') = true := by
      intro c hc
      have hne : c ≠ ':' := by
        rintro rfl
        exact h hc
      exact decide_eq_true hne
    rw [List.span_eq_takeWhile_dropWhile, List.takeWhile_append_of_pos hbefore,
      List.dropWhile_append_of_pos hbefore]
    simp
  rw [typePrefix, hspan]
  rfl

/-- How a string value starts, with its colon apart. -/
def stringOpen : Text := "\x7b\"stringValue\"".toList

theorem encodeAnyValue_string (engine : Engine) (text : Text) :
    encodeAnyValue engine (.string text) = stringOpen ++ ':' :: (jsonQuote text ++ ['}']) := by
  have hencode : encodeAnyValue engine (.string text) =
      "\x7b\"stringValue\":".toList ++ jsonQuote text ++ ['}'] := rfl
  have hopen : "\x7b\"stringValue\":".toList = stringOpen ++ [':'] := by decide
  rw [hencode, hopen, List.append_assoc, List.append_assoc, List.singleton_append]

theorem encodeAnyValue_string_inj (engine : Engine) {text other : Text} :
    encodeAnyValue engine (.string text) = encodeAnyValue engine (.string other) ↔
      text = other := by
  constructor
  · intro h
    rw [encodeAnyValue_string, encodeAnyValue_string] at h
    have htail := List.cons_injective (List.append_cancel_left h)
    exact jsonQuote_injective (List.append_cancel_right htail)
  · rintro rfl
    rfl

theorem typePrefix_string_starts (engine : Engine) (text other : Text) :
    typePrefix (encodeAnyValue engine (.string text)) <+:
      encodeAnyValue engine (.string other) := by
  rw [encodeAnyValue_string, encodeAnyValue_string, typePrefix_append (by decide)]
  exact ⟨jsonQuote other ++ ['}'], by simp⟩

/-- A key that resolves to a string is compared with the literal. -/
theorem attrCmp_string (engine : Engine) {attributes : List KeyValue} {text : Text}
    (h : resolve (key.length + 1) (attributePairs attributes) key = some (some (.string text)))
    (literal : Text) (eq : Bool) :
    attrCmp engine attributes key (encodeAnyValue engine (.string literal)) eq =
      (if eq then decide (text = literal) else decide (text ≠ literal)) := by
  rw [attrCmp, h]
  cases eq with
  | true => simp [encodeAnyValue_string_inj, beq_eq_decide]
  | false =>
    have hstarts := List.isPrefixOf_iff_prefix.mpr (typePrefix_string_starts engine literal text)
    simp [hstarts, encodeAnyValue_string_inj, bne, beq_eq_decide]

/-- A key is looked up before its splits, so it resolves to what its projection holds. -/
theorem resolve_projected {attributes : List KeyValue} {text : Text}
    (h : projectStringValue attributes key = some text) :
    resolve (key.length + 1) (attributePairs attributes) key = some (some (.string text)) := by
  obtain ⟨kv, hfind, hvalue⟩ := Option.bind_eq_some_iff.mp h
  have hkv : kv.value = some (.string text) := by
    unfold stringValue at hvalue
    split at hvalue
    · rename_i hkv
      rw [hkv, Option.some.inj hvalue]
    · cases hvalue
  have hpair : firstPair (attributePairs attributes) key = some (kv.key, kv.value) := by
    rw [firstPair, attributePairs, List.find?_map]
    exact congrArg (Option.map _) hfind
  rw [resolve, hpair, hkv]

section Arms

variable {column : Column} {text : Text} (literal : Text) (json : Filter)

attribute [local simp] Filter.eval Term.eval Scalar.compare OrdOp.holds bne

/-- Over a null cell the stored JSON decides, but for an equality it denies. -/
theorem twoArms_null (h : row.cell engine column = .null) :
    (Filter.or (.compare .eq (.col column) (.lit (.text literal)))
      (.and (.isNull (.col column)) json)).eval engine row = Truth.or none (json.eval engine row) ∧
    (Filter.or (.and (.isNotNull (.col column)) (.compare .ne (.col column) (.lit (.text literal))))
      (.and (.isNull (.col column)) json)).eval engine row = json.eval engine row := by
  simp [h]

theorem twoArms_text (h : row.cell engine column = .text text) :
    (Filter.or (.compare .eq (.col column) (.lit (.text literal)))
      (.and (.isNull (.col column)) json)).eval engine row = some (decide (text = literal)) ∧
    (Filter.or (.and (.isNotNull (.col column)) (.compare .ne (.col column) (.lit (.text literal))))
      (.and (.isNull (.col column)) json)).eval engine row = some (decide (text ≠ literal)) := by
  have htest : (Scalar.text text == .null) = false := rfl
  simp [h, htest]

end Arms

/-- A promoted cell is null, or it is the projection that the stored JSON resolves to. -/
theorem null_or_projected {projected : Option Text}
    (h : row.cell engine column = .ofOption .text projected ∨ row.cell engine column = .null) :
    row.cell engine column = .null ∨
      ∃ text, row.cell engine column = .text text ∧ projected = some text := by
  rcases h with hprojected | hnull
  · cases projected with
    | none => exact .inl hprojected
    | some text => exact .inr ⟨text, hprojected, rfl⟩
  · exact .inl hnull

/-- An attribute comparison with and without the promoted column of its key. -/
theorem attrMatch_gap (hsource : source.IsAttributes)
    (htype : schema (promotedColumnName source key) = some .utf8)
    (hcell : row.cell engine (promotedColumnName source key) =
        .ofOption .text (projectStringValue (row.attributeList source) key) ∨
      row.cell engine (promotedColumnName source key) = .null)
    (hwith : attrMatch engine source key op value schema = .ok expr) :
    expr.LosesTo engine row
      (hasColumn schema (promotedColumnName source key) &&
        (row.cell engine (promotedColumnName source key) == .null &&
          (hasColumn schema source && op == .ord .eq)))
      (attrMatch engine source key op value
        (schema.without (promotedColumnName source key))) := by
  have hne : source ≠ promotedColumnName source key := by
    rcases hsource with rfl | rfl <;> simp [promotedColumnName]
  have hpromoted : hasColumn schema (promotedColumnName source key) = true := by
    rw [hasColumn, htype]
    rfl
  rw [hpromoted, Bool.true_and]
  unfold attrMatch at hwith ⊢
  simp only [hasColumn_without hne, Schema.without_self, htype] at hwith ⊢
  split at hwith
  · rename_i habsent
    rw [if_pos habsent, habsent, Bool.false_and, Bool.and_false]
    cases hwith
    exact Truth.Loses.refl _
  rename_i hpresent
  rw [if_neg hpresent, Bool.eq_true_of_not_eq_false hpresent, Bool.true_and]
  cases value with
  | str literal =>
    cases op with
    | ord op =>
      cases op with
      | eq =>
        cases hwith
        change Truth.Loses _ _ ((jsonArm engine source key true (.string literal)).eval engine row)
        rw [PredExpr.verdict, PredExpr.intoExpr]
        rcases null_or_projected hcell with hnull | ⟨text, htext, hproject⟩
        · rw [(twoArms_null literal _ hnull).1, jsonArm_eval hsource, hnull]
          cases attrCmp engine (row.attributeList source) key _ true <;>
            simp [Truth.Loses, Truth.or]
        · rw [(twoArms_text literal _ htext).1, jsonArm_eval hsource,
            attrCmp_string engine (resolve_projected hproject), htext]
          exact .refl _
      | ne =>
        cases hwith
        rw [beq_false_of_ne (by decide : CmpOp.ord .ne ≠ .ord .eq), Bool.and_false]
        change Truth.Loses _ _ ((jsonArm engine source key false (.string literal)).eval engine row)
        rw [PredExpr.verdict, PredExpr.intoExpr]
        rcases null_or_projected hcell with hnull | ⟨text, htext, hproject⟩
        · rw [(twoArms_null literal _ hnull).2]
          exact .refl _
        · rw [(twoArms_text literal _ htext).2, jsonArm_eval hsource,
            attrCmp_string engine (resolve_projected hproject)]
          exact .refl _
      | _ => exact Bool.and_false _
    | _ => exact Bool.and_false _
  | _ => cases hwith

/-! ### All leaves -/

theorem misses_eq {leaf : PredicateLeaf} (h : leaf.dependsOn = some column) :
    lowering.misses row column leaf = (hasColumn lowering.schema column &&
      (row.cell lowering.engine column == .null && leaf.unknownOnNull lowering.schema row)) := by
  rw [Lowering.misses, h, beq_self_eq_true, Bool.true_and, Bool.and_assoc]

variable (hgap : ColumnGap lowering.engine lowering.schema row column)
include hgap

theorem compileCall_gap (hdepends : (PredicateLeaf.call call).dependsOn = some column)
    (hwith : compileCall lowering call = .ok expr) :
    expr.LosesTo lowering.engine row (lowering.misses row column (.call call))
      (compileCall (lowering.without column) call) := by
  rw [misses_eq hdepends]
  cases hoperand : call.operand with
  | none => simp [PredicateLeaf.dependsOn, hoperand] at hdepends
  | some operand =>
    obtain ⟨field, build⟩ := operand
    have hcolumn : (columnOf field).1 = column := by
      simpa [PredicateLeaf.dependsOn, hoperand] using hdepends
    rw [compileCall_of_operand _ hoperand] at hwith ⊢
    cases hgap with
    | optional hoptional hnull =>
      subst hcolumn
      rw [hnull, PredicateLeaf.unknownOnNull, beq_self_eq_true, Bool.true_and, Bool.and_true]
      exact stringCall_gap hoperand hoptional hnull hwith
    | promotedResource | promotedAttr => cases field <;> cases hcolumn

theorem compileComparison_gap
    (hdepends : (PredicateLeaf.comparison field op value).dependsOn = some column)
    (hwith : compileComparison lowering field op value = .ok expr) :
    expr.LosesTo lowering.engine row (lowering.misses row column (.comparison field op value))
      (compileComparison (lowering.without column) field op value) := by
  rw [misses_eq hdepends]
  obtain rfl : field.dependsOn = column := Option.some.inj hdepends
  obtain ⟨literal, negated, rfl, hunknown, heq⟩ | ⟨source, key, hkey, hunknown, heq⟩ |
    ⟨hkey, hunknown, heq⟩ := compileComparison_cases field op value
  all_goals
    rw [heq] at hwith ⊢
    rw [hunknown]
  · cases hgap with
    | optional hoptional hnull =>
      cases hwith
      rw [hnull, beq_self_eq_true, Bool.true_and]
      exact bodyEquality_gap _ _ negated hnull
  · obtain ⟨hsource, hdepends⟩ := keyed_column hkey
    rw [hdepends] at hgap ⊢
    rcases hsource with rfl | rfl
    · cases hgap with
      | optional hoptional => cases hoptional
      | promotedAttr htype hcell => exact attrMatch_gap (.inl rfl) htype hcell hwith
    · cases hgap with
      | optional hoptional => cases hoptional
      | promotedResource htype hcell => exact attrMatch_gap (.inr rfl) htype hcell hwith
  · rw [dependsOn_column hkey] at hgap ⊢
    generalize hcolumn : (columnOf field).1 = column at hgap ⊢
    cases hgap with
    | optional hoptional hnull =>
      subst hcolumn
      rw [hnull, beq_self_eq_true, Bool.and_true, Bool.and_true]
      exact columnComparison_gap hoptional hnull hwith
    | promotedResource | promotedAttr => cases field <;> cases hcolumn

/-- A leaf gives the same verdict with and without the column, but that one which
misses its value is unknown where it would be false. -/
theorem compileLeaf_gap {term : PredicateLeaf} (hwith : compileLeaf lowering term = .ok expr) :
    expr.LosesTo lowering.engine row (lowering.misses row column term)
      (compileLeaf (lowering.without column) term) := by
  by_cases hdepends : term.dependsOn = some column
  case neg =>
    rw [compileLeaf_without hgap.not_isAttributes hdepends, hwith, Lowering.misses,
      beq_false_of_ne hdepends, Bool.false_and]
    exact Truth.Loses.refl _
  cases term with
  | severity op value => cases hdepends
  | call call => exact compileCall_gap hgap hdepends hwith
  | comparison field op value => exact compileComparison_gap hgap hdepends hwith

end Gap

/-! ## Whole predicates -/

section Whole

variable (lowering : Lowering) (row : Row) (column : Column)

/-- The verdict of a leaf under a lowering, if it lowers. -/
def Lowering.leafVerdict? (term : PredicateLeaf) : Option Truth :=
  match compileLeaf lowering term with
  | .ok expr => some (expr.verdict lowering.engine row)
  | .error _ => none

/-- The value of a leaf on the row in a scan of files without the column. A leaf that
lowers only with the column is given the value it has there: a predicate that lowers
without the column does not reach it. -/
def Lowering.leafWithout (term : PredicateLeaf) : Truth :=
  ((lowering.without column).leafVerdict? row term).getD
    ((lowering.leafVerdict? row term).getD none)

/-- That value, but for a `false` of a leaf that misses its own in the column. -/
def Lowering.leafMissing (term : PredicateLeaf) : Truth :=
  if lowering.misses row column term && lowering.leafWithout row column term == some false then none
  else lowering.leafWithout row column term

theorem leafMissing_loses (term : PredicateLeaf) :
    Truth.Loses (lowering.misses row column term) (lowering.leafMissing row column term)
      (lowering.leafWithout row column term) := by
  unfold Lowering.leafMissing
  cases lowering.misses row column term <;>
    rcases lowering.leafWithout row column term with _ | _ | _ <;> simp [Truth.Loses]

theorem values_leafWithout :
    (lowering.without column).Values row (lowering.leafWithout row column) := by
  intro term expr h
  simp [Lowering.leafWithout, Lowering.leafVerdict?, h]

variable {lowering row column}

/-- With the column the leaves have these values. -/
theorem values_leafMissing (hgap : ColumnGap lowering.engine lowering.schema row column) :
    lowering.Values row (lowering.leafMissing row column) := by
  intro term expr h
  have hleaf := compileLeaf_gap hgap h
  have hloses := leafMissing_loses lowering row column term
  rw [Lowering.leafWithout, Lowering.leafVerdict?, Lowering.leafVerdict?, h] at hloses
  cases hwithout : compileLeaf (lowering.without column) term with
  | ok expr' =>
    rw [hwithout] at hleaf hloses
    exact hloses.unique hleaf
  | error error =>
    rw [hwithout] at hleaf hloses
    rw [show lowering.misses row column term = false from hleaf] at hloses
    exact hloses.unique (.refl _)

/-- The leaf values by which a predicate keeps the row. -/
theorem keeps_iff_settled {leaf : PredicateLeaf → Truth} (hvalues : lowering.Values row leaf)
    {holds : Bool → PredicateLeaf → Prop}
    (hleaf : ∀ value term, leaf term = some value ↔ holds value term) {predicate : Predicate}
    {expr : PredExpr} (h : compilePredicate lowering predicate = .ok expr) :
    expr.keeps lowering.engine row = true ↔ predicate.Settled holds true := by
  rw [← Predicate.meaning_eq_some_iff hleaf, PredExpr.keeps,
    compilePredicate_verdict hvalues predicate h, Truth.holds, beq_iff_eq]

/-- A column that tells nothing of a row never makes a scan keep it. It makes the scan
drop it exactly when the predicate is true of the row by the values its leaves have
without the column, but not without the `false` of leaves that miss their value in the
column. That takes such a leaf under an odd number of negations. -/
theorem keeps_eq_without_iff (hgap : ColumnGap lowering.engine lowering.schema row column)
    {predicate : Predicate} {expr expr' : PredExpr}
    (hwith : compilePredicate lowering predicate = .ok expr)
    (hwithout : compilePredicate (lowering.without column) predicate = .ok expr') :
    (expr.keeps lowering.engine row = true → expr'.keeps lowering.engine row = true) ∧
      (expr.keeps lowering.engine row = expr'.keeps lowering.engine row ↔
        (predicate.Settled (fun value term => lowering.leafWithout row column term = some value)
            true →
          predicate.Settled (fun value term => lowering.leafWithout row column term = some value ∧
            (lowering.misses row column term = true → value = true)) true)) ∧
      ((∀ term ∈ predicate.leaves true, lowering.misses row column term.2 = true →
          term.1 = true) →
        expr.keeps lowering.engine row = expr'.keeps lowering.engine row) := by
  have hkeeps := keeps_iff_settled (values_leafMissing hgap)
    (fun value term => leafMissing_loses lowering row column term value) hwith
  have hkeeps' : expr'.keeps lowering.engine row = true ↔ _ :=
    keeps_iff_settled (values_leafWithout lowering row column) (fun _ _ => Iff.rfl) hwithout
  have hle : expr.keeps lowering.engine row = true → expr'.keeps lowering.engine row = true := by
    rw [hkeeps, hkeeps']
    exact Predicate.Settled.mono fun _ _ => And.left
  have hiff : expr.keeps lowering.engine row = expr'.keeps lowering.engine row ↔
      (expr'.keeps lowering.engine row = true → expr.keeps lowering.engine row = true) := by
    rw [Bool.eq_iff_iff]
    exact ⟨Iff.mpr, fun h => ⟨hle, h⟩⟩
  rw [hkeeps, hkeeps'] at hiff
  -- A leaf that misses its value is asked to be true, which it never loses.
  exact ⟨hle, hiff, fun hpositive => hiff.mpr (Predicate.Settled.mono
    fun term hmem hholds => ⟨hholds, hpositive term hmem⟩)⟩

end Whole

/-! ## A row dropped next to files that have the column -/

/-- A row of a file without OPTIONAL columns, attributes or promoted columns. -/
def bareRow : Row where
  record :=
    { tenantId := "t".toList, timeUnixNano := 0, observedTimeUnixNano := none, severityNumber := 0
      severityText := none, scopeName := none, scopeVersion := none, scopeAttributes := []
      resourceSchemaUrl := none, scopeSchemaUrl := none, attributes := []
      droppedAttributesCount := 0, resourceAttributes := [], traceId := none, spanId := none
      flags := 0, eventName := none, templateId := 7, templateVersion := 1, bodyKind := .string
      params := [], separators := [], body := none, confidence := 1, lossyFlag := false }
  effectiveTime := none
  promotedResource _ := .null
  promotedAttr _ := .null

/-- The union schema of files that together have every column and promote the log
attribute `k`. -/
def wideSchema : Schema
  | .promotedAttr key => if key = "k".toList then some .utf8 else none
  | .promotedResource _ => none
  | _ => some .other

/-- A lowering over that schema, with no alias and no registered template. -/
def wideLowering : Lowering where
  engine := default
  schema := wideSchema
  aliasClasses id := [id]
  bodyEqualities _ := ⟨[], []⟩

/-- `scope == "x"`. -/
def scopeIsX : Predicate := .comparison .scope (.ord .eq) (.str "x".toList)

/-- `attr.k == "v"`. -/
def attrIsV : Predicate := .comparison (.attr "k".toList) (.ord .eq) (.str "v".toList)

/-- Without a negation the row is dropped with and without the column. -/
theorem keeps_eq_without_scopeIsX :
    ∃ expr expr', compilePredicate wideLowering scopeIsX = .ok expr ∧
      compilePredicate (wideLowering.without .scopeName) scopeIsX = .ok expr' ∧
      expr.keeps default bareRow = expr'.keeps default bareRow := by
  have hgap : ColumnGap wideLowering.engine wideLowering.schema bareRow .scopeName :=
    .optional rfl rfl
  have hwith : compilePredicate wideLowering scopeIsX =
      .ok (.filter (.compare .eq (.col .scopeName) (.lit (.text "x".toList)))) := rfl
  have hwithout : compilePredicate (wideLowering.without .scopeName) scopeIsX = .ok .none := rfl
  refine ⟨_, _, hwith, hwithout, (keeps_eq_without_iff hgap hwith hwithout).2.2 ?_⟩
  intro term hmem _
  rw [scopeIsX, Predicate.leaves, List.mem_singleton] at hmem
  rw [hmem]

/-- `not (scope == "x")` keeps the row when the scanned files all lack the scope
column and drops it as soon as one of them has it; promoting `k` does the same to
`not (attr.k == "v")`. -/
theorem negation_dropped_with_column :
    (ColumnGap wideLowering.engine wideLowering.schema bareRow .scopeName ∧
      ∃ expr expr', compilePredicate wideLowering (.not scopeIsX) = .ok expr ∧
        compilePredicate (wideLowering.without .scopeName) (.not scopeIsX) = .ok expr' ∧
        expr.keeps default bareRow = false ∧ expr'.keeps default bareRow = true) ∧
    ColumnGap wideLowering.engine wideLowering.schema bareRow (.promotedAttr "k".toList) ∧
      ∃ expr expr', compilePredicate wideLowering (.not attrIsV) = .ok expr ∧
        compilePredicate (wideLowering.without (.promotedAttr "k".toList)) (.not attrIsV) =
          .ok expr' ∧
        expr.keeps default bareRow = false ∧ expr'.keeps default bareRow = true := by
  refine ⟨⟨.optional rfl rfl, _, _, rfl, rfl, rfl, rfl⟩, .promotedAttr (by decide) (.inr rfl), ?_⟩
  exact ⟨.filter (.not (.or (.compare .eq (.col (.promotedAttr "k".toList))
    (.lit (.text "v".toList)))
      (.and (.isNull (.col (.promotedAttr "k".toList)))
        (jsonArm default .attributes "k".toList true (.string "v".toList))))),
    .filter (.not (jsonArm default .attributes "k".toList true (.string "v".toList))),
    rfl, rfl, rfl, rfl⟩

end Ourios.Querier
