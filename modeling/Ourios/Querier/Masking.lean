/-
# What a masked reader learns

Two rows agree outside a set of content columns when clearing what the set hides
makes them equal: the values of the masked top-level attribute and resource pairs,
their promoted columns, and with the body the stored body, params and separators.
A query that passes the visibility check cannot tell such rows apart, by what it
keeps, by what it returns or by what it aggregates, except through one term: the
check does not look at `param(n)` in a `by` list, and params are body content. So
the outcome is the same for all agreeing rows unless the body is masked and the
query groups by a param and returns a group at all.
-/

import Ourios.Foundation.FallibleFold
import Ourios.Querier.Execute
import Ourios.Querier.SchemaGap

namespace Ourios.Querier

open Ourios.Foundation Ourios.Miner

/-- Clear what a mask hides of a row. -/
def Row.redact (columns : List ContentColumn) (row : Row) : Row where
  record :=
    { row.record with
      attributes := maskValues (maskedAttrs columns) row.record.attributes
      resourceAttributes := maskValues (maskedResources columns) row.record.resourceAttributes
      body := if .body ∈ columns then none else row.record.body
      params := if .body ∈ columns then [] else row.record.params
      separators := if .body ∈ columns then [] else row.record.separators }
  effectiveTime := row.effectiveTime
  promotedResource key :=
    if key ∈ maskedResources columns then .null else row.promotedResource key
  promotedAttr key := if key ∈ maskedAttrs columns then .null else row.promotedAttr key

/-- Two rows differ at most in what a mask hides. -/
def AgreesOutside (columns : List ContentColumn) (row row' : Row) : Prop :=
  row.redact columns = row'.redact columns

/-- A cell a mask leaves alone. The two attribute columns hold masked values next
to open ones, so no mask leaves them alone as a whole. -/
def Column.Open (columns : List ContentColumn) : Column → Prop
  | .body => ContentColumn.body ∉ columns
  | .attributes | .resourceAttributes => False
  | .promotedResource key => key ∉ maskedResources columns
  | .promotedAttr key => key ∉ maskedAttrs columns
  | _ => True

section Blind

variable (engine : Engine) (columns : List ContentColumn)

/-- A function of a row that cannot tell agreeing rows apart. -/
def Blind {α : Type} (read : Row → α) : Prop :=
  ∀ row row', AgreesOutside columns row row' → read row = read row'

variable {engine columns}

variable {α β : Type} {column : Column} {key : Text} {paths : Bool} {keys : List Text}
  {field : Field} {op : CmpOp} {value : Value} {schema : Schema} {expr : PredExpr} {read : Row → α}

/-- Whatever can be read off the redacted row is blind. -/
theorem Blind.of_redact (h : ∀ row, read (row.redact columns) = read row) : Blind columns read := by
  intro row row' hagrees
  rw [← h row, ← h row', hagrees]

theorem Blind.const (value : α) : Blind columns fun _ => value := fun _ _ _ => rfl

theorem Blind.comp (h : Blind columns read) (f : α → β) :
    Blind columns fun row => f (read row) :=
  fun row row' hagrees => congrArg f (h row row' hagrees)

theorem Blind.comp₂ {γ : Type} {left : Row → α} {right : Row → β} (h : Blind columns left)
    (h' : Blind columns right) (f : α → β → γ) :
    Blind columns fun row => f (left row) (right row) :=
  fun row row' hagrees => congrArg₂ f (h row row' hagrees) (h' row row' hagrees)

/-! ### Cells and terms -/

theorem blind_cell (h : column.Open columns) :
    Blind columns fun row => row.cell engine column := by
  apply Blind.of_redact
  intro row
  cases column with
  | body => exact congrArg (Scalar.ofOption Scalar.text) (if_neg h)
  | attributes | resourceAttributes => cases h
  | promotedResource | promotedAttr => exact if_neg h
  | _ => rfl

/-- A term that cannot tell agreeing rows apart. -/
def Term.IsBlind (engine : Engine) (columns : List ContentColumn) (term : Term) : Prop :=
  Blind columns fun row => term.eval engine row

@[grind ←] theorem blind_col (h : column.Open columns) :
    (Term.col column).IsBlind engine columns :=
  blind_cell h

@[grind ←] theorem blind_param (h : ContentColumn.body ∉ columns) (n : Nat) :
    (Term.param n).IsBlind engine columns := by
  apply Blind.of_redact
  intro row
  rw [Term.eval, Term.eval, Row.redact]
  simp only [if_neg h]

@[grind ←] theorem blind_separator (h : ContentColumn.body ∉ columns) (n : Nat) :
    (Term.separator n).IsBlind engine columns := by
  apply Blind.of_redact
  intro row
  rw [Term.eval, Term.eval, Row.redact]
  simp only [if_neg h]

@[grind ←] theorem blind_lit (value : Scalar) : (Term.lit value).IsBlind engine columns :=
  .const value

/-! ### Filters -/

/-- A filter that cannot tell agreeing rows apart. -/
def Filter.IsBlind (engine : Engine) (columns : List ContentColumn) (expr : Filter) : Prop :=
  Blind columns fun row => expr.eval engine row

namespace Filter.IsBlind

variable {left right inner : Filter} {term : Term}

@[grind ←] theorem lit (value : Bool) : (Filter.lit value).IsBlind engine columns := .const _

@[grind ←] theorem and (h : left.IsBlind engine columns) (h' : right.IsBlind engine columns) :
    (Filter.and left right).IsBlind engine columns :=
  Blind.comp₂ h h' Truth.and

@[grind ←] theorem or (h : left.IsBlind engine columns) (h' : right.IsBlind engine columns) :
    (Filter.or left right).IsBlind engine columns :=
  Blind.comp₂ h h' Truth.or

@[grind ←] theorem not (h : inner.IsBlind engine columns) :
    (Filter.not inner).IsBlind engine columns :=
  Blind.comp h Truth.not

@[grind ←] theorem isNotTrue (h : inner.IsBlind engine columns) :
    (Filter.isNotTrue inner).IsBlind engine columns :=
  Blind.comp h fun truth => some !truth.holds

section

variable (h : term.IsBlind engine columns)
include h

@[grind ←] theorem compare {other : Term} (h' : other.IsBlind engine columns) (op : OrdOp) :
    (Filter.compare op term other).IsBlind engine columns :=
  Blind.comp₂ h h' (Scalar.compare engine op)

@[grind ←] theorem isNull : (Filter.isNull term).IsBlind engine columns :=
  Blind.comp h fun cell => some (cell == .null)

@[grind ←] theorem isNotNull : (Filter.isNotNull term).IsBlind engine columns :=
  Blind.comp h fun cell => some (cell != .null)

@[grind ←] theorem regexpLike (pattern : Text) :
    (Filter.regexpLike term pattern).IsBlind engine columns :=
  Blind.comp h (Scalar.testText (engine.isMatch pattern))

end

@[grind ←] theorem flag {column : Column} (h : column.Open columns) :
    (Filter.flag column).IsBlind engine columns := by
  intro row row' hagrees
  have hcell : row.cell engine column = row'.cell engine column := blind_cell h row row' hagrees
  simp only [Filter.eval, hcell]

@[grind ←] theorem inList (h : term.IsBlind engine columns) (ids : List Nat) :
    (Filter.inList term ids).IsBlind engine columns := by
  intro row row' hagrees
  have hterm : term.eval engine row = term.eval engine row' := h row row' hagrees
  simp only [Filter.eval, hterm]

/-- The test of a string function is blind where its operand is. -/
theorem operand (h : term.IsBlind engine columns) {call : Call} {field : Field}
    {build : Term → Filter} (hoperand : call.operand = some (field, build)) :
    (build term).IsBlind engine columns := by
  cases call <;> cases hoperand
  · exact regexpLike h _
  · exact Blind.comp h (Scalar.testText (Foundation.like _))
  · exact Blind.comp h (Scalar.testText (List.isPrefixOf _))
  · exact Blind.comp h (Scalar.testText (Foundation.like _))

/-- A left-nested join of blind filters is blind. -/
theorem foldl {α : Type} {items : List α} {join : Filter → α → Filter} {start : Filter}
    (hstart : start.IsBlind engine columns)
    (hjoin : ∀ acc item, item ∈ items → acc.IsBlind engine columns →
      (join acc item).IsBlind engine columns) :
    (items.foldl join start).IsBlind engine columns := by
  induction items generalizing start with
  | nil => exact hstart
  | cons item items ih =>
    apply ih (hjoin start item List.mem_cons_self hstart)
    intro acc later hlater hacc
    exact hjoin acc later (List.mem_cons_of_mem _ hlater) hacc

end Filter.IsBlind

/-! ### Attributes -/

/-- The keys a read of an attribute can end up at: the key, and for a path the
heads it tries. -/
def Unreached (paths : Bool) (key : Text) (keys : List Text) : Prop :=
  key ∉ keys ∧ (paths = true → ∀ split ∈ splits key, split.1 ∉ keys)

theorem splits_eq {split : Text × Text} (h : split ∈ splits key) :
    key = split.1 ++ '.' :: split.2 := by
  induction key generalizing split with
  | nil => cases h
  | cons c key ih =>
    rw [splits] at h
    by_cases hdot : c = '.'
    · simp only [hdot, if_true, List.mem_append, List.mem_map, List.mem_singleton] at h
      rcases h with ⟨inner, hinner, rfl⟩ | rfl
      · have hkey : key = inner.1 ++ '.' :: inner.2 := ih hinner
        rw [hdot, hkey]
        rfl
      · rw [hdot]
        rfl
    · simp only [hdot, if_false, List.mem_map] at h
      obtain ⟨inner, hinner, rfl⟩ := h
      have hkey : key = inner.1 ++ '.' :: inner.2 := ih hinner
      rw [hkey]
      rfl

theorem unreached_of_reachKey (h : ∀ head ∈ keys, reachKey paths key head = none) :
    Unreached paths key keys := by
  constructor
  · intro hmem
    have hself := h key hmem
    simp [reachKey, List.isPrefixOf_iff_prefix] at hself
  · intro hpaths split hsplit hmem
    have hhead := h split.1 hmem
    rw [splits_eq hsplit, hpaths] at hhead
    simp [reachKey, List.isPrefixOf_iff_prefix] at hhead

theorem firstPair_maskValues (h : key ∉ keys) (attributes : List KeyValue) :
    firstPair (attributePairs (maskValues keys attributes)) key =
      firstPair (attributePairs attributes) key := by
  induction attributes with
  | nil => rfl
  | cons kv attributes ih =>
    unfold firstPair attributePairs maskValues at ih ⊢
    simp only [List.map_cons, List.find?_cons]
    by_cases hkey : kv.key = key
    · simp only [hkey, if_neg h, decide_true]
    · by_cases hmasked : kv.key ∈ keys
      · simpa [hmasked, hkey] using ih
      · simpa [hmasked, hkey] using ih

theorem findSome?_congr {f g : α → Option β} {items : List α}
    (h : ∀ item ∈ items, f item = g item) :
    items.findSome? f = items.findSome? g := by
  induction items with
  | nil => rfl
  | cons item items ih =>
    rw [List.findSome?_cons, List.findSome?_cons, h item List.mem_cons_self,
      ih fun later hlater => h later (List.mem_cons_of_mem _ hlater)]

/-- A key that reaches no masked pair resolves the same after masking. -/
theorem resolve_maskValues (h : Unreached true key keys) (fuel : Nat) (attributes : List KeyValue) :
    resolve fuel (attributePairs (maskValues keys attributes)) key =
      resolve fuel (attributePairs attributes) key := by
  cases fuel with
  | zero => rfl
  | succ fuel =>
    rw [resolve, resolve, firstPair_maskValues h.1]
    split
    · rfl
    · apply findSome?_congr
      intro split hsplit
      rw [firstPair_maskValues (h.2 rfl split hsplit)]

/-- The masked keys of the list an attribute column encodes. -/
def maskedIn (columns : List ContentColumn) : Column → List Text
  | .resourceAttributes => maskedResources columns
  | _ => maskedAttrs columns

/-- Comparing an attribute by a key that reaches no masked pair is blind. -/
theorem blind_attrCmp (hcolumn : column.IsAttributes)
    (h : Unreached true key (maskedIn columns column)) (expected : Text) (eq : Bool) :
    Blind columns fun row => attrCmp engine (row.attributeList column) key expected eq := by
  apply Blind.of_redact
  intro row
  have hlist : (row.redact columns).attributeList column =
      maskValues (maskedIn columns column) (row.attributeList column) := by
    rcases hcolumn with rfl | rfl <;> rfl
  rw [attrCmp, attrCmp, hlist, resolve_maskValues h]

theorem blind_jsonArm (hcolumn : column.IsAttributes)
    (h : Unreached true key (maskedIn columns column)) (eq : Bool) (value : AnyValue) :
    (jsonArm engine column key eq value).IsBlind engine columns := by
  intro row row' hagrees
  change (jsonArm engine column key eq value).eval engine row =
    (jsonArm engine column key eq value).eval engine row'
  rw [jsonArm_eval hcolumn, jsonArm_eval hcolumn]
  exact congrArg some (blind_attrCmp hcolumn h _ eq row row' hagrees)

theorem open_promotedColumnName (h : Unreached paths key (maskedIn columns column)) :
    (promotedColumnName column key).Open columns := by
  cases column <;> exact h.1

/-! ### What an unmasked read reaches -/

theorem reach_of_maskedBy {read : Read} (h : read.maskedBy columns = none) :
    ∀ column ∈ columns, read.reach column = none := by
  have hempty : (columns.filterMap fun column =>
      (read.reach column).map fun rank => (rank, column)) = [] := by
    unfold Read.maskedBy at h
    dsimp only at h
    split at h
    · assumption
    · cases h
  intro column hcolumn
  have hnone := List.filterMap_eq_nil_iff.mp hempty column hcolumn
  exact Option.map_eq_none_iff.mp hnone

theorem unreached_of_maskedBy (hfield : field.keyed? = some (column, key))
    (h : Read.maskedBy { field, paths } columns = none) :
    Unreached paths key (maskedIn columns column) := by
  apply unreached_of_reachKey
  intro head hhead
  cases field <;> cases hfield
  all_goals
    obtain ⟨masked, hmasked, heq⟩ := List.mem_filterMap.mp hhead
    cases masked <;> cases heq
    exact reach_of_maskedBy h _ hmasked

theorem body_notMem (h : Read.maskedBy { field := .body, paths } columns = none) :
    ContentColumn.body ∉ columns := by
  intro hmem
  cases reach_of_maskedBy h _ hmem

/-- The dedicated column of an unmasked field is open. -/
theorem open_columnOf (hkey : field.keyed? = none)
    (h : Read.maskedBy { field, paths } columns = none) : (columnOf field).1.Open columns := by
  cases field with
  | body => exact body_notMem h
  | service | resource | attr => cases hkey
  | _ => exact trivial

/-! ### Lowered leaves -/

/-- A lowered predicate that cannot tell agreeing rows apart. -/
def PredExpr.IsBlind (engine : Engine) (columns : List ContentColumn) (expr : PredExpr) : Prop :=
  expr.intoExpr.IsBlind engine columns

theorem isBlind_compileSeverity (op : OrdOp) (value : SeverityValue) :
    (compileSeverity op value).IsBlind engine columns := by
  have hopen : Column.Open columns .severityNumber := trivial
  unfold compileSeverity PredExpr.IsBlind
  cases value <;> cases op <;> simp only [PredExpr.intoExpr] <;> (try split) <;> grind

theorem isBlind_candidateArm (h : ContentColumn.body ∉ columns) (candidate : BodyLiteralMatch)
    (separators : List Text) : (candidateArm candidate separators).IsBlind engine columns := by
  unfold candidateArm
  apply Filter.IsBlind.foldl
  · apply Filter.IsBlind.foldl
    · have hid : Column.Open columns .templateId := trivial
      have hversion : Column.Open columns .templateVersion := trivial
      grind
    · intro acc item _ hacc
      grind
  · intro acc item _ hacc
    grind

theorem isBlind_reduceOr {filters : List Filter} {expr : Filter}
    (h : ∀ filter ∈ filters, filter.IsBlind engine columns)
    (hreduce : reduceOr filters = some expr) :
    expr.IsBlind engine columns := by
  cases filters with
  | nil => cases hreduce
  | cons first rest =>
    cases hreduce
    apply Filter.IsBlind.foldl (h first List.mem_cons_self)
    intro acc item hitem hacc
    exact hacc.or (h item (List.mem_cons_of_mem _ hitem))

theorem isBlind_bodyEquality (h : ContentColumn.body ∉ columns) (plan : BodyEqualityPlan)
    (literal : Text) (schema : Schema) (negated : Bool) :
    (bodyEquality plan literal schema negated).IsBlind engine columns := by
  have hbody : Column.Open columns .body := h
  have hkind : Column.Open columns .bodyKind := trivial
  have hlossy : Column.Open columns .lossyFlag := trivial
  have harm : ∀ arm, reduceOr (plan.candidates.map fun c => candidateArm c plan.separators) =
      some arm → arm.IsBlind engine columns := by
    intro arm hreduce
    refine isBlind_reduceOr ?_ hreduce
    intro filter hfilter
    obtain ⟨candidate, -, rfl⟩ := List.mem_map.mp hfilter
    exact isBlind_candidateArm h candidate plan.separators
  unfold bodyEquality PredExpr.IsBlind
  cases hreduce : reduceOr (plan.candidates.map fun c => candidateArm c plan.separators) with
  | none =>
    cases hasColumn schema .body <;> cases negated <;>
      simp only [PredExpr.intoExpr, Option.map_none, if_true, Bool.false_eq_true, if_false] <;>
      grind
  | some arm =>
    have harm := harm arm hreduce
    have hmined : (Filter.and (.and (.compare .eq (.col .bodyKind) (.lit (.int 0)))
        (.not (.flag .lossyFlag))) (.isNull (.col .body))).IsBlind engine columns := by
      grind
    cases hasColumn schema .body <;> cases negated <;>
      simp only [PredExpr.intoExpr, Option.map_some, if_true, Bool.false_eq_true, if_false] <;>
      grind

theorem isBlind_columnComparison (hopen : (columnOf field).1.Open columns)
    (h : columnComparison engine field op value schema = .ok expr) :
    expr.IsBlind engine columns := by
  have hcol : (Term.col (columnOf field).1).IsBlind engine columns := blind_col hopen
  unfold columnComparison at h
  dsimp only at h
  split at h
  · cases h
  split at h
  · cases h
    exact .lit false
  cases op with
  | ord op =>
    obtain ⟨literal, -, hlowered⟩ := bind_eq_ok_iff.mp h
    cases hlowered
    exact .compare hcol (blind_lit _) op
  | «matches» =>
    obtain ⟨pattern, -, hlowered⟩ := bind_eq_ok_iff.mp h
    cases hlowered
    exact .regexpLike hcol pattern
  | notMatches =>
    obtain ⟨pattern, -, hlowered⟩ := bind_eq_ok_iff.mp h
    cases hlowered
    exact .not (.regexpLike hcol pattern)

/-- Whether an operator can follow a key as a path. -/
def CmpOp.followsPaths (op : CmpOp) : Bool := decide (op = .ord .eq ∨ op = .ord .ne)

theorem isBlind_numericAttrMatch (hcolumn : column.IsAttributes) {numeric : NumericClass}
    (hreach : Unreached op.followsPaths key (maskedIn columns column))
    (h : numericAttrMatch engine column key op value numeric = .ok expr) :
    expr.IsBlind engine columns := by
  have hcol : (Term.col (promotedColumnName column key)).IsBlind engine columns :=
    blind_col (open_promotedColumnName hreach)
  unfold numericAttrMatch at h
  dsimp only at h
  split at h
  · cases h
  rename_i literal forJson hliteral
  cases op with
  | «matches» | notMatches => cases h
  | ord op =>
    dsimp only at h
    split at h
    · rename_i hequality
      have hpath : Unreached true key (maskedIn columns column) := by
        have hfollows : (CmpOp.ord op).followsPaths = true := by
          rcases hequality with rfl | rfl <;> rfl
        rwa [hfollows] at hreach
      have htyped : (if op = .eq then
          Filter.compare .eq (.col (promotedColumnName column key)) (.lit literal)
          else .and (.isNotNull (.col (promotedColumnName column key)))
            (.compare .ne (.col (promotedColumnName column key)) (.lit literal))).IsBlind engine
            columns := by
        grind
      split at h
      · cases h
        exact htyped
      · cases h
        exact htyped.or ((Filter.IsBlind.isNull hcol).and (blind_jsonArm hcolumn hpath _ _))
    · cases h
      exact .compare hcol (blind_lit _) op

theorem isBlind_attrMatch (hcolumn : column.IsAttributes)
    (hreach : Unreached op.followsPaths key (maskedIn columns column))
    (h : attrMatch engine column key op value schema = .ok expr) : expr.IsBlind engine columns := by
  have hcol : (Term.col (promotedColumnName column key)).IsBlind engine columns :=
    blind_col (open_promotedColumnName hreach)
  unfold attrMatch at h
  dsimp only at h
  split at h
  · cases h
    exact .lit false
  split at h
  · exact isBlind_numericAttrMatch hcolumn hreach h
  · exact isBlind_numericAttrMatch hcolumn hreach h
  split at h
  case h_2 => cases h
  rename_i literal
  simp only [PredExpr.IsBlind]
  split at h
  · have hjson : (jsonArm engine column key true (.string literal)).IsBlind engine columns :=
      blind_jsonArm hcolumn hreach _ _
    split at h <;> cases h <;> simp only [PredExpr.intoExpr] <;> grind
  · have hjson : (jsonArm engine column key false (.string literal)).IsBlind engine columns :=
      blind_jsonArm hcolumn hreach _ _
    split at h <;> cases h <;> simp only [PredExpr.intoExpr] <;> grind
  all_goals
    split at h <;> cases h
    simp only [PredExpr.intoExpr]
    grind

theorem isBlind_stringCall {call : Call} {build : Term → Filter}
    (hoperand : call.operand = some (field, build))
    (hread : Read.maskedBy { field, paths := false } columns = none)
    (h : stringCall field schema build = .ok expr) : expr.IsBlind engine columns := by
  unfold stringCall at h
  obtain ⟨called, hcolumn, hlowered⟩ := bind_eq_ok_iff.mp h
  have hopen : called.Open columns := by
    cases field <;> simp only [stringCallColumn, Except.ok.injEq, reduceCtorEq] at hcolumn <;>
      subst hcolumn
    · exact body_notMem hread
    · exact trivial
    · exact trivial
  split at hlowered <;> cases hlowered
  · exact .lit false
  · exact .operand (blind_col hopen) hoperand

/-- A leaf whose read is not masked lowers to a blind expression. -/
theorem isBlind_compileLeaf {lowering : Lowering} {term : PredicateLeaf}
    (hread : ∀ read, term.read = some read → read.maskedBy columns = none)
    (h : compileLeaf lowering term = .ok expr) : expr.IsBlind lowering.engine columns := by
  cases term with
  | severity op value =>
    cases h
    exact isBlind_compileSeverity op value
  | call call =>
    rw [compileLeaf] at h
    cases hoperand : call.operand with
    | none =>
      obtain ⟨id, rfl⟩ := Call.eq_resolvesTo hoperand
      cases h
      have hopen : Column.Open columns .templateId := trivial
      exact Filter.IsBlind.inList (blind_col hopen) _
    | some operand =>
      obtain ⟨field, build⟩ := operand
      rw [compileCall_of_operand _ hoperand] at h
      refine isBlind_stringCall hoperand (hread _ ?_) h
      rw [PredicateLeaf.read, hoperand]
      rfl
  | comparison field op value =>
    have hfield := hread _ rfl
    rw [compileLeaf] at h
    obtain ⟨literal, negated, rfl, -, heq⟩ | ⟨source, key, hkey, -, heq⟩ | ⟨hkey, -, heq⟩ :=
      compileComparison_cases field op value
    all_goals rw [heq] at h
    · cases h
      exact isBlind_bodyEquality (body_notMem hfield) _ _ _ _
    · exact isBlind_attrMatch (keyed_column hkey).1 (unreached_of_maskedBy hkey hfield) h
    · exact isBlind_columnComparison (open_columnOf hkey hfield) h

/-- A predicate whose reads are not masked lowers to a blind expression. -/
theorem isBlind_compilePredicate {lowering : Lowering} {predicate : Predicate}
    (hreads : ∀ read ∈ collectPredicateFields predicate, read.maskedBy columns = none)
    (h : compilePredicate lowering predicate = .ok expr) :
    expr.IsBlind lowering.engine columns := by
  intro row row' hagrees
  -- Value each leaf that lowers by its own verdict, on either row.
  let leaf (row : Row) (term : PredicateLeaf) : Truth := (lowering.leafVerdict? row term).getD none
  have hvalues : ∀ row, lowering.Values row (leaf row) := by
    intro row term lowered hlowered
    simp [leaf, Lowering.leafVerdict?, hlowered]
  change expr.verdict lowering.engine row = expr.verdict lowering.engine row'
  rw [compilePredicate_verdict (hvalues row) predicate h,
    compilePredicate_verdict (hvalues row') predicate h]
  apply Predicate.meaning_congr true predicate
  intro term hterm
  cases hlowered : compileLeaf lowering term.2 with
  | error error => simp only [leaf, Lowering.leafVerdict?, hlowered]
  | ok lowered =>
    simp only [leaf, Lowering.leafVerdict?, hlowered, Option.getD_some]
    refine isBlind_compileLeaf ?_ hlowered row row' hagrees
    intro read hread
    exact hreads read (List.mem_filterMap.mpr ⟨term, hterm, hread⟩)

/-! ### Returned rows -/

theorem maskValues_maskValues (keys : List Text) (attributes : List KeyValue) :
    maskValues keys (maskValues keys attributes) = maskValues keys attributes := by
  rw [maskValues, maskValues, List.map_map]
  apply List.map_congr_left
  intro kv _
  by_cases h : kv.key ∈ keys <;> simp [h]

/-- A returned row is masked to the same row whatever the mask hides. -/
theorem blind_maskedRow (registry : TemplateRegistry) :
    Blind columns fun row => (LogRow.fromRecord engine registry row.record).mask columns := by
  apply Blind.of_redact
  intro row
  by_cases hbody : ContentColumn.body ∈ columns
  · simp only [LogRow.mask, LogRow.fromRecord, Row.redact, maskValues_maskValues, if_pos hbody]
  · have hrendered : ∀ tokens, renderBodyFromTokens engine (row.redact columns).record tokens =
        renderBodyFromTokens engine row.record tokens := by
      intro tokens
      simp only [renderBodyFromTokens, Row.redact, if_neg hbody]
      rfl
    rw [LogRow.mask, LogRow.fromRecord, hrendered]
    simp only [Row.redact, maskValues_maskValues]
    rfl

/-! ### Groups -/

theorem open_promotedFor {source : Column} {verb : String}
    (h : Unreached paths key (maskedIn columns source))
    (hpromoted : promotedFor source key schema verb = .ok column) : column.Open columns := by
  unfold promotedFor at hpromoted
  dsimp only at hpromoted
  split at hpromoted <;> cases hpromoted
  exact open_promotedColumnName h

theorem blind_groupCell (h : column.Open columns) :
    Blind columns fun row => (GroupExpr.cell column).eval engine row :=
  blind_cell h

theorem blind_promotedGroup {source : Column} {verb : String} {expr : GroupExpr}
    (hreach : Unreached paths key (maskedIn columns source))
    (h : (promotedFor source key schema verb).map GroupExpr.cell = .ok expr) :
    Blind columns fun row => expr.eval engine row := by
  cases hcolumn : promotedFor source key schema verb with
  | error error =>
    rw [hcolumn] at h
    cases h
  | ok column =>
    rw [hcolumn] at h
    cases h
    exact blind_groupCell (open_promotedFor hreach hcolumn)

theorem blind_fieldGroupExpr {expr : GroupExpr}
    (hread : Read.maskedBy { field, paths := false } columns = none)
    (h : fieldGroupExpr field schema = .ok expr) :
    Blind columns fun row => expr.eval engine row := by
  unfold fieldGroupExpr at h
  split at h
  · have hopen := open_promotedColumnName (unreached_of_maskedBy rfl hread)
    dsimp only at h
    split at h <;> cases h
    · exact blind_groupCell hopen
    · exact .const _
  · exact blind_promotedGroup (unreached_of_maskedBy rfl hread) h
  · exact blind_promotedGroup (unreached_of_maskedBy rfl hread) h
  · rename_i hservice hresource hattr
    have hkey : field.keyed? = none := by
      cases field <;> simp_all [Field.keyed?]
    have hopen := open_columnOf hkey hread
    dsimp only at h
    split at h <;> cases h
    · exact .const _
    · exact blind_groupCell hopen

/-- A group term is blind when its read is not masked and, for a param, the body is
not. -/
theorem blind_groupExpr {term : GroupTerm} {expr : GroupExpr}
    (hread : ∀ field, term = .field field →
      Read.maskedBy { field, paths := false } columns = none)
    (hparam : ∀ n, term = .param n → ContentColumn.body ∉ columns)
    (h : groupExpr engine schema term = .ok expr) :
    Blind columns fun row => expr.eval engine row := by
  cases term with
  | field field => exact blind_fieldGroupExpr (hread field rfl) h
  | param n =>
    cases h
    have hterm : Blind columns fun row => (Term.param n).eval engine row :=
      blind_param (hparam n rfl) n
    exact hterm
  | bucket width =>
    have hbucket : ∃ nanos, expr = .bucket nanos (hasColumn schema .effectiveTimeUnixNano) := by
      unfold groupExpr at h
      obtain ⟨nanos, -, hlowered⟩ := bind_eq_ok_iff.mp h
      dsimp only at hlowered
      split at hlowered <;> cases hlowered
      exact ⟨nanos, rfl⟩
    obtain ⟨nanos, rfl⟩ := hbucket
    exact .of_redact fun row => rfl

theorem blind_aggregatedNumber {path : Field} {scalar : Column × Option ColumnType}
    (hread : Read.maskedBy { field := path, paths := false } columns = none)
    (h : scalarAggExpr path schema = .ok scalar) :
    Blind columns fun row => aggregatedNumber engine row scalar := by
  have hopen : scalar.1.Open columns := by
    unfold scalarAggExpr at h
    cases path with
    | attr key =>
      obtain ⟨column, hcolumn, hscalar⟩ := bind_eq_ok_iff.mp h
      cases hscalar
      exact open_promotedFor (unreached_of_maskedBy rfl hread) hcolumn
    | resource key =>
      obtain ⟨column, hcolumn, hscalar⟩ := bind_eq_ok_iff.mp h
      cases hscalar
      exact open_promotedFor (unreached_of_maskedBy rfl hread) hcolumn
    | _ => cases h
  intro row row' hagrees
  have hcell : row.cell engine scalar.1 = row'.cell engine scalar.1 :=
    blind_cell hopen row row' hagrees
  simp only [aggregatedNumber, hcell]

/-! ### Lists of rows -/

variable {rows rows' : List Row}

variable (h : List.Forall₂ (AgreesOutside columns) rows rows')
include h

theorem map_eq_of_agrees (hread : Blind columns read) : rows.map read = rows'.map read :=
  List.forall₂_eq_eq_eq ▸ List.rel_map (fun _ _ hrow => hread _ _ hrow) h

theorem filter_agrees {keeps : Row → Bool} (hkeeps : Blind columns keeps) :
    List.Forall₂ (AgreesOutside columns) (rows.filter keeps) (rows'.filter keeps) :=
  List.rel_filter (fun _ _ hrow => Bool.eq_iff_iff.mp (hkeeps _ _ hrow)) h

end Blind

/-! ## The scan -/

section Scan

variable {scan : Scan} {columns : List ContentColumn} {query : Query} {rows rows' : List Row}

variable {engine : Engine} {schema : Schema} {α β ε : Type} {aggregate : Aggregate}
  {lowered : LoweredAggregate} {items : List α} {results : List β} {f : α → Except ε β}

theorem blind_timeWindowFilter {window : Nat × Nat} {expr : Filter}
    (h : timeWindowFilter schema window = .ok expr) :
    expr.IsBlind engine columns := by
  have htime : Column.Open columns .timeUnixNano := trivial
  have heffective : Column.Open columns .effectiveTimeUnixNano := trivial
  unfold timeWindowFilter at h
  obtain ⟨lo, -, hupper⟩ := bind_eq_ok_iff.mp h
  obtain ⟨hi, -, hbounded⟩ := bind_eq_ok_iff.mp hupper
  dsimp only at hbounded
  split at hbounded <;> cases hbounded <;> grind

/-- The filter of a query whose reads are not masked is blind. -/
theorem blind_filter {predicate : Predicate} {window : Nat × Nat} {keeps : Row → Bool}
    (hreads : ∀ read ∈ collectPredicateFields predicate, read.maskedBy columns = none)
    (h : scan.filter schema predicate window = .ok (some keeps)) : Blind columns keeps := by
  unfold Scan.filter at h
  obtain ⟨windowFilter, hwindow, hpredicate⟩ := bind_eq_ok_iff.mp h
  obtain ⟨lowered, hlowered, hkeeps⟩ := bind_eq_ok_iff.mp hpredicate
  have hwindowBlind : windowFilter.IsBlind scan.engine columns := blind_timeWindowFilter hwindow
  have hblind : lowered.IsBlind scan.engine columns := isBlind_compilePredicate hreads hlowered
  cases lowered with
  | none => cases hkeeps
  | all =>
    cases hkeeps
    exact Blind.comp hwindowBlind Truth.holds
  | filter expr =>
    cases hkeeps
    exact Blind.comp₂ hwindowBlind hblind fun left right => left.holds && right.holds

/-- The time of a row, from the column a scan over the schema has for it. -/
def Row.timeIn (row : Row) (schema : Schema) : Int :=
  if hasColumn schema .effectiveTimeUnixNano then row.effectiveTime.getD row.record.timeUnixNano
  else row.record.timeUnixNano

/-- A scan keeps a row: it lies in the window, and the predicate lowers over the schema
and holds of it. -/
structure Scan.Keeps (scan : Scan) (schema : Schema) (predicate : Predicate) (window : Nat × Nat)
    (row : Row) : Prop where
  bound : window.2 ≤ i64Max
  start : window.1 ≤ row.timeIn schema
  stop : row.timeIn schema < window.2
  holds : ∃ expr, compilePredicate (scan.lowering schema) predicate = .ok expr ∧
    expr.keeps scan.engine row = true

theorem within_eval {row : Row} {column : Column} {lo hi time : Int}
    (h : row.cell engine column = .int time) :
    (Filter.and (.compare .ge (.col column) (.lit (.int lo)))
      (.compare .lt (.col column) (.lit (.int hi)))).eval engine row =
        some (decide (lo ≤ time ∧ time < hi)) := by
  simp only [Filter.eval, Term.eval, h, Scalar.compare, OrdOp.holds]
  by_cases hlo : lo ≤ time <;> simp [hlo, Truth.and]

theorem timeWindowFilter_holds {window : Nat × Nat} (hstart : window.1 ≤ i64Max)
    (hstop : window.2 ≤ i64Max) : ∃ expr, timeWindowFilter schema window = .ok expr ∧
      ∀ row, (expr.eval engine row).holds =
        decide (window.1 ≤ row.timeIn schema ∧ row.timeIn schema < window.2) := by
  have hstored : ∀ row : Row, row.cell engine .timeUnixNano = .int row.record.timeUnixNano :=
    fun _ => rfl
  simp only [timeWindowFilter, timeBoundScalar, if_pos hstart, if_pos hstop, bind, Except.bind,
    pure,
    Except.pure, Row.timeIn]
  split
  · refine ⟨_, rfl, fun row => ?_⟩
    rw [Filter.eval_or, Filter.eval_and _ _ (.isNull _), within_eval (hstored row)]
    cases htime : row.effectiveTime with
    | none =>
      have hcell : row.cell engine .effectiveTimeUnixNano = .null := by
        rw [Row.cell, htime]
        rfl
      simp only [Filter.eval, Term.eval, hcell, Scalar.compare, Option.getD_none]
      cases decide ((window.1 : Int) ≤ row.record.timeUnixNano ∧
        (row.record.timeUnixNano : Int) < window.2) <;> rfl
    | some time =>
      have hcell : row.cell engine .effectiveTimeUnixNano = .int time := by
        rw [Row.cell, htime]
        rfl
      rw [within_eval hcell, Filter.eval, Term.eval, hcell, Option.getD_some]
      cases decide ((window.1 : Int) ≤ time ∧ time < window.2) <;> rfl
  · refine ⟨_, rfl, fun row => ?_⟩
    rw [within_eval (hstored row)]
    cases decide ((window.1 : Int) ≤ row.record.timeUnixNano ∧
      (row.record.timeUnixNano : Int) < window.2) <;> rfl

theorem filter_eq_iff {predicate : Predicate} {window : Nat × Nat} {row : Row} :
    (∃ keeps, scan.filter schema predicate window = .ok (some keeps) ∧ keeps row = true) ↔
      scan.Keeps schema predicate window row := by
  constructor
  · rintro ⟨keeps, hfilter, hkeeps⟩
    unfold Scan.filter at hfilter
    obtain ⟨expr, hwindow, hrest⟩ := bind_eq_ok_iff.mp hfilter
    obtain ⟨lowered, hlowered, hkept⟩ := bind_eq_ok_iff.mp hrest
    have hbounds : window.1 ≤ i64Max ∧ window.2 ≤ i64Max := by
      obtain ⟨lo, hlo, hupper⟩ := bind_eq_ok_iff.mp hwindow
      obtain ⟨hi, hhi, -⟩ := bind_eq_ok_iff.mp hupper
      unfold timeBoundScalar at hlo hhi
      constructor <;> by_contra hout
      · rw [if_neg hout] at hlo
        cases hlo
      · rw [if_neg hout] at hhi
        cases hhi
    obtain ⟨expr', hwindow', hinside⟩ := timeWindowFilter_holds hbounds.1 hbounds.2
    cases hwindow.symm.trans hwindow'
    have hboth : (expr.eval scan.engine row).holds = true ∧
        lowered.keeps scan.engine row = true := by
      cases lowered with
      | none => cases hkept
      | all =>
        cases hkept
        exact ⟨hkeeps, rfl⟩
      | filter pred =>
        cases hkept
        exact Bool.and_eq_true_iff.mp hkeeps
    obtain ⟨hstart, hstop⟩ := of_decide_eq_true ((hinside row).symm.trans hboth.1)
    exact ⟨hbounds.2, hstart, hstop, lowered, hlowered, hboth.2⟩
  · rintro ⟨hbound, hstart, hstop, lowered, hlowered, hholds⟩
    obtain ⟨expr, hwindow, hinside⟩ :=
      @timeWindowFilter_holds scan.engine schema window (by omega) hbound
    have hwithin := (hinside row).trans (decide_eq_true ⟨hstart, hstop⟩)
    simp only [Scan.filter, hwindow, hlowered, bind, Except.bind, pure, Except.pure]
    cases lowered with
    | none => cases hholds
    | all => exact ⟨_, rfl, hwithin⟩
    | filter pred => exact ⟨_, rfl, Bool.and_eq_true_iff.mpr ⟨hwithin, hholds⟩⟩

/-- What preparing a query establishes. -/
structure Prepared.Sound (scan : Scan) (columns : List ContentColumn) (query : Query)
    (prepared : Prepared) : Prop where
  reads : ∀ read ∈ query.reads, read.maskedBy columns = none
  validated : validate scan.engine query scan.now scan.defaultWindow = .ok prepared.validated
  scanned : ∀ schema keeps, prepared.scanned = some (schema, keeps) → scan.schema = some schema ∧
    scan.filter schema query.predicate prepared.validated.window = .ok (some keeps)

theorem Prepared.Sound.blind {prepared : Prepared} {keeps : Row → Bool}
    (h : prepared.Sound scan columns query) (hscanned : prepared.scanned = some (schema, keeps)) :
    Blind columns keeps := by
  refine blind_filter ?_ (h.scanned schema keeps hscanned).2
  intro read hread
  exact h.reads read (List.mem_append_left _ hread)

theorem prepare_sound {prepared : Prepared} (h : scan.prepare columns query = .ok prepared) :
    prepared.Sound scan columns query := by
  unfold Scan.prepare at h
  obtain ⟨_, hvisible, hchecked⟩ := bind_eq_ok_iff.mp h
  obtain ⟨validated, hvalidated, hscanned⟩ := bind_eq_ok_iff.mp hchecked
  have hreads : ∀ read ∈ query.reads, read.maskedBy columns = none := by
    unfold validateVisibility at hvisible
    split at hvisible
    · cases hvisible
    · rename_i hnone
      exact List.findSome?_eq_none_iff.mp hnone
  split at hscanned
  · cases hscanned
    exact ⟨hreads, hvalidated, fun schema keeps heq => by cases heq⟩
  · rename_i schema hschema
    obtain ⟨keeps, hfilter, hprepared⟩ := bind_eq_ok_iff.mp hscanned
    cases hprepared
    refine ⟨hreads, hvalidated, ?_⟩
    intro schema' keeps' heq
    cases keeps with
    | none => cases heq
    | some keeps =>
      cases heq
      exact ⟨hschema, hfilter⟩

/-- The rows returned for agreeing lists are the same after masking. -/
theorem executeRows_agrees (h : List.Forall₂ (AgreesOutside columns) rows rows')
    (limit : Option Nat) :
    scan.executeRows columns limit rows = scan.executeRows columns limit rows' := by
  have hlength : rows.length = rows'.length := h.length_eq
  cases limit with
  | none => simp only [Scan.executeRows, hlength]
  | some limit =>
    have htake := List.forall₂_take limit h
    have htenants : (rows.take limit).map (fun row => row.record.tenantId) =
        (rows'.take limit).map fun row => row.record.tenantId :=
      map_eq_of_agrees htake (.of_redact fun _ => rfl)
    have hmasked : (rows.take limit).map (fun row =>
          (LogRow.fromRecord scan.engine scan.registry row.record).mask columns) =
        (rows'.take limit).map fun row =>
          (LogRow.fromRecord scan.engine scan.registry row.record).mask columns :=
      map_eq_of_agrees htake (blind_maskedRow scan.registry)
    simp only [Scan.executeRows, Scan.collectRecords, List.map_map, Function.comp_def, htenants]
    split
    · rfl
    · simp only [bind, Except.bind, pure, Except.pure, List.map_map, Function.comp_def, hmasked,
        List.length_map, htake.length_eq, hlength]

/-! ### Aggregation -/

/-- The results of a traversal are those of its items. -/
theorem map_eq_of_mapM (h : items.mapM f = .ok results) : items.map f = results.map .ok := by
  induction items generalizing results with
  | nil =>
    cases h
    rfl
  | cons item items ih =>
    rw [List.mapM_cons] at h
    obtain ⟨result, hresult, hitems⟩ := bind_eq_ok_iff.mp h
    obtain ⟨rest, hrest, hall⟩ := bind_eq_ok_iff.mp hitems
    cases hall
    rw [List.map_cons, List.map_cons, hresult, ih hrest]

theorem lowerAggregate_cases (h : lowerAggregate engine schema aggregate = .ok lowered) :
    aggregate.terms.mapM (groupExpr engine schema) = .ok lowered.terms ∧
      (lowered.scalar = none ∨ ∃ func path scalar, aggregate.scalar = some (func, path) ∧
        scalarAggExpr path schema = .ok scalar ∧ lowered.scalar = some (func, scalar)) := by
  unfold lowerAggregate at h
  obtain ⟨terms, hterms, hlowered⟩ := bind_eq_ok_iff.mp h
  split at hlowered
  · cases hlowered
    exact ⟨hterms, .inl rfl⟩
  · rename_i func path hscalar
    obtain ⟨scalar, hpath, hall⟩ := bind_eq_ok_iff.mp hlowered
    cases hall
    exact ⟨hterms, .inr ⟨func, path, scalar, hscalar, hpath, rfl⟩⟩

/-- What an aggregation reads is blind when its reads are not masked and it groups by
a param only under an open body. -/
theorem blind_observe (h : lowerAggregate engine schema aggregate = .ok lowered)
    (hfields : ∀ field, .field field ∈ aggregate.terms →
      Read.maskedBy { field, paths := false } columns = none)
    (hpath : ∀ func path, aggregate.scalar = some (func, path) →
      Read.maskedBy { field := path, paths := false } columns = none)
    (hparam : ∀ n, .param n ∈ aggregate.terms → ContentColumn.body ∉ columns) :
    Blind columns (lowered.observe engine) := by
  obtain ⟨hterms, hscalar⟩ := lowerAggregate_cases h
  intro row row' hagrees
  have hcells : lowered.terms.map (GroupExpr.eval engine row) =
      lowered.terms.map (GroupExpr.eval engine row') := by
    apply List.map_congr_left
    intro expr hexpr
    obtain ⟨term, hterm, hlowered⟩ := List.mem_map.mp
      ((List.Perm.of_eq (map_eq_of_mapM hterms)).mem_iff.mpr (List.mem_map_of_mem hexpr))
    refine blind_groupExpr ?_ ?_ hlowered row row' hagrees
    · rintro field rfl
      exact hfields field hterm
    · rintro n rfl
      exact hparam n hterm
  have hnumber : (lowered.scalar.bind fun scalar => aggregatedNumber engine row scalar.2) =
      lowered.scalar.bind fun scalar => aggregatedNumber engine row' scalar.2 := by
    rcases hscalar with hnone | ⟨func, path, scalar, hpathEq, hscalar, hsome⟩
    · rw [hnone]
      rfl
    · rw [hsome]
      exact blind_aggregatedNumber (hpath func path hpathEq) hscalar row row' hagrees
  rw [LoweredAggregate.observe, LoweredAggregate.observe, hcells, hnumber]

/-- The engine's groups partition the observations. -/
theorem sum_engineGroups (terms : List GroupExpr) (observations : List Observation) :
    ((engineGroups terms observations).map fun group => group.2.length).sum =
      observations.length := by
  unfold engineGroups
  split
  · simp
  · have hcount := List.sum_map_count_dedup_eq_length (observations.map Observation.cells)
    rw [List.length_map] at hcount
    rw [List.map_map, ← hcount]
    congr 1
    apply List.map_congr_left
    intro cells _
    rw [Function.comp_apply, ← List.countP_eq_length_filter]
    change _ = List.countP _ (observations.map Observation.cells)
    rw [List.countP_map]
    congr 1

/-- Observations whose cells all have a null are counted and excluded. -/
theorem decodeAggregate_excluded {terms : List GroupExpr} {func : Option AggFn}
    {observations : List Observation} (hterms : terms ≠ [])
    (h : ∀ observation ∈ observations, groupKey engine terms observation.cells = none) :
    decodeAggregate engine terms func observations =
      { rows := observations.length, rowsExcluded := observations.length, records := []
        aggregate := some [] } := by
  have hkeys : ∀ group ∈ engineGroups terms observations,
      groupKey engine terms group.1 = none := by
    intro group hgroup
    unfold engineGroups at hgroup
    rw [if_neg (by simpa using hterms)] at hgroup
    obtain ⟨cells, hcells, rfl⟩ := List.mem_map.mp hgroup
    obtain ⟨observation, hobservation, rfl⟩ := List.mem_map.mp (List.mem_dedup.mp hcells)
    exact h observation hobservation
  have hdecoded : (engineGroups terms observations).filterMap (decodeGroup engine terms func) =
      [] := by
    apply List.filterMap_eq_nil_iff.mpr
    intro group hgroup
    rw [decodeGroup, hkeys group hgroup]
    rfl
  have hexcluded : ((engineGroups terms observations).filter fun group =>
      (groupKey engine terms group.1).isNone) = engineGroups terms observations := by
    apply List.filter_eq_self.mpr
    intro group hgroup
    rw [hkeys group hgroup]
    rfl
  simp only [decodeAggregate, hdecoded, hexcluded, sum_engineGroups, List.mergeSort_nil]

/-- The outcome of one observation: its group, or nothing. -/
theorem decodeAggregate_singleton {terms : List GroupExpr} {func : Option AggFn}
    {observation : Observation} (hterms : terms ≠ []) :
    ((decodeAggregate engine terms func [observation]).aggregate.map fun groups =>
      groups.map AggregateGroup.key) =
        some (groupKey engine terms observation.cells).toList := by
  have hgroups : engineGroups terms [observation] = [(observation.cells, [observation])] := by
    unfold engineGroups
    rw [if_neg (by simpa using hterms)]
    simp
  simp only [decodeAggregate, hgroups]
  cases hkey : groupKey engine terms observation.cells <;> simp [decodeGroup, hkey]

/-! ### The stages of a query -/

def Stage.aggregate? : Stage → Option Aggregate
  | .count terms => some { terms, scalar := none }
  | .agg func path terms => some { terms, scalar := some (func, path) }
  | _ => none

def Query.GroupsByParam (query : Query) : Prop :=
  ∃ aggregate ∈ query.stages.filterMap Stage.aggregate?, ∃ n, .param n ∈ aggregate.terms

/-- Validation takes every aggregation there is, and there is at most one. -/
theorem validateStagesFrom_toList {predicate : Predicate} {stages : List Stage} :
    ∀ {before after : Option Aggregate},
      validateStagesFrom engine predicate before stages = .ok after →
        before.toList ++ stages.filterMap Stage.aggregate? = after.toList := by
  induction stages with
  | nil =>
    intro before after h
    cases h
    simp
  | cons stage stages ih =>
    intro before after h
    unfold validateStagesFrom at h
    cases stage with
    | range | limit => exact ih h
    | count terms =>
      cases before with
      | some first => cases h
      | none =>
        obtain ⟨_, -, hrest⟩ := bind_eq_ok_iff.mp h
        exact ih hrest
    | agg func path terms =>
      cases before with
      | some first => cases h
      | none =>
        obtain ⟨_, -, hpath⟩ := bind_eq_ok_iff.mp h
        obtain ⟨_, -, hrest⟩ := bind_eq_ok_iff.mp hpath
        exact ih hrest
    | _ => cases h

theorem validate_aggregate {now defaultWindow : Nat} {validated : Validated}
    (h : validate engine query now defaultWindow = .ok validated) :
    query.stages.filterMap Stage.aggregate? = validated.aggregate.toList := by
  unfold validate at h
  obtain ⟨aggregate, hstages, hbody⟩ := bind_eq_ok_iff.mp h
  obtain ⟨_, -, hregex⟩ := bind_eq_ok_iff.mp hbody
  obtain ⟨_, -, hwindow⟩ := bind_eq_ok_iff.mp hregex
  obtain ⟨window, -, hall⟩ := bind_eq_ok_iff.mp hwindow
  have htoList := validateStagesFrom_toList hstages
  rw [Option.toList_none, List.nil_append] at htoList
  dsimp only at hall
  split at hall <;> cases hall
  exact htoList

/-- The reads of the aggregation a query validated to are among the checked ones. -/
theorem aggregate_reads (hmem : aggregate ∈ query.stages.filterMap Stage.aggregate?)
    (hreads : ∀ read ∈ query.reads, read.maskedBy columns = none) :
    (∀ field, .field field ∈ aggregate.terms →
      Read.maskedBy { field, paths := false } columns = none) ∧
    ∀ func path, aggregate.scalar = some (func, path) →
      Read.maskedBy { field := path, paths := false } columns = none := by
  obtain ⟨stage, hstage, haggregate⟩ := List.mem_filterMap.mp hmem
  have hstageReads : ∀ read ∈ stage.reads, read.maskedBy columns = none := by
    intro read hread
    exact hreads read (List.mem_append_right _ (List.mem_flatMap.mpr ⟨stage, hstage, hread⟩))
  have hgroup : ∀ terms field, .field field ∈ terms →
      ({ field, paths := false } : Read) ∈ collectGroupFields terms :=
    fun terms field hfield => List.mem_filterMap.mpr ⟨_, hfield, rfl⟩
  cases stage with
  | count terms =>
    cases haggregate
    exact ⟨fun field hfield => hstageReads _ (hgroup terms field hfield),
      fun func path hscalar => by cases hscalar⟩
  | agg func path terms =>
    cases haggregate
    refine ⟨fun field hfield => ?_, fun func' path' hscalar => ?_⟩
    · exact hstageReads _ (List.mem_cons_of_mem _ (hgroup terms field hfield))
    · cases hscalar
      exact hstageReads _ List.mem_cons_self
  | _ => cases haggregate

/-! ### Outcomes -/

theorem own_agrees (h : List.Forall₂ (AgreesOutside columns) rows rows') :
    List.Forall₂ (AgreesOutside columns)
      (rows.filter fun row => row.record.tenantId = scan.tenant)
      (rows'.filter fun row => row.record.tenantId = scan.tenant) :=
  filter_agrees h (.of_redact fun _ => rfl)

theorem executeAggregate_agrees (h : List.Forall₂ (AgreesOutside columns) rows rows')
    (hmem : aggregate ∈ query.stages.filterMap Stage.aggregate?)
    (hreads : ∀ read ∈ query.reads, read.maskedBy columns = none)
    (hparam : ∀ n, .param n ∈ aggregate.terms → ContentColumn.body ∉ columns) :
    scan.executeAggregate schema aggregate rows = scan.executeAggregate schema aggregate rows' := by
  unfold Scan.executeAggregate
  cases hlowered : lowerAggregate scan.engine schema aggregate with
  | error error => rfl
  | ok lowered =>
    obtain ⟨hfields, hpath⟩ := aggregate_reads hmem hreads
    simp only [bind, Except.bind]
    rw [map_eq_of_agrees (own_agrees h) (blind_observe hlowered hfields hpath hparam)]

theorem mapM_zip_map {γ : Type} (f : α → β) (g : α × β → Option γ) (items : List α) :
    (items.zip (items.map f)).mapM g = items.mapM fun item => g (item, f item) := by
  induction items with
  | nil => rfl
  | cons item items ih =>
    rw [List.map_cons, List.zip_cons_cons, List.mapM_cons, List.mapM_cons, ih]

theorem mapM_eq_none_iff {f : α → Option β} :
    items.mapM f = none ↔ ∃ item ∈ items, f item = none := by
  induction items with
  | nil => simp
  | cons item items ih =>
    rw [List.mapM_cons]
    cases hitem : f item <;> cases hrest : items.mapM f <;> simp_all

theorem groupKey_observe (engine : Engine) (lowered : LoweredAggregate) (row : Row) :
    groupKey engine lowered.terms (lowered.observe engine row).cells =
      lowered.terms.mapM fun expr => groupKeyString engine expr (expr.eval engine row) :=
  mapM_zip_map _ _ _

theorem groupKey_eq_none_iff {row : Row} :
    groupKey engine lowered.terms (lowered.observe engine row).cells = none ↔
      ∃ expr ∈ lowered.terms, expr.eval engine row = .null := by
  have hcell : ∀ (expr : GroupExpr) (cell : Scalar),
      groupKeyString engine expr cell = none ↔ cell = .null := by
    intro expr cell
    cases cell <;> simp [groupKeyString]
  rw [groupKey_observe, mapM_eq_none_iff]
  simp only [hcell]

/-- A row is in a group that a query returns: the query passes the checks and lowers over
the schema of the scanned files, and the row is one of the tenant that it keeps and that
has no null among its group cells. -/
def Scan.Groups (scan : Scan) (columns : List ContentColumn) (query : Query) (row : Row) : Prop :=
  (∀ read ∈ query.reads, read.maskedBy columns = none) ∧ row.record.tenantId = scan.tenant ∧
    ∃ schema validated aggregate lowered, scan.schema = some schema ∧
      validate scan.engine query scan.now scan.defaultWindow = .ok validated ∧
      validated.aggregate = some aggregate ∧
      lowerAggregate scan.engine schema aggregate = .ok lowered ∧
      scan.Keeps schema query.predicate validated.window row ∧
      ∀ expr ∈ lowered.terms, expr.eval scan.engine row ≠ .null

theorem executeAggregate_of_silent
    (hlowered : lowerAggregate scan.engine schema aggregate = .ok lowered)
    (hterms : lowered.terms ≠ [])
    (hsilent : ∀ row ∈ rows, row.record.tenantId = scan.tenant →
      groupKey scan.engine lowered.terms (lowered.observe scan.engine row).cells = none) :
    scan.executeAggregate schema aggregate rows =
      let own := (rows.filter fun row => row.record.tenantId = scan.tenant).length
      .ok { rows := own, rowsExcluded := own, records := [], aggregate := some [] } := by
  simp only [Scan.executeAggregate, hlowered, bind, Except.bind, pure, Except.pure]
  rw [decodeAggregate_excluded hterms, List.length_map]
  intro observation hobservation
  obtain ⟨row, hrow, rfl⟩ := List.mem_map.mp hobservation
  obtain ⟨hmem, htenant⟩ := List.mem_filter.mp hrow
  exact hsilent row hmem (of_decide_eq_true htenant)

/-- The outcome of one row that is kept: its group, if it has a key. -/
theorem runQuery_singleton {prepared : Prepared} {keeps : Row → Bool} {row : Row}
    (hprepared : scan.prepare columns query = .ok prepared)
    (hscanned : prepared.scanned = some (schema, keeps))
    (haggregate : prepared.validated.aggregate = some aggregate)
    (hlowered : lowerAggregate scan.engine schema aggregate = .ok lowered)
    (hterms : lowered.terms ≠ []) (hkeeps : keeps row = true)
    (htenant : row.record.tenantId = scan.tenant) :
    ∃ result, scan.runQuery columns query [row] = .ok result ∧
      (result.aggregate.map fun groups => groups.map AggregateGroup.key) =
        some (groupKey scan.engine lowered.terms (lowered.observe scan.engine row).cells).toList
          := by
  have hrun : scan.runQuery columns query [row] = .ok (decodeAggregate scan.engine lowered.terms
      (lowered.scalar.map Prod.fst) [lowered.observe scan.engine row]) := by
    simp only [Scan.runQuery, hprepared, bind, Except.bind, Scan.finish, hscanned, haggregate,
      Scan.executeAggregate, hlowered, pure, Except.pure]
    simp [hkeeps, htenant]
  exact ⟨_, hrun, decodeAggregate_singleton hterms⟩

theorem lowered_terms_ne_nil (hlowered : lowerAggregate engine schema aggregate = .ok lowered)
    {n : Nat} (hparam : .param n ∈ aggregate.terms) :
    GroupExpr.param n ∈ lowered.terms ∧ lowered.terms ≠ [] := by
  obtain ⟨hterms, -⟩ := lowerAggregate_cases hlowered
  obtain ⟨expr, hexpr, heq⟩ := List.mem_map.mp
    ((List.Perm.of_eq (map_eq_of_mapM hterms)).mem_iff.mp (List.mem_map_of_mem hparam))
  cases heq
  exact ⟨hexpr, List.ne_nil_of_mem hexpr⟩

/-- Where no row that is kept has a key, agreeing rows are only counted. -/
theorem executeAggregate_agrees_of_silent {keeps : Row → Bool}
    (h : List.Forall₂ (AgreesOutside columns) (rows.filter keeps) (rows'.filter keeps))
    (hlowered : lowerAggregate scan.engine schema aggregate = .ok lowered)
    (hterms : lowered.terms ≠ [])
    (hsilent : ∀ row, keeps row = true → row.record.tenantId = scan.tenant →
      groupKey scan.engine lowered.terms (lowered.observe scan.engine row).cells = none) :
    scan.executeAggregate schema aggregate (rows.filter keeps) =
      scan.executeAggregate schema aggregate (rows'.filter keeps) := by
  have hkept (rows : List Row) := executeAggregate_of_silent hlowered hterms
    fun row (hrow : row ∈ rows.filter keeps) => hsilent row (List.mem_filter.mp hrow).2
  rw [hkept, hkept, (own_agrees h).length_eq]

/-- Without a group at stake, agreeing rows give the same outcome. -/
theorem runQuery_agrees (h : List.Forall₂ (AgreesOutside columns) rows rows')
    (hsafe : ¬ (ContentColumn.body ∈ columns ∧ query.GroupsByParam ∧
      ∃ row, scan.Groups columns query row)) :
    scan.runQuery columns query rows = scan.runQuery columns query rows' := by
  cases hprepared : scan.prepare columns query with
  | error error => simp only [Scan.runQuery, hprepared, bind, Except.bind]
  | ok prepared =>
    have hsound := prepare_sound hprepared
    simp only [Scan.runQuery, hprepared, bind, Except.bind, Scan.finish]
    cases hscanned : prepared.scanned with
    | none => rfl
    | some scanned =>
      obtain ⟨schema, keeps⟩ := scanned
      have hkept := filter_agrees h (hsound.blind hscanned)
      cases haggregate : prepared.validated.aggregate with
      | none => exact executeRows_agrees hkept _
      | some aggregate =>
        have hmem : aggregate ∈ query.stages.filterMap Stage.aggregate? := by
          rw [validate_aggregate hsound.validated, haggregate]
          exact List.mem_singleton_self _
        by_cases hleaks : ContentColumn.body ∈ columns ∧ ∃ n, .param n ∈ aggregate.terms
        case neg =>
          refine executeAggregate_agrees hkept hmem hsound.reads fun n hn hbody => ?_
          exact hleaks ⟨hbody, n, hn⟩
        obtain ⟨hbody, n, hparam⟩ := hleaks
        cases hlowered : lowerAggregate scan.engine schema aggregate with
        | error error => simp only [Scan.executeAggregate, hlowered, bind, Except.bind]
        | ok lowered =>
          obtain ⟨-, hterms⟩ := lowered_terms_ne_nil hlowered hparam
          obtain ⟨hschema, hfilter⟩ := hsound.scanned schema keeps hscanned
          -- A row with a full key would be in a group.
          refine executeAggregate_agrees_of_silent hkept hlowered hterms ?_
          intro row hkeeps htenant
          by_contra hkey
          rw [groupKey_eq_none_iff] at hkey
          refine hsafe ⟨hbody, ⟨aggregate, hmem, n, hparam⟩, row, hsound.reads, htenant, schema, _,
            aggregate, lowered, hschema, hsound.validated, haggregate, hlowered,
            filter_eq_iff.mp ⟨keeps, hfilter, hkeeps⟩, ?_⟩
          intro expr hexpr hnull
          exact hkey ⟨expr, hexpr, hnull⟩

def Row.changeParam (row : Row) (n : Nat) : Row :=
  { row with record := { row.record with
      params := row.record.params.modify n fun param =>
        { param with value := 'x' :: param.value } } }

theorem changeParam_agrees (hbody : ContentColumn.body ∈ columns) (row : Row) (n : Nat) :
    AgreesOutside columns row (row.changeParam n) := by
  simp only [AgreesOutside, Row.redact, Row.changeParam, if_pos hbody]

theorem map_eq_of_mapM_some {f : α → Option β} (h : items.mapM f = some results) :
    items.map f = results.map some := by
  induction items generalizing results with
  | nil =>
    cases h
    rfl
  | cons item items ih =>
    rw [List.mapM_cons] at h
    obtain ⟨result, hresult, hitems⟩ := Option.bind_eq_some_iff.mp h
    obtain ⟨rest, hrest, hall⟩ := Option.bind_eq_some_iff.mp hitems
    cases hall
    rw [List.map_cons, List.map_cons, hresult, ih hrest]

/-- Changing a param a query groups by changes the key of the row's group. -/
theorem groupKey_changeParam {row : Row} {n : Nat} {key : List Text}
    (hparam : GroupExpr.param n ∈ lowered.terms)
    (hkey : groupKey engine lowered.terms (lowered.observe engine row).cells = some key) :
    groupKey engine lowered.terms (lowered.observe engine (row.changeParam n)).cells ≠
      some key := by
  intro hkey'
  rw [groupKey_observe] at hkey hkey'
  obtain ⟨text, -, htext⟩ := List.mem_map.mp
    ((List.Perm.of_eq (map_eq_of_mapM_some hkey)).mem_iff.mp (List.mem_map_of_mem hparam))
  have hsame := (map_eq_of_mapM_some hkey).trans (map_eq_of_mapM_some hkey').symm
  have htext' := List.map_inj_left.mp hsame _ hparam
  simp only [GroupExpr.eval, Term.eval, Row.changeParam, List.getElem?_modify_eq] at htext htext'
  cases hslot : row.record.params[n]? with
  | none =>
    rw [hslot] at htext
    cases htext
  | some param =>
    rw [hslot] at htext'
    simp only [Option.map_eq_map, Option.map_some, Scalar.ofOption, groupKeyString,
      Option.some.injEq] at htext'
    exact List.cons_ne_self _ _ htext'.symm

/-- A query gives the same outcome on all rows that agree outside the masked columns,
unless the body is masked, the query groups by a param and some row is in a group. -/
theorem Scan.runQuery_agrees_iff (scan : Scan) (columns : List ContentColumn) (query : Query) :
    (∀ rows rows', List.Forall₂ (AgreesOutside columns) rows rows' →
      scan.runQuery columns query rows = scan.runQuery columns query rows') ↔
    ¬ (ContentColumn.body ∈ columns ∧ query.GroupsByParam ∧
      ∃ row, scan.Groups columns query row) := by
  refine ⟨?_, fun hsafe rows rows' h => runQuery_agrees h hsafe⟩
  rintro hall ⟨hbody, ⟨aggregate, hmem, n, hparam⟩, row, hreads, htenant, schema, validated,
    aggregate', lowered, hschema, hvalidated, haggregate, hlowered, hkeeps, hcells⟩
  obtain rfl : aggregate = aggregate' := by
    rw [validate_aggregate hvalidated, haggregate] at hmem
    exact List.mem_singleton.mp hmem
  obtain ⟨keeps, hfilter, hkept⟩ := filter_eq_iff.mpr hkeeps
  have hprepared : scan.prepare columns query =
      .ok { validated, scanned := some (schema, keeps) } := by
    simp only [Scan.prepare, validateVisibility, List.findSome?_eq_none_iff.mpr hreads, hvalidated,
      hschema, hfilter, bind, Except.bind]
    rfl
  have hagrees := changeParam_agrees hbody row n
  have hkept' : keeps (row.changeParam n) = true :=
    ((prepare_sound hprepared).blind rfl _ _ hagrees).symm.trans hkept
  obtain ⟨hexpr, hterms⟩ := lowered_terms_ne_nil hlowered hparam
  obtain ⟨key, hkey⟩ := Option.ne_none_iff_exists'.mp fun hnone => by
    obtain ⟨expr, hmem, hnull⟩ := groupKey_eq_none_iff.mp hnone
    exact hcells expr hmem hnull
  -- The two rows are in groups of different keys.
  obtain ⟨first, hfirst, hkeys⟩ := runQuery_singleton hprepared rfl haggregate hlowered hterms
    hkept htenant
  obtain ⟨second, hsecond, hkeys'⟩ := runQuery_singleton hprepared rfl haggregate hlowered hterms
    hkept' htenant
  rw [hkey] at hkeys
  cases (hfirst.symm.trans (hall _ _ (.cons hagrees .nil))).trans hsecond
  have hsame := Option.some.inj (hkeys.symm.trans hkeys')
  refine groupKey_changeParam hexpr hkey (Option.mem_toList.mp ?_)
  rw [← hsame]
  exact List.mem_singleton_self key

end Scan

/-! ## A param of a masked body as a group key -/

/-- A scan of rows of one tenant with no aliases and no registered template. -/
def plainScan : Scan where
  engine := default
  tenant := "t".toList
  now := 10
  defaultWindow := 10
  aliasClasses id := [id]
  registry := ∅
  schema := some wideSchema
  elideCountScan := false

/-- `template_id == 7 | count by param(0)`. -/
def countByParam : Query where
  predicate := .comparison .templateId (.ord .eq) (.int 7)
  stages := [.count [.param 0]]

def paramRow (value : Text) : Row :=
  { bareRow with record := { bareRow.record with params := [{ typeTag := .str, value }] } }

def groupKeys (outcome : Except QueryError QueryResult) : Option (List (List Text)) :=
  outcome.toOption.bind fun result => result.aggregate.map fun groups =>
    groups.map AggregateGroup.key

/-- A reader that may not see the body reads a param of it as a group key. -/
theorem param_leaks_from_masked_body :
    ∃ rows rows', List.Forall₂ (AgreesOutside [.body]) rows rows' ∧
      plainScan.runQuery [.body] countByParam rows ≠
        plainScan.runQuery [.body] countByParam rows' := by
  refine ⟨[paramRow "alice".toList], [paramRow "bob".toList], .cons rfl .nil, ?_⟩
  intro heq
  have halice : groupKeys (plainScan.runQuery [.body] countByParam [paramRow "alice".toList]) =
      some [["alice".toList]] := by decide +kernel
  have hbob : groupKeys (plainScan.runQuery [.body] countByParam [paramRow "bob".toList]) =
      some [["bob".toList]] := by decide +kernel
  rw [heq, hbob] at halice
  exact absurd halice (by decide)

end Ourios.Querier
