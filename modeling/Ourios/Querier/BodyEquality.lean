/-
# Body equality means the rendered body

`body == literal` looks at the stored body where a row has one, and otherwise at the
template versions the literal is an instance of. On a row the miner could have written,
the candidate of the row's own version holds exactly when the literal is the line the row
renders as: a line is tokenized in one way only, so equal lines have equal tokens and
equal separators. A row whose overflowing param was cut short is no such line, and
without its body the filter and the renderer differ.
-/

import Ourios.Querier.SchemaGap

namespace Ourios.Querier

open Ourios.Foundation Ourios.Miner

/-! ## Candidates -/

theorem unify_eq_some_iff {template : List OwnedToken} {tokens values : List Text} :
    unify template tokens = some values ↔ Fills template values tokens := by
  constructor
  · intro h
    induction template generalizing tokens values with
    | nil =>
      cases tokens <;> cases h
      exact .nil
    | cons token template ih =>
      cases tokens with
      | nil => cases token <;> cases h
      | cons text tokens =>
        cases token with
        | fixed fixed =>
          obtain ⟨rfl, hrest⟩ := (Option.ite_none_right_eq_some).mp h
          exact .fixed fixed (ih hrest)
        | wildcard =>
          obtain ⟨rest, hrest, rfl⟩ := Option.map_eq_some_iff.mp h
          exact .wildcard text (ih hrest)
  · intro h
    induction h with
    | nil => rfl
    | fixed text rest ih => rw [unify, if_pos rfl, ih]
    | wildcard value rest ih => rw [unify, ih, Option.map_some]

/-- A candidate is a registered version the tokens of the literal fill. -/
theorem mem_bodyLiteralCandidates {registry : TemplateRegistry} {literal : Text}
    {candidate : BodyLiteralMatch} :
    candidate ∈ bodyLiteralCandidates registry literal ↔ ∃ tokenized template,
      tokenize literal = .ok tokenized ∧
      registry.lookup (candidate.templateId, candidate.templateVersion) = some template ∧
      Fills template candidate.params tokenized.tokens := by
  unfold bodyLiteralCandidates
  cases htokenize : tokenize literal with
  | error error => simp
  | ok tokenized =>
    dsimp only
    rw [List.mem_mergeSort, List.mem_filterMap]
    constructor
    · rintro ⟨⟨⟨id, version⟩, template⟩, hentry, hcandidate⟩
      obtain ⟨values, hunify, rfl⟩ := Option.map_eq_some_iff.mp hcandidate
      exact ⟨tokenized, template, rfl, AList.mem_lookup_iff.mpr hentry,
        unify_eq_some_iff.mp hunify⟩
    · rintro ⟨_, template, heq, hlookup, hfills⟩
      cases heq
      refine ⟨⟨_, template⟩, AList.mem_lookup_iff.mp hlookup, ?_⟩
      rw [unify_eq_some_iff.mpr hfills]
      rfl

/-! ## The rows of the miner -/

/-- A row that holds a line as the tokenizer splits it: one param per wildcard, one
separator more than tokens, words without whitespace or NUL, and whitespace around them. -/
structure SplitRow (record : MinedRecord) (template : List OwnedToken) : Prop where
  params : record.params.length = wildcardCount template
  separators : record.separators.length = template.length + 1
  words : ∀ word, .fixed word ∈ template ∨ word ∈ record.params.map Param.value →
    word ≠ [] ∧ ∀ c ∈ word, isWhitespace c = false ∧ c.toNat ≠ 0
  blank : ∀ separator ∈ record.separators, ∀ c ∈ separator, isWhitespace c = true
  inner : ∀ separator ∈ record.separators.tail.dropLast, separator ≠ []

/-- What holds of a string row: its version is registered, a stored body is what it
renders as, and without one it is not lossy and holds a split line. -/
structure MinedRow (registry : TemplateRegistry) (template : List OwnedToken)
    (record : MinedRecord) : Prop where
  kind : record.bodyKind = .string
  registered : registry.lookup (record.templateId, record.templateVersion) = some template
  stored : ∀ body, record.body = some body → (render record template).1 = body
  mined : record.body = none → record.lossyFlag = false ∧ SplitRow record template

/-- As many values as wildcards fill a template. -/
theorem exists_fills {template : List OwnedToken} {values : List Text}
    (h : values.length = wildcardCount template) : ∃ tokens, Fills template values tokens ∧
      ∀ token ∈ tokens, .fixed token ∈ template ∨ token ∈ values := by
  induction template generalizing values with
  | nil =>
    obtain rfl := List.eq_nil_of_length_eq_zero h
    exact ⟨[], .nil, nofun⟩
  | cons token template ih =>
    cases token with
    | fixed text =>
      obtain ⟨tokens, hfills, hfrom⟩ := ih (h.trans (wildcardCount_fixed text template))
      refine ⟨text :: tokens, .fixed text hfills, ?_⟩
      grind
    | wildcard =>
      rw [wildcardCount_wildcard] at h
      obtain ⟨value, values, rfl⟩ := List.exists_cons_of_length_eq_add_one h
      obtain ⟨tokens, hfills, hfrom⟩ := ih (Nat.succ.inj h)
      refine ⟨value :: tokens, .wildcard value hfills, ?_⟩
      grind

theorem mem_weave {separators tokens : List Text} {c : Char} (h : c ∈ weave separators tokens) :
    (∃ separator ∈ separators, c ∈ separator) ∨ ∃ token ∈ tokens, c ∈ token := by
  induction separators generalizing tokens with
  | nil => cases tokens <;> cases h
  | cons separator separators ih =>
    cases tokens with
    | nil => exact .inl (List.mem_flatten.mp h)
    | cons token tokens =>
      rw [weave, List.append_assoc, List.mem_append, List.mem_append] at h
      grind

theorem toNat_ne_zero_of_isWhitespace {c : Char} (h : isWhitespace c = true) : c.toNat ≠ 0 := by
  intro hzero
  unfold isWhitespace at h
  simp [hzero] at h

/-- A split row renders as a line that is tokenized into what the row holds. -/
theorem SplitRow.line {record : MinedRecord} {template : List OwnedToken}
    (h : SplitRow record template) : ∃ line tokens, Captures record template line ∧
      tokenize line = .ok ⟨tokens, record.separators⟩ ∧
      Fills template (record.params.map Param.value) tokens := by
  have hvalues : (record.params.map Param.value).length = wildcardCount template := by
    rw [List.length_map, h.params]
  obtain ⟨tokens, hfills, hfrom⟩ := exists_fills hvalues
  have hlength : record.separators.length = tokens.length + 1 := by
    rw [h.separators, hfills.length_tokens]
  have hwords := fun token htoken => h.words token (hfrom token htoken)
  have hparts : (Tokenized.mk tokens record.separators).WellFormed :=
    ⟨fun token htoken => ⟨(hwords token htoken).1, fun c hc => ((hwords token htoken).2 c hc).1⟩,
      h.blank, hlength, h.inner⟩
  refine ⟨weave record.separators tokens, tokens, ⟨tokens, rfl, hlength, hfills⟩, ?_, hfills⟩
  rw [tokenize, nulOffset_eq_none, hparts.scan_eq]
  intro c hc
  rcases mem_weave hc with ⟨separator, hseparator, hmem⟩ | ⟨token, htoken, hmem⟩
  · exact toNat_ne_zero_of_isWhitespace (h.blank separator hseparator c hmem)
  · exact ((hwords token htoken).2 c hmem).2

/-! ## The arms of the filter -/

section Arms

variable {engine : Engine} {row : Row}

/-- A conjunction of element tests compares two lists of one length. -/
theorem elements_eval {term : Nat → Term} {items stored : List Text} {n : Nat} {start : Filter}
    {started : Bool} (hstart : start.eval engine row = some started)
    (hterm : ∀ i, (term (n + i)).eval engine row = .ofOption .text stored[i]?)
    (hlength : started = true → items.length = stored.length) :
    ((items.zipIdx n).foldl (fun arm (value, i) =>
      .and arm (.compare .eq (term i) (.lit (.text value)))) start).eval engine row =
        some (started && decide (items = stored)) := by
  induction items generalizing stored n start started with
  | nil =>
    rw [List.zipIdx_nil, List.foldl_nil, hstart]
    cases started with
    | false => rfl
    | true => simp [List.eq_nil_of_length_eq_zero (hlength rfl).symm]
  | cons item items ih =>
    rw [List.zipIdx_cons, List.foldl_cons]
    have hlater : ∀ i, (term (n + 1 + i)).eval engine row = .ofOption .text stored.tail[i]? := by
      intro i
      rw [Nat.add_assoc, Nat.add_comm 1 i, hterm, List.getElem?_tail]
    cases started with
    | false =>
      have hjoined : (Filter.and start (.compare .eq (term n) (.lit (.text item)))).eval engine
          row = some false := by
        rw [Filter.eval, hstart]
        rfl
      exact ih hjoined hlater nofun
    | true =>
      obtain ⟨first, rest, rfl⟩ := List.exists_cons_of_length_eq_add_one (hlength rfl).symm
      have hjoined : (Filter.and start (.compare .eq (term n) (.lit (.text item)))).eval engine
          row = some (decide (item = first)) := by
        rw [Filter.eval, hstart, Filter.eval, ← Nat.add_zero n, hterm]
        simp [Term.eval, Scalar.ofOption, Scalar.compare, OrdOp.holds, Truth.and, eq_comm]
      have hrest : ∀ i, (term (n + 1 + i)).eval engine row = .ofOption .text rest[i]? := hlater
      rw [ih hjoined hrest fun _ => Nat.succ.inj (hlength rfl), Option.some.injEq,
        Bool.eq_iff_iff]
      simp

/-- A candidate's arm compares the row's version, params and separators with its own. -/
theorem candidateArm_eval {candidate : BodyLiteralMatch} {separators : List Text}
    (h : candidate.templateId = row.record.templateId →
      candidate.templateVersion = row.record.templateVersion →
      candidate.params.length = row.record.params.length ∧
        separators.length = row.record.separators.length) :
    (candidateArm candidate separators).eval engine row =
      some (decide (candidate = ⟨row.record.templateId, row.record.templateVersion,
        row.record.params.map Param.value⟩ ∧ separators = row.record.separators)) := by
  have hidentity : (Filter.and
      (.compare .eq (.col .templateId) (.lit (.int candidate.templateId)))
      (.compare .eq (.col .templateVersion) (.lit (.int candidate.templateVersion)))).eval engine
        row = some (decide (candidate.templateId = row.record.templateId ∧
          candidate.templateVersion = row.record.templateVersion)) := by
    simp only [Filter.eval, Term.eval, Row.cell, Scalar.compare, OrdOp.holds, Truth.and_some]
    rw [Option.some.injEq, Bool.eq_iff_iff]
    simp only [Bool.and_eq_true, decide_eq_true_eq]
    omega
  have hparams : ∀ i, (Term.param (0 + i)).eval engine row =
      .ofOption .text (row.record.params.map Param.value)[i]? := by
    intro i
    rw [Nat.zero_add, Term.eval, List.getElem?_map]
    cases row.record.params[i]? <;> rfl
  have hseparators : ∀ i, (Term.separator (0 + i)).eval engine row =
      .ofOption .text row.record.separators[i]? := by
    intro i
    rw [Nat.zero_add, Term.eval]
  refine (elements_eval (elements_eval hidentity hparams fun hsame => ?_) hseparators
    fun hsame => ?_).trans ?_
  · obtain ⟨hid, hversion⟩ := of_decide_eq_true hsame
    rw [List.length_map, (h hid hversion).1]
  · obtain ⟨hid, hversion⟩ := of_decide_eq_true (Bool.and_eq_true_iff.mp hsame).1
    exact (h hid hversion).2
  · rw [Option.some.injEq, Bool.eq_iff_iff]
    cases candidate
    simp [and_assoc]

variable {registry : TemplateRegistry} {template : List OwnedToken}

/-- Without a stored body, some candidate's arm holds exactly when the row renders as the
literal. -/
theorem MinedRow.templateArm_eval (h : MinedRow registry template row.record)
    (hnone : row.record.body = none) (hkept : row.record.anyOverflow = false) (literal : Text) :
    ((reduceOr ((bodyEqualityPlan registry literal).candidates.map fun candidate =>
      candidateArm candidate (bodyEqualityPlan registry literal).separators)).getD
        (.lit false)).eval engine row =
      some (decide ((render row.record template).1 = literal)) := by
  obtain ⟨hlossy, hsplit⟩ := h.mined hnone
  have hrender : ∀ {line}, Captures row.record template line →
      (render row.record template).1 = line :=
    fun hcaptures => congrArg Prod.fst (hcaptures.render_eq h.kind hlossy hkept)
  have hown : ∀ candidate ∈ bodyLiteralCandidates registry literal,
      candidate.templateId = row.record.templateId →
      candidate.templateVersion = row.record.templateVersion → ∃ tokenized,
        tokenize literal = .ok tokenized ∧ Fills template candidate.params tokenized.tokens := by
    intro candidate hcandidate hid hversion
    obtain ⟨tokenized, found, htokenize, hlookup, hfills⟩ :=
      mem_bodyLiteralCandidates.mp hcandidate
    rw [hid, hversion, h.registered] at hlookup
    cases hlookup
    exact ⟨tokenized, htokenize, hfills⟩
  refine (reduceOr_eval fun candidate hcandidate =>
    candidateArm_eval fun hid hversion => ?_).trans ?_
  · obtain ⟨tokenized, htokenize, hfills⟩ := hown candidate hcandidate hid hversion
    refine ⟨by rw [hfills.length_values, hsplit.params], ?_⟩
    simp only [bodyEqualityPlan, htokenize]
    rw [(tokenize_ok htokenize).1, hfills.length_tokens, hsplit.separators]
  rw [Option.some.injEq, Bool.eq_iff_iff, List.any_eq_true, decide_eq_true_iff]
  constructor
  · rintro ⟨candidate, hcandidate, htrue⟩
    obtain ⟨rfl, hseparators⟩ := of_decide_eq_true htrue
    obtain ⟨tokenized, htokenize, hfills⟩ := hown _ hcandidate rfl rfl
    simp only [bodyEqualityPlan, htokenize] at hseparators
    obtain ⟨hlength, hweave, -⟩ := tokenize_ok htokenize
    rw [hseparators] at hlength hweave
    exact hrender ⟨tokenized.tokens, hweave, hlength, hfills⟩
  · intro hline
    obtain ⟨line, tokens, hcaptures, htokenize, hfills⟩ := hsplit.line
    obtain rfl : line = literal := (hrender hcaptures).symm.trans hline
    refine ⟨⟨row.record.templateId, row.record.templateVersion, row.record.params.map Param.value⟩,
      mem_bodyLiteralCandidates.mpr ⟨_, template, htokenize, h.registered, hfills⟩, ?_⟩
    simp [bodyEqualityPlan, htokenize]

attribute [local simp] PredExpr.verdict PredExpr.intoExpr Filter.eval Term.eval Row.cell
  Scalar.ofOption Scalar.compare OrdOp.holds Truth.not Truth.holds bne

/-- The verdict of a body comparison: what the row renders as is compared with the literal,
except that `==` is unknown where the scan has a body column, the row no body, and the
two differ. -/
theorem MinedRow.bodyEquality_verdict {schema : Schema}
    (h : MinedRow registry template row.record)
    (hkept : row.record.body = none → row.record.anyOverflow = false)
    (hschema : hasColumn schema .body = false → row.record.body = none) (literal : Text)
    (negated : Bool) :
    (bodyEquality (bodyEqualityPlan registry literal) literal schema negated).verdict engine row =
      if negated = false ∧ hasColumn schema .body = true ∧ row.record.body = none ∧
        (render row.record template).1 ≠ literal then none
      else some (negated != decide ((render row.record template).1 = literal)) := by
  have hkind : BodyKind.number row.record.bodyKind = 0 := by
    rw [h.kind]
    rfl
  cases hbody : row.record.body with
  | some body =>
    have hpresent : hasColumn schema .body = true := by
      by_contra habsent
      rw [hschema (Bool.not_eq_true _ ▸ habsent)] at hbody
      cases hbody
    have hnull : (Scalar.text body == .null) = false := rfl
    rw [h.stored body hbody]
    unfold bodyEquality
    generalize reduceOr _ = arm
    cases arm <;> cases negated <;> simp [hpresent, hkind, hbody, hnull]
  | none =>
    obtain ⟨hlossy, -⟩ := h.mined hbody
    have harm : Filter.eval engine row _ = _ := h.templateArm_eval hbody (hkept hbody) literal
    unfold bodyEquality
    generalize reduceOr _ = arm at harm ⊢
    cases arm with
    | none =>
      have hline : (render row.record template).1 ≠ literal := by simpa using harm
      cases negated <;> cases hasColumn schema .body <;> simp [hkind, hbody, hlossy, hline]
    | some arm =>
      rw [Option.getD_some] at harm
      by_cases hline : (render row.record template).1 = literal <;> cases negated <;>
        cases hasColumn schema .body <;> simp [hkind, hbody, hlossy, harm, hline]

/-- Neither comparison holds of a row without a string body. -/
theorem bodyEquality_verdict_ne (plan : BodyEqualityPlan) (literal : Text) (schema : Schema)
    (negated : Bool) (hkind : row.record.bodyKind ≠ .string) :
    (bodyEquality plan literal schema negated).verdict engine row ≠ some true := by
  have hnumber : BodyKind.number row.record.bodyKind ≠ 0 := by
    cases hcase : row.record.bodyKind <;> first | exact absurd hcase hkind | decide
  unfold bodyEquality
  generalize reduceOr _ = arm
  cases arm <;> cases negated <;> cases hasColumn schema .body <;> simp [hnumber]

end Arms

/-- A predicate keeps a row: it lowers, and its verdict holds. -/
def Keeps (lowering : Lowering) (predicate : Predicate) (row : Row) : Prop :=
  ∃ expr, compilePredicate lowering predicate = .ok expr ∧
    expr.verdict lowering.engine row = some true

theorem keeps_iff {lowering : Lowering} {predicate : Predicate} {row : Row} {expr : PredExpr}
    (h : compilePredicate lowering predicate = .ok expr) :
    Keeps lowering predicate row ↔ expr.verdict lowering.engine row = some true := by
  constructor
  · rintro ⟨lowered, hlowered, hverdict⟩
    rw [h] at hlowered
    cases hlowered
    exact hverdict
  · exact fun hverdict => ⟨expr, h, hverdict⟩

/-- `body ==` and `body !=`, resolved against the registry. -/
def bodyIs (literal : Text) : Predicate := .comparison .body (.ord .eq) (.str literal)

def bodyIsNot (literal : Text) : Predicate := .comparison .body (.ord .ne) (.str literal)

/-- A body comparison keeps the string rows whose rendered body compares so, with or without
a body column in the scan, and no other row. -/
theorem keeps_body_iff_rendered (lowering : Lowering) (registry : TemplateRegistry) (row : Row)
    (literal : Text)
    (hplan : lowering.bodyEqualities literal = bodyEqualityPlan registry literal)
    (hschema : hasColumn lowering.schema .body = false → row.record.body = none) :
    (∀ template, MinedRow registry template row.record →
      (row.record.body = none → row.record.anyOverflow = false) →
        (Keeps lowering (bodyIs literal) row ↔ (render row.record template).1 = literal) ∧
        (Keeps lowering (bodyIsNot literal) row ↔ (render row.record template).1 ≠ literal)) ∧
    (row.record.bodyKind ≠ .string →
      ¬ Keeps lowering (bodyIs literal) row ∧ ¬ Keeps lowering (bodyIsNot literal) row) := by
  have his : Keeps lowering (bodyIs literal) row ↔ _ := keeps_iff rfl
  have hnot : Keeps lowering (bodyIsNot literal) row ↔ _ := keeps_iff rfl
  rw [his, hnot, hplan]
  constructor
  · intro template hrow hkept
    rw [hrow.bodyEquality_verdict hkept hschema, hrow.bodyEquality_verdict hkept hschema]
    constructor
    · grind
    · grind
  · intro hkind
    exact ⟨bodyEquality_verdict_ne _ _ _ _ hkind, bodyEquality_verdict_ne _ _ _ _ hkind⟩

/-- A row mined from the line `a by b`, with the outer words as its params. -/
def wordRow (typeTag : ParamType) : Row :=
  { bareRow with record := { bareRow.record with
      params := [{ typeTag, value := "a".toList }, { typeTag, value := "b".toList }]
      separators := [[], [' '], [' '], []] } }

def wordTemplate : List OwnedToken := [.wildcard, .fixed "by".toList, .wildcard]

def wordRegistry : TemplateRegistry := (∅ : TemplateRegistry).insert (7, 1) wordTemplate

def wordLowering : Lowering := { wideLowering with bodyEqualities := bodyEqualityPlan wordRegistry }

theorem minedRow_wordRow (typeTag : ParamType) :
    MinedRow wordRegistry wordTemplate (wordRow typeTag).record where
  kind := rfl
  registered := rfl
  stored := nofun
  mined _ := by
    refine ⟨rfl, rfl, rfl, fun word hword => ?_, ?_, ?_⟩
    · have hwords : ∀ word ∈ ["by".toList, "a".toList, "b".toList],
          word ≠ [] ∧ ∀ c ∈ word, isWhitespace c = false ∧ c.toNat ≠ 0 := by
        simp [isWhitespace]
      exact hwords word (by simpa [wordRow, wordTemplate] using hword)
    · simp [wordRow, isWhitespace_space]
    · simp [wordRow]

theorem keeps_body_iff_rendered_word :
    Keeps wordLowering (bodyIs "a by b".toList) (wordRow .str) :=
  (((keeps_body_iff_rendered wordLowering wordRegistry (wordRow .str) "a by b".toList rfl nofun).1
    wordTemplate (minedRow_wordRow .str) fun _ => rfl).1).mpr rfl

/-- A param marked as overflowing keeps the row from being rendered from its template,
while the filter still compares it. -/
theorem overflow_kept_and_rendered_empty :
    MinedRow wordRegistry wordTemplate (wordRow .overflow).record ∧
      Keeps wordLowering (bodyIs "a by b".toList) (wordRow .overflow) ∧
      (render (wordRow .overflow).record wordTemplate).1 ≠ "a by b".toList := by
  refine ⟨minedRow_wordRow .overflow, ⟨_, rfl, ?_⟩, by decide⟩
  decide +kernel

end Ourios.Querier
