/-
# Templates and reconstruction

A template is a list of fixed tokens and wildcards. The miner writes it to the
audit stream as text, with `<*>` for a wildcard, and the reader parses it back;
`reconstruct` and `render` then interleave a row's separators and parameters
with it.

`Fills` is the meaning of a template: the lines it can produce, one value per
wildcard. A row whose values fill its template with the tokens of a line is
rendered as exactly that line.
-/

import Ourios.Core.Record
import Ourios.Miner.Tokenize

namespace Ourios.Miner

/-- One token of a stored template. -/
inductive OwnedToken
  | fixed (text : Text)
  | wildcard
  deriving DecidableEq, Repr

def OwnedToken.isWildcard : OwnedToken → Bool
  | .wildcard => true
  | .fixed _ => false

/-- How many parameters a template takes. -/
def wildcardCount (template : List OwnedToken) : Nat := template.countP OwnedToken.isWildcard

@[simp] theorem wildcardCount_nil : wildcardCount [] = 0 := rfl

@[simp] theorem wildcardCount_fixed (text : Text) (template : List OwnedToken) :
    wildcardCount (.fixed text :: template) = wildcardCount template := by
  simp [wildcardCount, OwnedToken.isWildcard]

@[simp] theorem wildcardCount_wildcard (template : List OwnedToken) :
    wildcardCount (.wildcard :: template) = wildcardCount template + 1 :=
  List.countP_cons_of_pos rfl

/-- The text of a wildcard, both in canonical templates and as a tree key. -/
def wildcardText : Text := "<*>".toList

def OwnedToken.text : OwnedToken → Text
  | .fixed text => text
  | .wildcard => wildcardText

/-- The canonical text of a template: its tokens joined by one space. -/
def formatTemplate (template : List OwnedToken) : Text :=
  [' '].intercalate (template.map OwnedToken.text)

/-- Read one token of a canonical template. -/
def OwnedToken.ofText (text : Text) : OwnedToken :=
  if text = wildcardText then .wildcard else .fixed text

def parseTemplate (canonical : Text) : List OwnedToken :=
  if canonical.isEmpty then [] else (canonical.splitOn ' ').map OwnedToken.ofText

/-- The tokens a canonical text can carry back: nonempty, without a space, and
not spelled like a wildcard. -/
def OwnedToken.Canonical : OwnedToken → Prop
  | .wildcard => True
  | .fixed text => text ≠ [] ∧ ' ' ∉ text ∧ text ≠ wildcardText

variable {token : OwnedToken} {template : List OwnedToken} {tokens : List Text}

theorem OwnedToken.ofText_text (h : token.Canonical) :
    OwnedToken.ofText token.text = token := by
  cases token with
  | wildcard => simp [OwnedToken.ofText, OwnedToken.text]
  | fixed text => simp [OwnedToken.ofText, OwnedToken.text, h.2.2]

theorem OwnedToken.text_ne_nil (h : token.Canonical) : token.text ≠ [] := by
  cases token with
  | wildcard => decide
  | fixed text => exact h.1

theorem OwnedToken.space_not_mem_text (h : token.Canonical) :
    ' ' ∉ token.text := by
  cases token with
  | wildcard => decide
  | fixed text => exact h.2.1

/-- Splitting the canonical text at spaces gives the tokens' texts back. -/
theorem splitOn_formatTemplate (hne : template ≠ [])
    (hspace : ∀ token ∈ template, ' ' ∉ token.text) :
    (formatTemplate template).splitOn ' ' = template.map OwnedToken.text := by
  refine List.splitOn_intercalate ' ' ?_ (by simpa using hne)
  intro word hword
  obtain ⟨token, hmem, rfl⟩ := List.mem_map.mp hword
  exact hspace token hmem

/-- Parsing the canonical text gives the template back, as long as no fixed
token is empty, holds a space or is spelled like a wildcard. -/
theorem parseTemplate_formatTemplate (hne : template ≠ [])
    (hcanonical : ∀ token ∈ template, token.Canonical) :
    parseTemplate (formatTemplate template) = template := by
  have hwords := splitOn_formatTemplate hne fun token hmem =>
    OwnedToken.space_not_mem_text (hcanonical token hmem)
  have hnonempty : formatTemplate template ≠ [] := by
    intro hnil
    rw [hnil, List.splitOn_nil] at hwords
    obtain ⟨token, rest, rfl⟩ := List.exists_cons_of_ne_nil hne
    simp only [List.map_cons, List.cons.injEq] at hwords
    exact OwnedToken.text_ne_nil (hcanonical token (by simp)) hwords.1.symm
  unfold parseTemplate
  rw [if_neg (by simpa using hnonempty), hwords, List.map_map]
  conv_rhs => rw [← List.map_id template]
  exact List.map_congr_left fun token hmem => OwnedToken.ofText_text (hcanonical token hmem)

/-- A line produced from a template: fixed tokens stand for themselves and each
wildcard takes the next value. -/
inductive Fills : List OwnedToken → List Text → List Text → Prop
  | nil : Fills [] [] []
  | fixed {template values tokens} (text : Text) (rest : Fills template values tokens) :
      Fills (.fixed text :: template) values (text :: tokens)
  | wildcard {template values tokens} (value : Text) (rest : Fills template values tokens) :
      Fills (.wildcard :: template) (value :: values) (value :: tokens)

theorem Fills.length_values {values : List Text} (h : Fills template values tokens) :
    values.length = wildcardCount template := by
  induction h with
  | nil => rfl
  | fixed text rest ih | wildcard value rest ih => simpa using ih

theorem Fills.length_tokens {values : List Text} (h : Fills template values tokens) :
    tokens.length = template.length := by
  induction h with
  | nil => rfl
  | fixed text rest ih => simpa using ih
  | wildcard value rest ih => simpa using ih

/-- The body column, or nothing. -/
def bodyBytesOrEmpty (record : MinedRecord) : Text := record.body.getD []

/-- The capture invariants a row must satisfy before its template is walked. -/
def templateShapeMatchesRecord (record : MinedRecord) (template : List OwnedToken) : Bool :=
  record.separators.length == template.length + 1 &&
    record.params.length == wildcardCount template

/-- Walk the template, taking a parameter at each wildcard and the next separator
after each token. A missing parameter or separator panics in the source; the
shape check rules it out. -/
def walkTemplate : List OwnedToken → List Param → List Text → Text
  | .fixed text :: template, params, separator :: separators =>
    text ++ separator ++ walkTemplate template params separators
  | .wildcard :: template, param :: params, separator :: separators =>
    param.value ++ separator ++ walkTemplate template params separators
  | _, _, _ => []

/-- The bytes rebuilt from template, parameters and separators. -/
def reconstructFromTemplate (record : MinedRecord) (template : List OwnedToken) : Text :=
  record.separators.headD [] ++ walkTemplate template record.params record.separators.tail

/-- Rebuild a row's line, falling back to the retained body. -/
def reconstruct (record : MinedRecord) (template : List OwnedToken) : Text :=
  match record.bodyKind with
  | .absent => []
  | .structured => bodyBytesOrEmpty record
  | .string =>
    if record.lossyFlag || record.anyOverflow || !templateShapeMatchesRecord record template then
      bodyBytesOrEmpty record
    else reconstructFromTemplate record template

/-- The per-row signal beside rendered bytes. -/
inductive Reconstruction
  | faithful | retainedVerbatim
  deriving DecidableEq, Repr

/-- Render a stored row for a reader. -/
def render (record : MinedRecord) (template : List OwnedToken) : Text × Reconstruction :=
  match record.bodyKind with
  | .structured =>
    match record.body with
    | some body => (body, .faithful)
    | none => ([], .retainedVerbatim)
  | .absent => ([], .retainedVerbatim)
  | .string =>
    if !record.lossyFlag && !record.anyOverflow && templateShapeMatchesRecord record template then
      (reconstructFromTemplate record template, .faithful)
    else (bodyBytesOrEmpty record, .retainedVerbatim)

/-- Walking a filled template lays the line's tokens out between the separators. -/
theorem Fills.walkTemplate_eq {params : List Param}
    (h : Fills template (params.map Param.value) tokens) (first : Text) {separators : List Text}
    (hlen : separators.length = tokens.length) :
    first ++ walkTemplate template params separators = weave (first :: separators) tokens := by
  generalize hvalues : params.map Param.value = values at h
  induction h generalizing first params separators with
  | nil =>
    obtain rfl := List.eq_nil_of_length_eq_zero hlen
    simp [walkTemplate, weave]
  | fixed text rest ih =>
    obtain ⟨separator, separators, rfl⟩ := List.exists_cons_of_length_eq_add_one hlen
    have later := ih separator (by simpa using hlen) hvalues
    simp only [walkTemplate, weave, List.append_assoc, later]
  | wildcard value rest ih =>
    obtain ⟨separator, separators, rfl⟩ := List.exists_cons_of_length_eq_add_one hlen
    obtain ⟨param, params, rfl⟩ := List.exists_cons_of_ne_nil
      (show params ≠ [] by rintro rfl; simp at hvalues)
    obtain ⟨hvalue, hvalues⟩ : param.value = value ∧ params.map Param.value = _ := by
      simpa using hvalues
    have later := ih separator (by simpa using hlen) hvalues
    simp only [walkTemplate, weave, List.append_assoc, later, hvalue]

/-- A row captured from a line: its separators and tokens weave to the line, and
its parameter values fill the template with those tokens. -/
structure Captures (record : MinedRecord) (template : List OwnedToken) (line : Text) : Prop where
  tokens : ∃ tokens, weave record.separators tokens = line ∧
    record.separators.length = tokens.length + 1 ∧
    Fills template (record.params.map Param.value) tokens

namespace Captures

variable {record : MinedRecord} {template : List OwnedToken} {line : Text}

variable (h : Captures record template line)
include h

/-- A captured row passes the reader's shape check. -/
theorem shape : templateShapeMatchesRecord record template = true := by
  obtain ⟨tokens, -, hseps, hfills⟩ := h.tokens
  have hparams := hfills.length_values
  have htokens := hfills.length_tokens
  simp only [List.length_map] at hparams
  simp [templateShapeMatchesRecord, hseps, htokens, hparams]

/-- Rebuilding a captured row gives the line back. -/
theorem reconstructFromTemplate_eq : reconstructFromTemplate record template = line := by
  obtain ⟨tokens, hline, hseps, hfills⟩ := h.tokens
  obtain ⟨first, separators, hcons⟩ := List.exists_cons_of_length_eq_add_one hseps
  rw [hcons] at hline hseps
  rw [← hline]
  simp only [reconstructFromTemplate, hcons, List.headD_cons, List.tail_cons]
  exact hfills.walkTemplate_eq first (by simpa using hseps)

theorem reconstruct_eq (hkind : record.bodyKind = .string)
    (hlossy : record.lossyFlag = false) (hoverflow : record.anyOverflow = false) :
    reconstruct record template = line := by
  simp [reconstruct, hkind, hlossy, hoverflow, h.shape, h.reconstructFromTemplate_eq]

theorem render_eq (hkind : record.bodyKind = .string)
    (hlossy : record.lossyFlag = false) (hoverflow : record.anyOverflow = false) :
    render record template = (line, .faithful) := by
  simp [render, hkind, hlossy, hoverflow, h.shape, h.reconstructFromTemplate_eq]

end Captures

end Ourios.Miner
