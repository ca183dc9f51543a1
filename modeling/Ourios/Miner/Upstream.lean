/-
# Upstream templates

A record may carry a `log.record.template` attribute. `upstream.rs` accepts one
grammar for it and aligns it with the body under the miner's own tokenizer: a
literal must equal its token and a wildcard captures its token. An aligned
template therefore produces the body, which is all that adoption relies on.
-/

import Ourios.Miner.Template

namespace Ourios.Miner

inductive UpstreamToken
  | literal (text : Text)
  | wildcard (name : Option Text)
  deriving DecidableEq, Repr

structure UpstreamTemplate where
  tokens : List UpstreamToken
  deriving DecidableEq, Repr

def UpstreamToken.toOwned : UpstreamToken → OwnedToken
  | .literal text => .fixed text
  | .wildcard _ => .wildcard

def UpstreamTemplate.toOwnedTokens (template : UpstreamTemplate) : List OwnedToken :=
  template.tokens.map UpstreamToken.toOwned

/-- Placeholder syntaxes the grammar refuses. -/
inductive PlaceholderKind
  | printf | messageTemplate | shellVar
  deriving DecidableEq, Repr

/-- Why a string is not an upstream template. -/
inductive GrammarError
  | empty
  | tokenize (error : TokenizeError)
  | embeddedWildcard (tokenIndex : Nat)
  | foreignPlaceholder (tokenIndex : Nat) (kind : PlaceholderKind)
  deriving DecidableEq, Repr

/-- The name inside `<name>`, where the token is a wildcard. -/
def wildcardName (token : Text) : Option Text :=
  match token with
  | '<' :: rest =>
    if rest.getLast? = some '>' then
      let inner := rest.dropLast
      if !inner.isEmpty && !inner.contains '<' && !inner.contains '>' then some inner else none
    else none
  | _ => none

def occursIn (needle : Text) : Text → Bool
  | [] => needle.isEmpty
  | c :: rest => needle.isPrefixOf (c :: rest) || occursIn needle rest

def isAsciiAlpha (c : Char) : Bool := ('a' ≤ c && c ≤ 'z') || ('A' ≤ c && c ≤ 'Z')

/-- A brace pair around a name, the rest of the token after the opening brace. -/
def isMessageHole (rest : Text) : Bool :=
  match rest.span (· != '}') with
  | (name, _ :: _) => name.all fun c => isAsciiAlpha c || c.isDigit || c == '_' || c == '.'
  | (_, []) => false

def foreignPlaceholder : Text → Option PlaceholderKind
  | [] => none
  | c :: rest =>
    if c == '%' && rest.head?.any isAsciiAlpha then some .printf
    else if c == '$' && rest.head?.any (fun n => isAsciiAlpha n || n == '_' || n == '{') then
      some .shellVar
    else if c == '{' && isMessageHole rest then some .messageTemplate
    else foreignPlaceholder rest

def upstreamToken (tokenIndex : Nat) (raw : Text) : Except GrammarError UpstreamToken :=
  match wildcardName raw with
  | some name => .ok (.wildcard (if name = ['*'] then none else some name))
  | none =>
    if occursIn wildcardText raw then .error (.embeddedWildcard tokenIndex)
    else
      match foreignPlaceholder raw with
      | some kind => .error (.foreignPlaceholder tokenIndex kind)
      | none => .ok (.literal raw)

/-- Read the tokens from an index on, stopping at the first error. -/
def upstreamTokens (tokenIndex : Nat) : List Text → Except GrammarError (List UpstreamToken)
  | [] => .ok []
  | raw :: rest =>
    match upstreamToken tokenIndex raw with
    | .error error => .error error
    | .ok token =>
      match upstreamTokens (tokenIndex + 1) rest with
      | .error error => .error error
      | .ok later => .ok (token :: later)

def parseUpstream (template : Text) : Except GrammarError UpstreamTemplate :=
  match tokenize template with
  | .error error => .error (.tokenize error)
  | .ok tokenized =>
    if tokenized.tokens.isEmpty then .error .empty
    else
      match upstreamTokens 0 tokenized.tokens with
      | .error error => .error error
      | .ok tokens => .ok ⟨tokens⟩

/-- One captured value. -/
structure AlignedParam where
  name : Option Text
  value : Text
  deriving DecidableEq, Repr

/-- The captured values and the body's separators. -/
structure Alignment where
  params : List AlignedParam
  separators : List Text
  deriving DecidableEq, Repr

/-- Why a template does not fit a body. -/
inductive AlignError
  | tokenize (error : TokenizeError)
  | tokenCountMismatch (templateTokens bodyTokens : Nat)
  | literalMismatch (tokenIndex : Nat)
  deriving DecidableEq, Repr

/-- Match template tokens with body tokens from an index on. -/
def alignTokens (tokenIndex : Nat) :
    List UpstreamToken → List Text → Except AlignError (List AlignedParam)
  | .literal text :: template, token :: tokens =>
    if text = token then alignTokens (tokenIndex + 1) template tokens
    else .error (.literalMismatch tokenIndex)
  | .wildcard name :: template, token :: tokens =>
    match alignTokens (tokenIndex + 1) template tokens with
    | .error error => .error error
    | .ok params => .ok (⟨name, token⟩ :: params)
  | _, _ => .ok []

def align (template : UpstreamTemplate) (body : Text) : Except AlignError Alignment :=
  match tokenize body with
  | .error error => .error (.tokenize error)
  | .ok tokenized =>
    if tokenized.tokens.length ≠ template.tokens.length then
      .error (.tokenCountMismatch template.tokens.length tokenized.tokens.length)
    else
      match alignTokens 0 template.tokens tokenized.tokens with
      | .error error => .error error
      | .ok params => .ok ⟨params, tokenized.separators⟩

variable {tokenIndex : Nat}

/-- An aligned template produces the body's tokens from the captured values. -/
theorem fills_of_alignTokens {template : List UpstreamToken} {tokens : List Text}
    {params : List AlignedParam} (hlen : tokens.length = template.length)
    (h : alignTokens tokenIndex template tokens = .ok params) :
    Fills (template.map UpstreamToken.toOwned) (params.map AlignedParam.value) tokens := by
  induction template generalizing tokenIndex tokens params with
  | nil =>
    obtain rfl := List.eq_nil_of_length_eq_zero hlen
    cases h
    exact .nil
  | cons first template ih =>
    obtain ⟨token, tokens, rfl⟩ := List.exists_cons_of_length_eq_add_one hlen
    have hlater : tokens.length = template.length := by simpa using hlen
    cases first with
    | literal text =>
      simp only [alignTokens] at h
      split at h
      · rename_i heq
        subst heq
        exact .fixed text (ih hlater h)
      · cases h
    | wildcard name =>
      simp only [alignTokens] at h
      split at h
      · cases h
      · rename_i later hlaterParams
        cases h
        exact .wildcard token (ih hlater hlaterParams)

/-- What a successful alignment gives. -/
theorem align_ok {template : UpstreamTemplate} {body : Text} {alignment : Alignment}
    (h : align template body = .ok alignment) :
    ∃ tokenized, tokenize body = .ok tokenized ∧ alignment.separators = tokenized.separators ∧
      Fills template.toOwnedTokens (alignment.params.map AlignedParam.value)
        tokenized.tokens := by
  unfold align at h
  split at h
  · cases h
  · rename_i tokenized htokenize
    split at h
    · cases h
    · rename_i hlen
      split at h
      · cases h
      · rename_i params hparams
        cases h
        exact ⟨tokenized, htokenize, rfl, fills_of_alignTokens (not_not.mp hlen) hparams⟩

theorem occursIn_self (text : Text) : occursIn text text = true := by
  cases text with
  | nil => rfl
  | cons c rest => simp [occursIn]

/-- The grammar keeps the wildcard text out of literals. -/
theorem canonical_of_upstreamToken {raw : Text} {token : UpstreamToken}
    (hword : raw ≠ [] ∧ ∀ c ∈ raw, isWhitespace c = false)
    (h : upstreamToken tokenIndex raw = .ok token) : token.toOwned.Canonical := by
  unfold upstreamToken at h
  split at h
  · cases h
    trivial
  · split at h
    · cases h
    · rename_i hembedded
      split at h
      · cases h
      · cases h
        refine ⟨hword.1, ?_, ?_⟩
        · intro hmem
          have hspace := hword.2 ' ' hmem
          rw [isWhitespace_space] at hspace
          cases hspace
        · rintro rfl
          exact hembedded (occursIn_self wildcardText)

theorem canonical_of_upstreamTokens {raws : List Text} {tokens : List UpstreamToken}
    (hwords : ∀ raw ∈ raws, raw ≠ [] ∧ ∀ c ∈ raw, isWhitespace c = false)
    (h : upstreamTokens tokenIndex raws = .ok tokens) :
    tokens.length = raws.length ∧ ∀ token ∈ tokens, token.toOwned.Canonical := by
  induction raws generalizing tokenIndex tokens with
  | nil =>
    cases h
    simp
  | cons raw raws ih =>
    simp only [upstreamTokens] at h
    split at h
    · cases h
    · rename_i token htoken
      split at h
      · cases h
      · rename_i later hlater
        cases h
        obtain ⟨hlen, hlaterCanonical⟩ := ih (fun r hr => hwords r (by simp [hr])) hlater
        refine ⟨by simp [hlen], ?_⟩
        intro t ht
        rcases List.mem_cons.mp ht with rfl | ht
        · exact canonical_of_upstreamToken (hwords raw (by simp)) htoken
        · exact hlaterCanonical t ht

/-- An accepted upstream template survives its canonical text. -/
theorem parseUpstream_ok {raw : Text} {template : UpstreamTemplate}
    (h : parseUpstream raw = .ok template) :
    template.toOwnedTokens ≠ [] ∧ ∀ token ∈ template.toOwnedTokens, token.Canonical := by
  unfold parseUpstream at h
  split at h
  · cases h
  · rename_i tokenized htokenize
    split at h
    · cases h
    · rename_i hne
      split at h
      · cases h
      · rename_i tokens htokens
        cases h
        obtain ⟨hlen, hcanonical⟩ :=
          canonical_of_upstreamTokens (tokenize_ok htokenize).2.2 htokens
        constructor
        · simp only [UpstreamTemplate.toOwnedTokens, ne_eq, List.map_eq_nil_iff]
          rintro rfl
          apply hne
          simpa using hlen.symm
        · intro token hmem
          obtain ⟨source, hsource, rfl⟩ := List.mem_map.mp hmem
          exact hcanonical source hsource

end Ourios.Miner
