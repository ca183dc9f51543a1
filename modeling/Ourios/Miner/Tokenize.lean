/-
# Lines, tokens and separators

The tokenizer is the single left-to-right pass of `tokenize.rs`: it keeps the
slice it is currently inside and closes it at every whitespace boundary. Its
output is lossless, which is what every later reconstruction rests on.
-/

import Ourios.Core.Text

namespace Ourios.Miner

/-- Unicode `White_Space`, as `char::is_whitespace` decides it. Irreducible, since
unfolding the code-point comparisons on a symbolic character is never useful. -/
@[irreducible]
def isWhitespace (c : Char) : Bool :=
  (0x09 ≤ c.toNat && c.toNat ≤ 0x0D) || c.toNat == 0x20 || c.toNat == 0x85 ||
    c.toNat == 0xA0 || c.toNat == 0x1680 || (0x2000 ≤ c.toNat && c.toNat ≤ 0x200A) ||
    c.toNat == 0x2028 || c.toNat == 0x2029 || c.toNat == 0x202F || c.toNat == 0x205F ||
    c.toNat == 0x3000

theorem isWhitespace_space : isWhitespace ' ' = true := by
  decide +kernel

/-- Tokens and the separators around them. -/
structure Tokenized where
  tokens : List Text
  separators : List Text
  deriving DecidableEq, Repr

/-- The one failure of the tokenizer: the byte offset of the first NUL. -/
inductive TokenizeError
  | embeddedNul (offset : Nat)
  deriving DecidableEq, Repr

/-- The scan over the rest of the line. `pending` is the slice being read: the
open token when `inToken` holds, the open separator otherwise. -/
def scan (inToken : Bool) (pending : Text) : Text → Tokenized
  | [] =>
    if inToken then ⟨[pending], [[]]⟩ else ⟨[], [pending]⟩
  | c :: rest =>
    match inToken, isWhitespace c with
    | false, false =>
      let found := scan true [c] rest
      { found with separators := pending :: found.separators }
    | true, true =>
      let found := scan false [c] rest
      { found with tokens := pending :: found.tokens }
    | _, _ => scan inToken (pending ++ [c]) rest

/-- Byte offset of the first NUL. In UTF-8 a zero byte is always the character
U+0000, so the search can run over characters. -/
def nulOffset : Text → Option Nat
  | [] => none
  | c :: rest => if c.toNat = 0 then some 0 else (nulOffset rest).map (c.utf8Size + ·)

/-- Split a line into tokens and separators, or refuse an embedded NUL. -/
def tokenize (line : Text) : Except TokenizeError Tokenized :=
  match nulOffset line with
  | some offset => .error (.embeddedNul offset)
  | none => .ok (scan false [] line)

/-- Lay separators and tokens out in line order. -/
def weave : List Text → List Text → Text
  | separator :: separators, token :: tokens => separator ++ token ++ weave separators tokens
  | separators, _ => separators.flatten

section Scan

variable {c : Char} (pending rest : Text)

theorem scan_open_token (hc : isWhitespace c = false) :
    scan false pending (c :: rest) =
      { tokens := (scan true [c] rest).tokens,
        separators := pending :: (scan true [c] rest).separators } := by
  simp [scan, hc]

theorem scan_close_token (hc : isWhitespace c = true) :
    scan true pending (c :: rest) =
      { tokens := pending :: (scan false [c] rest).tokens,
        separators := (scan false [c] rest).separators } := by
  simp [scan, hc]

/-- A character of the kind being read only extends the pending slice. -/
theorem scan_extend {inToken : Bool} (hc : isWhitespace c = !inToken) :
    scan inToken pending (c :: rest) = scan inToken (pending ++ [c]) rest := by
  cases inToken <;> simp_all [scan]

/-- A run of the kind being read only extends the pending slice. -/
theorem scan_append (inToken : Bool) {run : Text} (hrun : ∀ c ∈ run, isWhitespace c = !inToken) :
    scan inToken pending (run ++ rest) = scan inToken (pending ++ run) rest := by
  induction run generalizing pending with
  | nil => simp
  | cons c run ih =>
    obtain ⟨hc, hlater⟩ := List.forall_mem_cons.mp hrun
    rw [List.cons_append, scan_extend pending _ hc, ih (pending ++ [c]) hlater]
    simp

end Scan

/-! ## The decomposition of a line -/

/-- Words, and whitespace around them: one separator more than words, and none of those
between two words empty. -/
structure Tokenized.WellFormed (parts : Tokenized) : Prop where
  tokens : ∀ token ∈ parts.tokens, token ≠ [] ∧ ∀ c ∈ token, isWhitespace c = false
  separators : ∀ separator ∈ parts.separators, ∀ c ∈ separator, isWhitespace c = true
  length : parts.separators.length = parts.tokens.length + 1
  inner : ∀ separator ∈ parts.separators.tail.dropLast, separator ≠ []

/-- Every line can be laid out in words and separators. -/
theorem exists_wellFormed (line : Text) : ∃ first separators tokens,
    (Tokenized.mk tokens (first :: separators)).WellFormed ∧
      weave (first :: separators) tokens = line := by
  induction line with
  | nil => exact ⟨[], [], [], ⟨by simp, by simp, rfl, by simp⟩, rfl⟩
  | cons c rest ih =>
    obtain ⟨first, separators, tokens, ⟨hwords, hblank, hlen, hinner⟩, rfl⟩ := ih
    cases hc : isWhitespace c with
    | true =>
      obtain ⟨hfirst, hothers⟩ := List.forall_mem_cons.mp hblank
      have hgrown : ∀ d ∈ c :: first, isWhitespace d = true :=
        List.forall_mem_cons.mpr ⟨hc, hfirst⟩
      exact ⟨c :: first, separators, tokens,
        ⟨hwords, List.forall_mem_cons.mpr ⟨hgrown, hothers⟩, hlen, hinner⟩,
        by cases tokens <;> simp [weave]⟩
    | false =>
      by_cases hopen : first = [] ∧ tokens ≠ []
      · -- the character starts the first word
        obtain ⟨rfl, hne⟩ := hopen
        obtain ⟨token, tokens, rfl⟩ := List.exists_cons_of_ne_nil hne
        obtain ⟨⟨-, hletters⟩, hothers⟩ := List.forall_mem_cons.mp hwords
        have hgrown : ∀ d ∈ c :: token, isWhitespace d = false :=
          List.forall_mem_cons.mpr ⟨hc, hletters⟩
        exact ⟨[], separators, (c :: token) :: tokens,
          ⟨List.forall_mem_cons.mpr ⟨⟨by simp, hgrown⟩, hothers⟩, hblank, hlen, hinner⟩, rfl⟩
      · -- the character is a word of its own, and what was the first separator follows it
        refine ⟨[], first :: separators, [c] :: tokens,
          ⟨List.forall_mem_cons.mpr ⟨⟨by simp, by simpa using hc⟩, hwords⟩,
            List.forall_mem_cons.mpr ⟨by simp, hblank⟩, ?_, ?_⟩, rfl⟩
        · simpa using hlen
        · cases separators with
          | nil => simp
          | cons second separators =>
            have hfirst : first ≠ [] := by
              rintro rfl
              exact hopen ⟨rfl, fun hnil => by simp [hnil] at hlen⟩
            exact List.forall_mem_cons.mpr ⟨hfirst, hinner⟩

/-- The scan finds the words and separators a line is laid out in. -/
theorem Tokenized.WellFormed.scan_weave {tokens separators : List Text} {first : Text}
    (h : (Tokenized.mk tokens (first :: separators)).WellFormed) (pending : Text) :
    scan false pending (weave (first :: separators) tokens) =
      ⟨tokens, (pending ++ first) :: separators⟩ := by
  induction tokens generalizing first separators pending with
  | nil =>
    obtain rfl : separators = [] := by simpa using h.length
    have hscan := scan_append pending [] false (h.separators first List.mem_cons_self)
    simpa [weave, scan] using hscan
  | cons token tokens ih =>
    obtain ⟨hne, hword⟩ := h.tokens token List.mem_cons_self
    obtain ⟨c, letters, rfl⟩ := List.exists_cons_of_ne_nil hne
    obtain ⟨hc, hletters⟩ := List.forall_mem_cons.mp hword
    obtain ⟨next, separators, rfl⟩ := List.exists_cons_of_length_eq_add_one (l := separators)
      (by simpa using h.length)
    have hblank := List.forall_mem_cons.mp (List.forall_mem_cons.mp h.separators).2
    rw [weave, List.append_assoc, scan_append _ _ false
      (h.separators first List.mem_cons_self), List.cons_append, scan_open_token _ _ hc,
      scan_append _ _ true hletters]
    cases next with
    | nil =>
      -- only the last separator can be empty
      have hlast : separators = [] := by
        by_contra hmore
        exact h.inner [] (by simp [List.dropLast_cons_of_ne_nil hmore]) rfl
      subst hlast
      obtain rfl : tokens = [] := by simpa using h.length
      simp [weave, scan]
    | cons space spaces =>
      obtain ⟨hspace, hspaces⟩ := List.forall_mem_cons.mp hblank.1
      have hlater : (Tokenized.mk tokens (spaces :: separators)).WellFormed := by
        refine ⟨fun other hother => h.tokens other (List.mem_cons_of_mem _ hother),
          List.forall_mem_cons.mpr ⟨hspaces, hblank.2⟩, by simpa using h.length, ?_⟩
        intro other hother
        refine h.inner other ?_
        cases separators with
        | nil => cases hother
        | cons third separators => exact List.mem_cons_of_mem _ hother
      have hcons : weave ((space :: spaces) :: separators) tokens =
          space :: weave (spaces :: separators) tokens := by
        cases tokens <;> simp [weave]
      rw [hcons, scan_close_token _ _ hspace, ih hlater]
      rfl

/-- A line laid out in words and separators is scanned into them. -/
theorem Tokenized.WellFormed.scan_eq {parts : Tokenized} (h : parts.WellFormed) :
    scan false [] (weave parts.separators parts.tokens) = parts := by
  obtain ⟨tokens, separators⟩ := parts
  obtain ⟨first, separators, rfl⟩ := List.exists_cons_of_length_eq_add_one h.length
  exact h.scan_weave []

theorem wellFormed_scan (line : Text) : (scan false [] line).WellFormed ∧
    weave (scan false [] line).separators (scan false [] line).tokens = line := by
  obtain ⟨first, separators, tokens, h, rfl⟩ := exists_wellFormed line
  rw [h.scan_eq]
  exact ⟨h, rfl⟩

/-- What an accepted line gives: one separator more than tokens, tokens that are
words, and the line back when the two lists are woven together. -/
theorem tokenize_ok {line : Text} {result : Tokenized} (h : tokenize line = .ok result) :
    result.separators.length = result.tokens.length + 1 ∧
      weave result.separators result.tokens = line ∧
      ∀ token ∈ result.tokens, token ≠ [] ∧ ∀ c ∈ token, isWhitespace c = false := by
  unfold tokenize at h
  split at h
  · cases h
  · cases h
    obtain ⟨hparts, hweave⟩ := wellFormed_scan line
    exact ⟨hparts.length, hweave, hparts.tokens⟩

theorem nulOffset_eq_none {line : Text} (h : ∀ c ∈ line, c.toNat ≠ 0) : nulOffset line = none := by
  induction line with
  | nil => rfl
  | cons c rest ih =>
    obtain ⟨hc, hlater⟩ := List.forall_mem_cons.mp h
    rw [nulOffset, if_neg hc, ih hlater, Option.map_none]

/-- A line without NUL is tokenized into the one layout it has. -/
theorem tokenize_unique_layout {line : Text} (hnul : ∀ c ∈ line, c.toNat ≠ 0) :
    ∃ parts, tokenize line = .ok parts ∧ parts.WellFormed ∧
      weave parts.separators parts.tokens = line ∧
      ∀ other : Tokenized, other.WellFormed → weave other.separators other.tokens = line →
        other = parts := by
  obtain ⟨hparts, hweave⟩ := wellFormed_scan line
  refine ⟨scan false [] line, by rw [tokenize, nulOffset_eq_none hnul], hparts, hweave, ?_⟩
  rintro other hother rfl
  exact hother.scan_eq.symm

/-- A line with whitespace at both ends. -/
theorem tokenize_unique_layout_padded : ∃ parts, tokenize " GET  /a\n".toList = .ok parts ∧
    weave parts.separators parts.tokens = " GET  /a\n".toList := by
  obtain ⟨parts, hparts, -, hweave, -⟩ :=
    tokenize_unique_layout (show ∀ c ∈ " GET  /a\n".toList, c.toNat ≠ 0 by simp)
  exact ⟨parts, hparts, hweave⟩

end Ourios.Miner
