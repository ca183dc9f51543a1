/-
# Escaped text

Two escapings that keep a piece of text recognisable inside a larger one: the
string literals of JSON, as `serde_json` writes them, and the patterns of the SQL
`LIKE` operator. A JSON literal determines the text it quotes. An escaped `LIKE`
pattern between two wildcards matches exactly the texts that contain the escaped
piece.
-/

import Mathlib.Data.List.Infix
import Mathlib.Data.Nat.Digits.Defs
import Mathlib.Tactic.IntervalCases

namespace Ourios.Foundation

/-! ## JSON string literals -/

/-- One character inside a JSON string literal: the quote, the backslash and the
control characters are escaped, the five with a short form by it. -/
def jsonEscape (c : Char) : List Char :=
  if c = '"' then ['\\', '"']
  else if c = '\\' then ['\\', '\\']
  else if c.toNat = 8 then ['\\', 'b']
  else if c.toNat = 9 then ['\\', 't']
  else if c.toNat = 10 then ['\\', 'n']
  else if c.toNat = 12 then ['\\', 'f']
  else if c.toNat = 13 then ['\\', 'r']
  else if c.toNat < 32 then
    ['\\', 'u', '0', '0', Nat.digitChar (c.toNat / 16), Nat.digitChar (c.toNat % 16)]
  else [c]

/-- A JSON string literal. -/
def jsonQuote (text : List Char) : List Char := '"' :: text.flatMap jsonEscape ++ ['"']

/-- The value of a lower-case hexadecimal digit. -/
def hexValue (c : Char) : Nat := if c.toNat < 58 then c.toNat - 48 else c.toNat - 87

theorem hexValue_digitChar {n : Nat} (h : n < 16) : hexValue (Nat.digitChar n) = n := by
  interval_cases n <;> rfl

/-- Read one character of a literal back; a closing quote is not a character. -/
def jsonUnescape : List Char → Option (Char × List Char)
  | '\\' :: 'b' :: rest => some (Char.ofNat 8, rest)
  | '\\' :: 't' :: rest => some (Char.ofNat 9, rest)
  | '\\' :: 'n' :: rest => some (Char.ofNat 10, rest)
  | '\\' :: 'f' :: rest => some (Char.ofNat 12, rest)
  | '\\' :: 'r' :: rest => some (Char.ofNat 13, rest)
  | '\\' :: 'u' :: '0' :: '0' :: high :: low :: rest =>
    some (Char.ofNat (16 * hexValue high + hexValue low), rest)
  | '\\' :: c :: rest => some (c, rest)
  | '"' :: _ => none
  | c :: rest => some (c, rest)
  | [] => none

theorem Char.eq_of_toNat_eq {c : Char} {n : Nat} (h : c.toNat = n) : c = Char.ofNat n := by
  rw [← h, Char.ofNat_toNat]

theorem jsonUnescape_jsonEscape (c : Char) (rest : List Char) :
    jsonUnescape (jsonEscape c ++ rest) = some (c, rest) := by
  unfold jsonEscape
  split_ifs with hquote hback hb ht hn hf hr hcontrol
  · rw [hquote]; rfl
  · rw [hback]; rfl
  · rw [Char.eq_of_toNat_eq hb]; rfl
  · rw [Char.eq_of_toNat_eq ht]; rfl
  · rw [Char.eq_of_toNat_eq hn]; rfl
  · rw [Char.eq_of_toNat_eq hf]; rfl
  · rw [Char.eq_of_toNat_eq hr]; rfl
  · change some (Char.ofNat (16 * hexValue _ + hexValue _), rest) = _
    rw [hexValue_digitChar (by omega), hexValue_digitChar (by omega), Nat.div_add_mod,
      Char.ofNat_toNat]
  · -- Neither of the two characters the reader treats specially.
    unfold jsonUnescape
    split <;> simp_all

/-- A literal determines the text it quotes, and so where it ends. -/
theorem jsonEscape_injective : ∀ {text other rest rest' : List Char},
    text.flatMap jsonEscape ++ '"' :: rest = other.flatMap jsonEscape ++ '"' :: rest' →
      text = other := by
  intro text
  induction text with
  | nil =>
    intro other rest rest' h
    cases other with
    | nil => rfl
    | cons d other =>
      have hread := congrArg jsonUnescape h
      rw [List.flatMap_cons, List.append_assoc, jsonUnescape_jsonEscape] at hread
      cases hread
  | cons c text ih =>
    intro other rest rest' h
    have hread := congrArg jsonUnescape h
    rw [List.flatMap_cons, List.append_assoc, jsonUnescape_jsonEscape] at hread
    cases other with
    | nil => cases hread
    | cons d other =>
      rw [List.flatMap_cons, List.append_assoc, jsonUnescape_jsonEscape] at hread
      simp only [Option.some.injEq, Prod.mk.injEq] at hread
      rw [hread.1, ih hread.2]

theorem jsonQuote_injective : Function.Injective jsonQuote := by
  intro text other h
  have htail := List.cons_injective h
  exact jsonEscape_injective htail

/-! ## `LIKE` patterns -/

/-- The SQL `LIKE` operator: `%` is any text, `_` any one character, and a
backslash takes the next character as itself. -/
def like : List Char → List Char → Bool
  | [], text => text.isEmpty
  | '%' :: pattern, text => text.tails.any (like pattern)
  | '_' :: pattern, text => match text with
      | [] => false
      | _ :: text => like pattern text
  | '\\' :: c :: pattern, text => match text with
      | [] => false
      | d :: text => c == d && like pattern text
  | c :: pattern, text => match text with
      | [] => false
      | d :: text => c == d && like pattern text

/-- Escape the wildcards of a pattern. -/
def likeEscape (text : List Char) : List Char :=
  text.flatMap fun c => if c = '%' ∨ c = '_' ∨ c = '\\' then ['\\', c] else [c]

theorem like_escaped_nil_cons (c : Char) (rest : List Char) :
    like (likeEscape [c] ++ rest) [] = false := by
  unfold likeEscape
  by_cases h : c = '%' ∨ c = '_' ∨ c = '\\'
  · simp [h, like]
  · push Not at h
    unfold like
    split <;> simp_all

theorem like_escaped_cons (c d : Char) (rest text : List Char) :
    like (likeEscape [c] ++ rest) (d :: text) = (c == d && like rest text) := by
  unfold likeEscape
  by_cases h : c = '%' ∨ c = '_' ∨ c = '\\'
  · simp [h, like]
  · push Not at h
    conv_lhs => unfold like
    split <;> simp_all

theorem likeEscape_cons (c : Char) (text : List Char) :
    likeEscape (c :: text) = likeEscape [c] ++ likeEscape text := by
  simp [likeEscape]

/-- An escaped piece matches itself and hands the rest of the text on. -/
theorem like_likeEscape (piece rest text : List Char) :
    like (likeEscape piece ++ rest) text = true ↔
      ∃ tail, text = piece ++ tail ∧ like rest tail = true := by
  induction piece generalizing text with
  | nil => simp [likeEscape]
  | cons c piece ih =>
    rw [likeEscape_cons, List.append_assoc]
    cases text with
    | nil => simp [like_escaped_nil_cons]
    | cons d text =>
      rw [like_escaped_cons, Bool.and_eq_true, ih, beq_iff_eq]
      constructor
      · rintro ⟨rfl, tail, rfl, hrest⟩
        exact ⟨tail, rfl, hrest⟩
      · rintro ⟨tail, htext, hrest⟩
        simp only [List.cons_append, List.cons.injEq] at htext
        exact ⟨htext.1.symm, tail, htext.2, hrest⟩

/-- The texts an escaped piece between two wildcards matches. -/
theorem like_contains_iff (piece text : List Char) :
    like ('%' :: likeEscape piece ++ ['%']) text = true ↔ piece <:+: text := by
  have hany : ∀ tail : List Char, like ['%'] tail = true := by
    intro tail
    simp only [like, List.any_eq_true, List.mem_tails]
    exact ⟨[], List.nil_suffix, rfl⟩
  rw [List.cons_append]
  conv_lhs => unfold like
  simp only [List.any_eq_true, List.mem_tails]
  constructor
  · rintro ⟨suffix, ⟨before, rfl⟩, hmatch⟩
    obtain ⟨tail, rfl, -⟩ := (like_likeEscape piece ['%'] suffix).mp hmatch
    exact ⟨before, tail, by rw [List.append_assoc]⟩
  · rintro ⟨before, tail, rfl⟩
    refine ⟨piece ++ tail, ⟨before, by rw [List.append_assoc]⟩, ?_⟩
    exact (like_likeEscape piece ['%'] (piece ++ tail)).mpr ⟨tail, rfl, hany tail⟩

end Ourios.Foundation
