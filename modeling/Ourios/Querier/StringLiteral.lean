/-
# String literals of the query language

`lex_string` walks bytes, and copies whole characters. In UTF-8 a byte below 0x80 is
always a character of its own, so the walk is over characters here and keeps the byte
position. The digits of a `\u` escape are a slice of four bytes, read by the standard
library's integer parser, which takes a sign in place of the first of them.
-/

import Ourios.Querier.Predicate

namespace Ourios.Querier

/-- The ways a literal is refused. -/
inductive LiteralError
  | unterminatedEscape
  | truncatedUnicode
  | invalidUnicode (hex : Text)
  | notScalar (hex : Text)
  | invalidEscape (byte : UInt8)
  | literalNewline
  | literalControl
  | unterminated
  deriving DecidableEq, Repr

/-- The slice of the next `n` bytes, `str::get`: `none` past the end or inside a character. -/
def takeBytes : Nat → Text → Option (Text × Text)
  | 0, rest => some ([], rest)
  | _, [] => none
  | n, c :: rest =>
    if n < c.utf8Size then none
    else (takeBytes (n - c.utf8Size) rest).map fun (taken, left) => (c :: taken, left)

def hexNumber (digits : Text) : Option Nat :=
  digits.foldlM (fun value c => (hexDigit c).map (16 * value + ·)) 0

/-- `u32::from_str_radix` in base 16, on slices too short to overflow. -/
def fromStrRadix : Text → Option Nat
  | [] => none
  | ['+'] => none
  | '+' :: digits => hexNumber digits
  | digits => hexNumber digits

def fromU32 (code : Nat) : Option Char :=
  if code.isValidChar then some (Char.ofNat code) else none

def shortEscape : Char → Option Char
  | '"' => some '"'
  | '\\' => some '\\'
  | 'n' => some '\n'
  | 't' => some '\t'
  | 'r' => some '\r'
  | _ => none

section Bytes

variable {rest taken left front back : Text}

theorem byteLen_append : Text.byteLen (front ++ back) = front.byteLen + back.byteLen := by
  simp [Text.byteLen]

theorem takeBytes_eq_some_iff {n : Nat} :
    takeBytes n rest = some (taken, left) ↔ rest = taken ++ left ∧ taken.byteLen = n := by
  constructor
  · intro h
    fun_induction takeBytes n rest generalizing taken with
    | case1 => cases h; exact ⟨rfl, rfl⟩
    | case2 => cases h
    | case3 => cases h
    | case4 n c rest _ hfits ih =>
      obtain ⟨⟨later, left⟩, htake, heq⟩ := Option.map_eq_some_iff.mp h
      cases heq
      obtain ⟨rfl, hbytes⟩ := ih htake
      refine ⟨rfl, ?_⟩
      simp only [Text.byteLen, List.map_cons, List.sum_cons] at hbytes ⊢
      omega
  · rintro ⟨rfl, rfl⟩
    induction taken with
    | nil => cases left <;> rfl
    | cons c taken ih =>
      have hpos := c.utf8Size_pos
      rw [show Text.byteLen (c :: taken) = c.utf8Size + Text.byteLen taken from rfl,
        List.cons_append, takeBytes, if_neg (by omega), Nat.add_sub_cancel_left, ih]
      · rfl
      · omega

end Bytes

/-- The rest of the literal, read at byte `position` with `s` read before. -/
def lexFrom (position : Nat) (s : Text) (rest : Text) : Except LiteralError (Text × Nat) :=
  match rest with
  | [] => .error .unterminated
  | '"' :: _ => .ok (s, position + 1)
  | ['\\'] => .error .unterminatedEscape
  | '\\' :: 'u' :: rest =>
    match _hslice : takeBytes 4 rest with
    | none => .error .truncatedUnicode
    | some (hex, left) =>
      match fromStrRadix hex with
      | none => .error (.invalidUnicode hex)
      | some code =>
        match fromU32 code with
        | none => .error (.notScalar hex)
        | some c => lexFrom (position + 6) (s ++ [c]) left
  | '\\' :: e :: rest =>
    match shortEscape e with
    | some c => lexFrom (position + 2) (s ++ [c]) rest
    | none => .error (.invalidEscape ((Text.toUtf8 [e]).headD 0))
  | c :: rest =>
    if c = '\n' ∨ c = '\r' then .error .literalNewline
    else if c.toNat < 0x20 then .error .literalControl
    else lexFrom (position + c.utf8Size) (s ++ [c]) rest
termination_by rest.length
decreasing_by
  · obtain ⟨rfl, -⟩ := takeBytes_eq_some_iff.mp _hslice
    simp only [List.length_cons, List.length_append]
    omega
  all_goals simp only [List.length_cons]; omega

/-- Lex the literal whose opening quote is at byte `start`; `rest` is what follows it. -/
def lexString (start : Nat) (rest : Text) : Except LiteralError (Text × Nat) :=
  lexFrom (start + 1) [] rest

/-! ## The grammar -/

def fourDigits (hex : Text) : Option Nat := if hex.length = 4 then hexNumber hex else none

/-- The code of a plus sign and three hexadecimal digits. -/
def signedDigits : Text → Option Nat
  | '+' :: digits => if digits.length = 3 then hexNumber digits else none
  | _ => none

/-- The digits of an escape where a plus sign may stand for the first of them. -/
def extendedDigits (hex : Text) : Option Nat := (fourDigits hex).or (signedDigits hex)

/-- The code the lexer takes a slice of four bytes for. -/
def sliceCode (hex : Text) : Option Nat := if hex.byteLen = 4 then fromStrRadix hex else none

section Grammar

variable (codeOf : Text → Option Nat)

/-- A character of the text between the quotes: its source and what it denotes, where
`codeOf` reads the digits of a `\u` escape. -/
inductive LiteralChar : Text → Char → Prop
  | raw {c} : c ≠ '"' → c ≠ '\\' → 0x20 ≤ c.toNat → LiteralChar [c] c
  | short {e c} : shortEscape e = some c → LiteralChar ['\\', e] c
  | unicode {hex code c} : codeOf hex = some code → fromU32 code = some c →
      LiteralChar ('\\' :: 'u' :: hex) c

/-- The text between the quotes and what it denotes. -/
inductive Denotes : Text → Text → Prop
  | done : Denotes [] []
  | step {unit c src s} : LiteralChar codeOf unit c → Denotes src s → Denotes (unit ++ src) (c :: s)

/-- The literal after the quote at `start` denotes `s` and ends at `finish`. -/
def Literal (start : Nat) (rest s : Text) (finish : Nat) : Prop :=
  ∃ src tail, rest = src ++ '"' :: tail ∧ Denotes codeOf src s ∧
    finish = start + 1 + Text.byteLen src + 1

end Grammar

/-- An escape before the closing quote has a plus sign for its first digit. -/
def signedEscape : Text → Bool
  | '\\' :: 'u' :: '+' :: _ => true
  | '\\' :: _ :: rest => signedEscape rest
  | '"' :: _ => false
  | _ :: rest => signedEscape rest
  | [] => false

/-! ## Hexadecimal digits -/

theorem utf8Size_of_hexDigit {c : Char} {value : Nat} (h : hexDigit c = some value) :
    c.utf8Size = 1 := by
  refine Char.utf8Size_eq_one_iff.mpr ?_
  unfold hexDigit at h
  split_ifs at h with hdigit hlower hupper
  · simp only [Char.isDigit, Bool.and_eq_true, decide_eq_true_eq] at hdigit
    exact UInt32.le_trans hdigit.2 (by decide)
  · exact UInt32.le_trans hlower.2 (by decide)
  · exact UInt32.le_trans hupper.2 (by decide)

theorem hexDigit_of_hexNumber {digits : Text} {code : Nat} (h : hexNumber digits = some code) :
    ∀ c ∈ digits, ∃ value, hexDigit c = some value := by
  unfold hexNumber at h
  generalize (0 : Nat) = high at h
  induction digits generalizing high with
  | nil => simp
  | cons c digits ih =>
    rw [List.foldlM_cons] at h
    obtain ⟨next, hnext, hlater⟩ := Option.bind_eq_some_iff.mp h
    obtain ⟨value, hvalue, -⟩ := Option.map_eq_some_iff.mp hnext
    exact List.forall_mem_cons.mpr ⟨⟨value, hvalue⟩, ih _ hlater⟩

theorem byteLen_of_hexNumber {digits : Text} {code : Nat} (h : hexNumber digits = some code) :
    Text.byteLen digits = digits.length := by
  have hone : ∀ size ∈ digits.map Char.utf8Size, size = 1 := by
    intro size hsize
    obtain ⟨c, hc, rfl⟩ := List.mem_map.mp hsize
    obtain ⟨value, hvalue⟩ := hexDigit_of_hexNumber h c hc
    exact utf8Size_of_hexDigit hvalue
  rw [Text.byteLen, List.eq_replicate_of_mem hone, List.sum_replicate_nat, List.length_map, mul_one]

/-- Four digits are what the lexer takes without a sign. -/
theorem fourDigits_eq_some_iff {hex : Text} {code : Nat} : fourDigits hex = some code ↔
    sliceCode hex = some code ∧ hex.head? ≠ some '+' := by
  unfold fourDigits sliceCode
  rw [Option.ite_none_right_eq_some, Option.ite_none_right_eq_some]
  constructor
  · rintro ⟨hlength, hhex⟩
    have hsign : hex.head? ≠ some '+' := by
      intro hhead
      obtain ⟨value, hvalue⟩ := hexDigit_of_hexNumber hhex '+' (List.mem_of_mem_head? hhead)
      cases hvalue
    refine ⟨⟨(byteLen_of_hexNumber hhex).trans hlength, ?_⟩, hsign⟩
    unfold fromStrRadix
    split <;> simp_all
  · rintro ⟨⟨hlength, hradix⟩, hsign⟩
    have hhex : hexNumber hex = some code := by
      unfold fromStrRadix at hradix
      split at hradix <;> simp_all
    exact ⟨(byteLen_of_hexNumber hhex).symm.trans hlength, hhex⟩

theorem sliceCode_eq_extendedDigits : sliceCode = extendedDigits := by
  ext hex code
  change sliceCode hex = some code ↔ (fourDigits hex).or (signedDigits hex) = some code
  by_cases hhead : hex.head? = some '+'
  · obtain ⟨digits, rfl⟩ := List.head?_eq_some_iff.mp hhead
    have hfour : fourDigits ('+' :: digits) = none :=
      Option.eq_none_iff_forall_ne_some.mpr fun _ h => (fourDigits_eq_some_iff.mp h).2 rfl
    rw [hfour, Option.none_or, sliceCode, signedDigits, Option.ite_none_right_eq_some,
      Option.ite_none_right_eq_some]
    have hbytes : Text.byteLen ('+' :: digits) = 1 + Text.byteLen digits := rfl
    have hradix : digits ≠ [] → fromStrRadix ('+' :: digits) = hexNumber digits := by
      intro hne
      rw [fromStrRadix]
      exact hne
    refine ⟨fun ⟨hlength, hhex⟩ => ?_, fun ⟨hlength, hhex⟩ => ?_⟩
    · rw [hradix (by rintro rfl; cases hlength)] at hhex
      exact ⟨by rw [hbytes, byteLen_of_hexNumber hhex] at hlength; omega, hhex⟩
    · refine ⟨by rw [hbytes, byteLen_of_hexNumber hhex, hlength], ?_⟩
      rwa [hradix (by rintro rfl; cases hlength)]
  · have hsigned : signedDigits hex = none := by
      unfold signedDigits
      split
      · exact absurd rfl hhead
      · rfl
    rw [hsigned, Option.or_none, fourDigits_eq_some_iff, and_iff_left hhead]

/-! ## The lexer reads the grammar of slices -/

theorem byteLen_escape {hex : Text} (h : hex.byteLen = 4) :
    Text.byteLen ('\\' :: 'u' :: hex) = 6 :=
  (@byteLen_append ['\\', 'u'] _).trans (congrArg _ h)

theorem byteLen_of_shortEscape {e c : Char} (h : shortEscape e = some c) :
    Text.byteLen ['\\', e] = 2 := by
  unfold shortEscape at h
  split at h <;> cases h <;> rfl

/-- One character of the literal. -/
theorem LiteralChar.lexFrom_append {unit : Text} {c : Char} (h : LiteralChar sliceCode unit c)
    (position : Nat) (s left : Text) :
    lexFrom position s (unit ++ left) = lexFrom (position + unit.byteLen) (s ++ [c]) left := by
  cases h with
  | raw hquote hslash hvisible =>
    have hline : ¬ (c = '\n' ∨ c = '\r') := by
      rintro (rfl | rfl) <;> revert hvisible <;> decide
    rw [List.singleton_append, lexFrom, if_neg hline, if_neg (by omega)]
    · simp [Text.byteLen]
    all_goals simp_all
  | @short e _ hescape =>
    have hu : e ≠ 'u' := by
      rintro rfl
      cases hescape
    have hsize : Text.byteLen ['\\', e] = 2 := byteLen_of_shortEscape hescape
    simp only [List.cons_append, List.nil_append]
    rw [lexFrom, hescape, hsize]
    exact hu
  | @unicode hex code _ hhex hcode =>
    obtain ⟨hlength, hradix⟩ := Option.ite_none_right_eq_some.mp hhex
    have hslice : takeBytes 4 (hex ++ left) = some (hex, left) :=
      takeBytes_eq_some_iff.mpr ⟨rfl, hlength⟩
    rw [byteLen_escape hlength, List.cons_append, List.cons_append, lexFrom]
    split <;> simp_all

theorem lexFrom_of_denotes {src u : Text} (h : Denotes sliceCode src u) (position : Nat)
    (s tail : Text) : lexFrom position s (src ++ '"' :: tail) =
      .ok (s ++ u, position + Text.byteLen src + 1) := by
  induction h generalizing position s with
  | done => simp [lexFrom, Text.byteLen]
  | step hunit _ ih =>
    rw [List.append_assoc, hunit.lexFrom_append, ih, byteLen_append]
    simp [add_assoc]

/-- The literal read from `position` on, with `s` read before. -/
def ReadTo (position : Nat) (s rest t : Text) (finish : Nat) : Prop :=
  ∃ src tail u, rest = src ++ '"' :: tail ∧ Denotes sliceCode src u ∧ t = s ++ u ∧
    finish = position + Text.byteLen src + 1

theorem LiteralChar.readTo_append {unit : Text} {c : Char} (h : LiteralChar sliceCode unit c)
    {position finish : Nat} {s left t : Text}
    (hlater : ReadTo (position + unit.byteLen) (s ++ [c]) left t finish) :
    ReadTo position s (unit ++ left) t finish := by
  obtain ⟨src, tail, u, rfl, hdenotes, rfl, rfl⟩ := hlater
  exact ⟨unit ++ src, tail, c :: u, by simp, .step h hdenotes, by simp,
    by rw [byteLen_append, add_assoc position]⟩

theorem readTo_of_lexFrom {position : Nat} {s rest t : Text} {finish : Nat}
    (h : lexFrom position s rest = .ok (t, finish)) : ReadTo position s rest t finish := by
  fun_induction lexFrom position s rest with
  | case2 position s tail =>
    cases h
    exact ⟨[], tail, [], rfl, .done, by simp, rfl⟩
  | case7 position s rest hex left hslice code hhex c hcode ih =>
    obtain ⟨rfl, hlength⟩ := takeBytes_eq_some_iff.mp hslice
    have hunit : LiteralChar sliceCode ('\\' :: 'u' :: hex) c :=
      .unicode (Option.ite_none_right_eq_some.mpr ⟨hlength, hhex⟩) hcode
    exact hunit.readTo_append (byteLen_escape hlength ▸ ih h)
  | case8 position s e rest hnot c hescape ih =>
    have hunit : LiteralChar sliceCode ['\\', e] c := .short hescape
    exact hunit.readTo_append (byteLen_of_shortEscape hescape ▸ ih h)
  | case12 position s c rest hquote hlone hunicode hslash hline hvisible ih =>
    have hslash : c ≠ '\\' := by
      rintro rfl
      cases rest with
      | nil => exact hlone rfl rfl
      | cons e rest => exact hslash e rest rfl rfl
    refine (LiteralChar.raw hquote hslash (by omega)).readTo_append ?_
    simpa [Text.byteLen] using ih h
  | _ => cases h

theorem lexString_eq_ok_iff {start finish : Nat} {rest s : Text} :
    lexString start rest = .ok (s, finish) ↔ Literal sliceCode start rest s finish := by
  constructor
  · intro h
    obtain ⟨src, tail, u, rfl, hdenotes, rfl, rfl⟩ := readTo_of_lexFrom h
    exact ⟨src, tail, rfl, hdenotes, rfl⟩
  · rintro ⟨src, tail, rfl, hdenotes, rfl⟩
    exact lexFrom_of_denotes hdenotes (start + 1) [] tail

/-! ## Where the lexer leaves the grammar -/

section Signs

variable {unit src s tail left : Text} {c : Char}

theorem signedEscape_cons (hslash : c ≠ '\\') (hquote : c ≠ '"') :
    signedEscape (c :: left) = signedEscape left := by
  rw [signedEscape]
  all_goals simp_all

theorem signedEscape_digits {hex : Text} (h : ∀ c ∈ hex, ∃ value, hexDigit c = some value) :
    signedEscape (hex ++ left) = signedEscape left := by
  induction hex with
  | nil => rfl
  | cons c hex ih =>
    obtain ⟨⟨value, hvalue⟩, hlater⟩ := List.forall_mem_cons.mp h
    rw [List.cons_append, signedEscape_cons, ih hlater]
    all_goals
      rintro rfl
      cases hvalue

/-- A character of the grammar is one of the lexer's, without a sign. -/
theorem LiteralChar.ofFour (h : LiteralChar fourDigits unit c) :
    LiteralChar sliceCode unit c ∧ signedEscape (unit ++ left) = signedEscape left := by
  cases h with
  | raw hquote hslash hvisible =>
    exact ⟨.raw hquote hslash hvisible, signedEscape_cons hslash hquote⟩
  | short hescape =>
    refine ⟨.short hescape, ?_⟩
    simp only [List.cons_append, List.nil_append]
    rw [signedEscape]
    rintro _ rfl -
    cases hescape
  | @unicode hex code _ hhex hcode =>
    obtain ⟨hslice, hsign⟩ := fourDigits_eq_some_iff.mp hhex
    refine ⟨.unicode hslice hcode, ?_⟩
    have hdigits := hexDigit_of_hexNumber (Option.ite_none_right_eq_some.mp hhex).2
    rw [List.cons_append, List.cons_append, signedEscape, signedEscape_digits hdigits]
    rintro rest - hplus
    cases hex with
    | nil => cases hhex
    | cons => simp_all

theorem LiteralChar.toFour (h : LiteralChar sliceCode unit c)
    (hsign : signedEscape (unit ++ left) = false) : LiteralChar fourDigits unit c := by
  cases h with
  | raw hquote hslash hvisible => exact .raw hquote hslash hvisible
  | short hescape => exact .short hescape
  | @unicode hex _ _ hhex hcode =>
    refine .unicode (fourDigits_eq_some_iff.mpr ⟨hhex, fun hhead => ?_⟩) hcode
    obtain ⟨digits, rfl⟩ := List.head?_eq_some_iff.mp hhead
    cases hsign

theorem denotes_fourDigits_iff : Denotes fourDigits src s ↔
    Denotes sliceCode src s ∧ signedEscape (src ++ '"' :: tail) = false := by
  constructor
  · intro h
    induction h with
    | done => exact ⟨.done, rfl⟩
    | step hunit _ ih =>
      obtain ⟨hslice, hsign⟩ := hunit.ofFour
      exact ⟨.step hslice ih.1, by rw [List.append_assoc, hsign, ih.2]⟩
  · rintro ⟨h, hsign⟩
    induction h with
    | done => exact .done
    | step hunit _ ih =>
      rw [List.append_assoc] at hsign
      have hfour := hunit.toFour hsign
      exact .step hfour (ih (hfour.ofFour.2.symm.trans hsign))

end Signs

/-- The lexer accepts the literals of the grammar, with the text and end they have. -/
def FollowsLiteralGrammar (start : Nat) (rest : Text) : Prop :=
  ∀ s finish, lexString start rest = .ok (s, finish) ↔ Literal fourDigits start rest s finish

theorem literal_fourDigits_iff {start finish : Nat} {rest s : Text} :
    Literal fourDigits start rest s finish ↔
      lexString start rest = .ok (s, finish) ∧ signedEscape rest = false := by
  rw [lexString_eq_ok_iff]
  constructor
  · rintro ⟨src, tail, rfl, hdenotes, rfl⟩
    obtain ⟨hslice, hsign⟩ := denotes_fourDigits_iff.mp hdenotes
    exact ⟨⟨src, tail, rfl, hslice, rfl⟩, hsign⟩
  · rintro ⟨⟨src, tail, rfl, hdenotes, rfl⟩, hsign⟩
    exact ⟨src, tail, rfl, denotes_fourDigits_iff.mpr ⟨hdenotes, hsign⟩, rfl⟩

/-- The lexer follows the grammar exactly on the texts that are not a literal of the
grammar extended by escapes with a sign, with such an escape in it. -/
theorem followsLiteralGrammar_iff (start : Nat) (rest : Text) :
    FollowsLiteralGrammar start rest ↔
      ¬ ∃ s finish, Literal extendedDigits start rest s finish ∧ signedEscape rest = true := by
  rw [← sliceCode_eq_extendedDigits]
  simp only [FollowsLiteralGrammar, literal_fourDigits_iff, iff_self_and, lexString_eq_ok_iff,
    not_exists, not_and, Bool.not_eq_true]

/-- A sign and three digits are read as the letter `A`. -/
theorem not_followsLiteralGrammar_plus : ¬ FollowsLiteralGrammar 0 "\\u+041\"".toList := by
  intro h
  have hchar : LiteralChar sliceCode "\\u+041".toList 'A' :=
    @LiteralChar.unicode _ "+041".toList 65 'A' rfl rfl
  have haccepted : Literal sliceCode 0 "\\u+041\"".toList ['A'] 8 :=
    ⟨"\\u+041".toList, [], rfl, .step hchar .done, rfl⟩
  have hfour := (h _ _).mp (lexString_eq_ok_iff.mpr haccepted)
  cases (literal_fourDigits_iff.mp hfour).2

end Ourios.Querier
