/-
# The masking grammar

The masking rules as a grammar, and the recognisers of `mask.rs` measured against
it. Dates, times, UUIDs and numbers are recognised exactly. The octets of an address
are not: they go through the integer parser of the standard library, which takes a
leading plus sign, so a dotted quad such as `+1.2.3.4` is masked as an address.
-/

import Ourios.Foundation.Grammar
import Ourios.Miner.Mask

namespace Ourios.Miner

open Foundation

/-! ### The grammar -/

/-- The number a run of digits spells. -/
def decimal (s : Text) : Nat := s.foldl (fun acc c => acc * 10 + (c.toNat - '0'.toNat)) 0

/-- The one word of a single character. -/
def only (c : Char) : Language Char := letter (· == c)

def hexDigit : Language Char := letter isHexDigit

/-- `8-4-4-4-12` hex digits. -/
def uuidForm : Language Char :=
  hexDigit ^ 8 * only '-' * hexDigit ^ 4 * only '-' * hexDigit ^ 4 * only '-' * hexDigit ^ 4 *
    only '-' * hexDigit ^ 12

variable {s : Text} (b : Text)

/-- `0..=255` in digits, with no leading zero. -/
def octetForm : Language Char :=
  {s | s ≠ [] ∧ s.all Char.isDigit ∧ decimal s ≤ 255 ∧ (s.head? = some '0' → s = ['0'])}

/-- Four parts between dots. -/
def quad (part : Language Char) : Language Char :=
  part * only '.' * part * only '.' * part * only '.' * part

def twoDigitForm (low high : Nat) : Language Char :=
  {s | s.length = 2 ∧ s.all Char.isDigit ∧ low ≤ decimal s ∧ decimal s ≤ high}

/-- `YYYY s MM s DD`, with one of the two separators in both places. -/
def dateForm : Language Char :=
  letter Char.isDigit ^ 4 *
    (only '-' * twoDigitForm 1 12 * only '-' * twoDigitForm 1 31 +
      only '/' * twoDigitForm 1 12 * only '/' * twoDigitForm 1 31)

/-- One to `most` digits. -/
def digitRun (most : Nat) : Language Char :=
  {s | 1 ≤ s.length ∧ s.length ≤ most ∧ s.all Char.isDigit}

/-- A point or a comma and one to nine digits. -/
def fractionForm : Language Char := letter (fun c => c == '.' || c == ',') * digitRun 9

/-- `Z`, `±hh`, `±hhmm` or `±hh:mm`. -/
def zoneForm : Language Char :=
  only 'Z' + letter (fun c => c == '+' || c == '-') * twoDigitForm 0 23 *
    (1 + twoDigitForm 0 59 + only ':' * twoDigitForm 0 59)

/-- `hh:mm:ss`, then an optional fraction and an optional zone. -/
def timeForm : Language Char :=
  twoDigitForm 0 23 * only ':' * twoDigitForm 0 59 * only ':' * twoDigitForm 0 60 *
    (1 + fractionForm) * (1 + zoneForm)

def timestampForm : Language Char := dateForm + timeForm + dateForm * only 'T' * timeForm

def digitsForm : Language Char := {s | s ≠ [] ∧ s.all Char.isDigit}

/-- An optional minus sign, digits, and optionally a point and digits. -/
def numberForm : Language Char :=
  (1 + only '-') * digitsForm * (1 + only '.' * digitsForm)

/-- What the integer parser takes beyond an octet: a plus sign and one or two digits. -/
def signedOctetForm : Language Char := only '+' * digitRun 2

/-- A token is masked as the grammar says. -/
def FollowsGrammar (token : Text) : Prop :=
  (classify token = some .ip ↔ token ∈ quad octetForm) ∧
  (classify token = some .uuid ↔ token ∈ uuidForm) ∧
  (classify token = some .ts ↔ token ∈ timestampForm) ∧
  (classify token = some .num ↔
    token ∉ quad octetForm ∧ token ∉ uuidForm ∧ token ∉ timestampForm ∧ token ∈ numberForm)

/-! ### Reading one character and two digits -/

theorem mem_only_mul {c : Char} {rest : Language Char} {s : Text} :
    s ∈ only c * rest ↔ s.head? = some c ∧ s.drop 1 ∈ rest := by
  rw [only, mem_letter_mul]
  cases s <;> simp

theorem toNat_of_isDigit {c : Char} (h : c.isDigit) : 48 ≤ c.toNat ∧ c.toNat ≤ 57 := by
  simp only [Char.isDigit, Bool.and_eq_true, decide_eq_true_eq, UInt32.le_iff_toNat_le,
    ge_iff_le] at h
  exact h

theorem twoDigits_drop (k start : Nat) : twoDigits (b.drop k) start = twoDigits b (k + start) := by
  simp [twoDigits, List.drop_drop]

theorem mem_twoDigitForm_mul {low high : Nat} {rest : Language Char} {s : Text} :
    s ∈ twoDigitForm low high * rest ↔
      (twoDigits s 0).any (fun value => low ≤ value && value ≤ high) ∧ s.drop 2 ∈ rest := by
  rw [Language.mem_mul]
  constructor
  · rintro ⟨word, ⟨hlength, hdigits, hlow, hhigh⟩, tail, htail, rfl⟩
    obtain ⟨hi, lo, rfl⟩ := List.length_eq_two.mp hlength
    simp only [List.all_cons, List.all_nil, Bool.and_true, Bool.and_eq_true] at hdigits
    simp only [decimal, List.foldl_cons, List.foldl_nil, Nat.zero_mul, Nat.zero_add] at hlow hhigh
    simp only [twoDigits, List.cons_append, List.nil_append, List.drop_zero, List.take_succ_cons,
      List.take_zero, hdigits, Bool.and_self, if_true, Option.any_some, Bool.and_eq_true,
      decide_eq_true_eq]
    exact ⟨⟨hlow, hhigh⟩, htail⟩
  · rintro ⟨hvalue, htail⟩
    match s, hvalue, htail with
    | hi :: lo :: tail, hvalue, htail =>
      refine ⟨[hi, lo], ?_, tail, htail, rfl⟩
      simp only [twoDigits, List.drop_zero, List.take_succ_cons, List.take_zero] at hvalue
      split at hvalue
      next hdigits =>
        simp only [Option.any_some, Bool.and_eq_true, decide_eq_true_eq] at hvalue
        refine ⟨rfl, by simpa using hdigits, ?_⟩
        simpa [decimal] using hvalue
      next => simp at hvalue

theorem mem_twoDigitForm {low high : Nat} {s : Text} :
    s ∈ twoDigitForm low high ↔
      (twoDigits s 0).any (fun value => low ≤ value && value ≤ high) ∧ s.length ≤ 2 := by
  rw [← mul_one (twoDigitForm low high), mem_twoDigitForm_mul, Language.mem_one,
    List.drop_eq_nil_iff]

theorem length_of_twoDigits {b : Text} {start : Nat} {test : Nat → Bool}
    (h : (twoDigits b start).any test) : start + 2 ≤ b.length := by
  unfold twoDigits at h
  split at h
  next heq =>
    have hlength := congrArg List.length heq
    simp only [List.length_take, List.length_drop, List.length_cons, List.length_nil] at hlength
    omega
  next => simp at h

/-! ### The recognisers -/

theorem isUuid_iff (s : Text) : isUuid s ↔ s ∈ uuidForm := by
  have hhex (c : Char) (i : Nat) (h : ¬ (i = 8 ∨ i = 13 ∨ i = 18 ∨ i = 23)) :
      (if i == 8 || i == 13 || i == 18 || i == 23 then c == '-' else isHexDigit c) =
        isHexDigit c := if_neg (by simpa [or_assoc] using h)
  have hdash (c : Char) (i : Nat) (h : i = 8 ∨ i = 13 ∨ i = 18 ∨ i = 23) :
      (if i == 8 || i == 13 || i == 18 || i == 23 then c == '-' else isHexDigit c) =
        (c == '-') := if_pos (by simpa [or_assoc] using h)
  have hone : only '-' = letter (· == '-') ^ 1 := (pow_one _).symm
  rw [uuidForm, hone, hexDigit, ← mul_one (letter isHexDigit ^ 12)]
  simp only [mul_assoc, mem_letter_pow_mul, Language.mem_one, List.drop_drop, List.drop_eq_nil_iff,
    List.length_drop, isUuid]
  rw [all_zipIdx_run (n := 8) (p := isHexDigit) fun c i _ _ => hhex c i (by omega),
    all_zipIdx_run (n := 1) (p := (· == '-')) fun c i _ _ => hdash c i (by omega),
    all_zipIdx_run (n := 4) (p := isHexDigit) fun c i _ _ => hhex c i (by omega),
    all_zipIdx_run (n := 1) (p := (· == '-')) fun c i _ _ => hdash c i (by omega),
    all_zipIdx_run (n := 4) (p := isHexDigit) fun c i _ _ => hhex c i (by omega),
    all_zipIdx_run (n := 1) (p := (· == '-')) fun c i _ _ => hdash c i (by omega),
    all_zipIdx_run (n := 4) (p := isHexDigit) fun c i _ _ => hhex c i (by omega),
    all_zipIdx_run (n := 1) (p := (· == '-')) fun c i _ _ => hdash c i (by omega),
    all_zipIdx_run (n := 12) (p := isHexDigit) fun c i _ _ => hhex c i (by omega)]
  simp only [Bool.and_eq_true, beq_iff_eq, List.drop_drop]
  constructor
  · rintro ⟨hlength, h1, h2, h3, h4, h5, h6, h7, h8, h9, -⟩
    refine ⟨by omega, h1, by omega, h2, by omega, h3, by omega, h4, by omega, h5, by omega, h6,
      by omega, h7, by omega, h8, by omega, h9, by omega⟩
  · rintro ⟨-, h1, -, h2, -, h3, -, h4, -, h5, -, h6, -, h7, -, h8, hlow, h9, hhigh⟩
    refine ⟨by omega, h1, h2, h3, h4, h5, h6, h7, h8, h9, ?_⟩
    rw [List.drop_eq_nil_of_le hhigh]
    rfl

theorem isDate_iff : isDate b ↔ b ∈ dateForm := by
  simp only [dateForm, mul_assoc, mem_letter_pow_mul, Language.mem_add, mem_only_mul,
    mem_twoDigitForm_mul, mem_twoDigitForm, List.drop_drop, List.head?_drop, twoDigits_drop,
    List.length_drop, isDate, Bool.and_eq_true, Nat.reduceAdd, Nat.add_zero]
  constructor
  · rintro ⟨⟨⟨⟨⟨hlength, hyear⟩, hfirst⟩, hsecond⟩, hmonth⟩, hday⟩
    have hsize : b.length = 10 := by simpa using hlength
    refine ⟨by omega, hyear, ?_⟩
    simp only [Bool.or_eq_true, beq_iff_eq] at hfirst hsecond
    rcases hfirst with hfirst | hfirst
    · exact .inl ⟨hfirst, hmonth, hsecond.trans hfirst, hday, by omega⟩
    · exact .inr ⟨hfirst, hmonth, hsecond.trans hfirst, hday, by omega⟩
  · rintro ⟨-, hyear, ⟨hfirst, hmonth, hsecond, hday, hsize⟩ |
      ⟨hfirst, hmonth, hsecond, hday, hsize⟩⟩ <;>
    · have hlow := length_of_twoDigits hday
      have hlength : b.length = 10 := by omega
      rw [hfirst, hsecond]
      exact ⟨⟨⟨⟨⟨by simp [hlength], hyear⟩, rfl⟩, rfl⟩, hmonth⟩, hday⟩

theorem twoDigits_colon (mm : Text) : twoDigits (':' :: mm) 0 = none := by
  cases mm <;> rfl

theorem isZoneMinutes_iff :
    isZoneMinutes b ↔ b ∈ 1 + twoDigitForm 0 59 + only ':' * twoDigitForm 0 59 := by
  have hboth (mm : Text) : (mm.length == 2 && (twoDigits mm 0).any (· ≤ 59)) = true ↔
      mm ∈ twoDigitForm 0 59 := by
    rw [mem_twoDigitForm]
    simp only [Nat.zero_le, decide_true, Bool.true_and, Bool.and_eq_true, beq_iff_eq]
    constructor
    · rintro ⟨hlength, hvalue⟩
      exact ⟨hvalue, hlength.le⟩
    · rintro ⟨hvalue, hlength⟩
      exact ⟨le_antisymm hlength (length_of_twoDigits hvalue), hvalue⟩
  simp only [Language.mem_add, Language.mem_one, mem_only_mul]
  unfold isZoneMinutes
  split
  next => simp
  next mm =>
    have hcolon : (':' :: mm : Text) ∉ twoDigitForm 0 59 := by
      simp [mem_twoDigitForm, twoDigits_colon]
    simp [hboth, hcolon]
  next hnil hcolon =>
    rw [hboth]
    cases b with
    | nil => exact absurd rfl hnil
    | cons c mm =>
      have hc : c ≠ ':' := fun heq => hcolon mm (by rw [heq])
      simp [hc]

theorem isZone_iff : isZone b ↔ b ∈ 1 + zoneForm := by
  have hz : only 'Z' = only 'Z' * 1 := (mul_one _).symm
  rw [zoneForm, mul_assoc, Language.mem_add, Language.mem_add, hz, mem_only_mul,
    mem_letter_mul, mem_twoDigitForm_mul, ← isZoneMinutes_iff]
  unfold isZone
  split
  next => simp [Language.mem_one]
  next => simp [Language.mem_one]
  next c rest hz =>
    have hc : ¬ (c = 'Z' ∧ rest = []) := by
      rintro ⟨rfl, rfl⟩
      exact hz rfl rfl
    simp [Language.mem_one, hc, and_assoc]

theorem mem_digitRun_mul {most : Nat} {rest : Language Char} {s : Text}
    (hrest : ∀ word ∈ rest, word.head?.any Char.isDigit = false) :
    s ∈ digitRun most * rest ↔
      1 ≤ (s.takeWhile Char.isDigit).length ∧ (s.takeWhile Char.isDigit).length ≤ most ∧
        s.drop (s.takeWhile Char.isDigit).length ∈ rest := by
  rw [Language.mem_mul]
  constructor
  · rintro ⟨run, ⟨hlow, hhigh, hdigits⟩, tail, htail, rfl⟩
    have hstop : tail.takeWhile Char.isDigit = [] := by
      have hhead := hrest tail htail
      cases tail with
      | nil => rfl
      | cons c tail => simpa [List.takeWhile_cons] using hhead
    have hrun : (run ++ tail).takeWhile Char.isDigit = run := by
      rw [List.takeWhile_append_of_pos (by simpa using hdigits), hstop, List.append_nil]
    rw [hrun, List.drop_left]
    exact ⟨hlow, hhigh, htail⟩
  · rintro ⟨hlow, hhigh, htail⟩
    refine ⟨_, ⟨hlow, hhigh, List.all_takeWhile⟩, _, htail, ?_⟩
    have hwhole : s.takeWhile Char.isDigit ++ s.dropWhile Char.isDigit = s :=
      List.takeWhile_append_dropWhile
    have hdrop := congrArg (List.drop (s.takeWhile Char.isDigit).length) hwhole
    rw [List.drop_left] at hdrop
    rw [← hdrop, hwhole]

theorem head_of_isZone {c : Char} {rest : Text} (h : isZone (c :: rest)) :
    c = 'Z' ∨ c = '+' ∨ c = '-' := by
  unfold isZone at h
  split at h
  next heq => cases heq
  next heq => exact .inl (List.cons.inj heq).1
  next heq =>
    cases heq
    simp only [Bool.and_eq_true, Bool.or_eq_true, beq_iff_eq] at h
    exact .inr h.1.1

theorem stripFraction_iff : (∃ zone, stripFraction b = some zone ∧ isZone zone) ↔
      b ∈ (1 + fractionForm) * (1 + zoneForm) := by
  have hdigit (word : Text) (h : word ∈ 1 + zoneForm) : word.head?.any Char.isDigit = false := by
    cases word with
    | nil => rfl
    | cons c rest => rcases head_of_isZone ((isZone_iff _).mpr h) with rfl | rfl | rfl <;> rfl
  rw [add_mul, one_mul, fractionForm, mul_assoc, Language.mem_add, mem_letter_mul,
    mem_digitRun_mul hdigit, ← isZone_iff, ← isZone_iff]
  unfold stripFraction
  split
  next c rest =>
    split
    next hmark =>
      have hnot : isZone (c :: rest) = false := by
        rw [Bool.eq_false_iff]
        intro hzone
        rcases head_of_isZone hzone with rfl | rfl | rfl <;> simp at hmark
      simp [hnot, hmark, and_assoc]
    next hmark => simp [hmark]
  next => simp

theorem isTime_iff : isTime b ↔ b ∈ timeForm := by
  simp only [timeForm, mul_assoc, mem_only_mul, mem_twoDigitForm_mul, List.drop_drop,
    List.head?_drop, twoDigits_drop, Nat.reduceAdd, Nat.add_zero, ← stripFraction_iff, isTime,
    Bool.and_eq_true, Nat.zero_le, decide_true, Bool.true_and, beq_iff_eq]
  constructor
  · rintro ⟨⟨⟨⟨⟨⟨-, hhour⟩, hfirst⟩, hminute⟩, hsecond⟩, hleap⟩, htail⟩
    split at htail
    next zone hzone => exact ⟨hhour, hfirst, hminute, hsecond, hleap, zone, hzone, htail⟩
    next => cases htail
  · rintro ⟨hhour, hfirst, hminute, hsecond, hleap, zone, hzone, htail⟩
    have hlow := length_of_twoDigits hleap
    rw [hzone]
    exact ⟨⟨⟨⟨⟨⟨by simpa using hlow, hhour⟩, hfirst⟩, hminute⟩, hsecond⟩, hleap⟩, htail⟩

theorem isDatetime_iff : isDatetime b ↔ b ∈ dateForm * only 'T' * timeForm := by
  have hlength {word : Text} (h : word ∈ dateForm) : word.length = 10 := by
    have hdate := (isDate_iff word).mpr h
    simp only [isDate, Bool.and_eq_true, beq_iff_eq] at hdate
    exact hdate.1.1.1.1.1
  simp only [isDatetime, Bool.and_eq_true, isDate_iff, isTime_iff, decide_eq_true_eq, beq_iff_eq]
  rw [mul_assoc, Language.mem_mul]
  constructor
  · rintro ⟨⟨⟨hlong, hdate⟩, hmark⟩, htime⟩
    refine ⟨b.take 10, hdate, b.drop 10, ?_, List.take_append_drop 10 b⟩
    rw [mem_only_mul, List.head?_drop, List.drop_drop]
    exact ⟨hmark, htime⟩
  · rintro ⟨date, hdate, tail, htail, rfl⟩
    rw [mem_only_mul] at htail
    have hten := hlength hdate
    rw [← hten, List.take_left, List.getElem?_append_right (le_refl _), Nat.sub_self,
      List.drop_append, ← List.head?_eq_getElem?, List.length_append]
    have hpast : date.drop 11 = [] := List.drop_eq_nil_of_le (by omega)
    refine ⟨⟨⟨?_, hdate⟩, htail.1⟩, ?_⟩
    · have hne : tail ≠ [] := fun hnil => by simp [hnil] at htail
      have hpos := List.length_pos_of_ne_nil hne
      omega
    · rw [hpast, hten]
      exact htail.2

theorem isTs_iff : isTs b ↔ b ∈ timestampForm := by
  simp only [isTs, Bool.or_eq_true, isDate_iff, isTime_iff, isDatetime_iff, timestampForm,
    Language.mem_add]

theorem isDigits_iff (s : Text) : isDigits s ↔ s ∈ digitsForm := by
  simp only [isDigits, Bool.and_eq_true, Bool.not_eq_true', List.isEmpty_eq_false_iff]
  rfl

theorem digits_of_mem {run : Text} (h : run ∈ digitsForm) {c : Char} (hmem : c ∈ run) :
    c.isDigit := List.all_eq_true.mp h.2 c hmem

/-- The part of a number after its sign. -/
theorem unsigned_iff (body : Text) :
    (match body.span (· != '.') with
      | (int, _ :: frac) => isDigits int && isDigits frac
      | (int, []) => isDigits int) = true ↔ body ∈ digitsForm * (1 + only '.' * digitsForm) := by
  have hwhole : body.takeWhile (· != '.') ++ body.dropWhile (· != '.') = body :=
    List.takeWhile_append_dropWhile
  rw [List.span_eq_takeWhile_dropWhile, Language.mem_mul]
  constructor
  · intro h
    refine ⟨body.takeWhile (· != '.'), ?_, body.dropWhile (· != '.'), ?_, hwhole⟩
    · rw [← isDigits_iff]
      cases hdrop : body.dropWhile (· != '.') with
      | nil => simpa [hdrop] using h
      | cons c frac => exact (by simpa [hdrop] using h : _ ∧ _).1
    · rw [Language.mem_add, mem_only_mul, ← isDigits_iff]
      cases hdrop : body.dropWhile (· != '.') with
      | nil => exact .inl rfl
      | cons c frac =>
        have hdot : c = '.' := by
          have hstop := List.head?_dropWhile_not (· != '.') body
          simpa [hdrop] using hstop
        exact .inr ⟨by simp [hdot], (by simpa [hdrop] using h : _ ∧ _).2⟩
  · rintro ⟨int, hint, tail, htail, rfl⟩
    have hrun : ∀ c ∈ int, (c != '.') = true := by
      intro c hmem
      rw [bne_iff_ne]
      rintro rfl
      exact absurd (digits_of_mem hint hmem) (by decide)
    have hdigits := (isDigits_iff int).mpr hint
    rw [Language.mem_add, mem_only_mul, ← isDigits_iff] at htail
    rw [List.takeWhile_append_of_pos hrun, List.dropWhile_append_of_pos hrun]
    cases tail with
    | nil => simpa using hdigits
    | cons c frac =>
      rcases htail with hnil | ⟨hdot, hfrac⟩
      · cases hnil
      · obtain rfl : c = '.' := by simpa using hdot
        simpa [hdigits] using hfrac

theorem isNum_iff (s : Text) : isNum s ↔ s ∈ numberForm := by
  rw [numberForm, mul_assoc, add_mul, one_mul, Language.mem_add, mem_only_mul]
  unfold isNum
  split
  next rest =>
    refine (unsigned_iff rest).trans ⟨fun h => .inr ⟨rfl, h⟩, ?_⟩
    rintro (⟨int, hint, tail, -, heq⟩ | ⟨-, h⟩)
    · cases int with
      | nil => exact absurd rfl hint.1
      | cons c int =>
        have hdigit := digits_of_mem hint (List.mem_cons_self ..)
        rw [(List.cons.inj heq).1] at hdigit
        exact absurd hdigit (by decide)
    · exact h
  next hsign =>
    refine (unsigned_iff s).trans ⟨.inl, ?_⟩
    rintro (h | ⟨hhead, -⟩)
    · exact h
    · obtain ⟨rest, heq⟩ := List.head?_eq_some_iff.mp hhead
      exact absurd heq (hsign rest)

/-! ### Octets -/

/-- What the recogniser takes between two dots. -/
def parsedOctetForm : Language Char := octetForm + signedOctetForm

theorem decimal_of_short (hdigits : s.all Char.isDigit) (hshort : s.length ≤ 2) :
    decimal s ≤ 99 := by
  have hbase : '0'.toNat = 48 := rfl
  match s, hdigits with
  | [], _ => exact Nat.zero_le _
  | [c], hdigits =>
    have hc := toNat_of_isDigit (by simpa using hdigits : c.isDigit = true)
    simp only [decimal, List.foldl_cons, List.foldl_nil, hbase]
    omega
  | [c, d], hdigits =>
    obtain ⟨hc, hd⟩ : c.isDigit = true ∧ d.isDigit = true := by simpa using hdigits
    have hc := toNat_of_isDigit hc
    have hd := toNat_of_isDigit hd
    simp only [decimal, List.foldl_cons, List.foldl_nil, hbase]
    omega
  | _ :: _ :: _ :: _, _ => simp at hshort

theorem le_decimalFrom (s : Text) (start : Nat) :
    start ≤ s.foldl (fun acc c => acc * 10 + (c.toNat - '0'.toNat)) start := by
  induction s generalizing start with
  | nil => exact le_refl _
  | cons c s ih =>
    have hstep : start ≤ start * 10 + (c.toNat - '0'.toNat) := by omega
    exact hstep.trans (ih _)

theorem length_of_decimal (hdigits : s.all Char.isDigit) (hsmall : decimal s ≤ 255)
    (hzero : s.head? = some '0' → s = ['0']) : s.length ≤ 3 := by
  match s, hdigits with
  | [], _ | [_], _ | [_, _], _ | [_, _, _], _ => simp
  | c :: d :: e :: f :: s, hdigits =>
    have hfirst : c.isDigit = true := by
      simp only [List.all_cons, Bool.and_eq_true] at hdigits
      exact hdigits.1
    have hc : 1 ≤ c.toNat - '0'.toNat := by
      have hne : c ≠ '0' := by
        rintro rfl
        cases hzero rfl
      have hvalue : c.toNat ≠ 48 := fun heq => hne (Char.ext (UInt32.toNat_inj.mp heq))
      have hlow := (toNat_of_isDigit hfirst).1
      have hbase : '0'.toNat = 48 := rfl
      omega
    have hlarge := le_decimalFrom s
      (((((0 * 10 + (c.toNat - '0'.toNat)) * 10 + (d.toNat - '0'.toNat)) * 10 +
        (e.toNat - '0'.toNat)) * 10) + (f.toNat - '0'.toNat))
    simp only [decimal, List.foldl_cons] at hsmall
    omega

/-- The digits the integer parser reads: all of the text, or what follows a plus sign. -/
theorem parseU16_iff {s digits : Text}
    (h : s = '+' :: digits ∨ s = digits ∧ s.head? ≠ some '+') :
    (parseU16 s).any (· ≤ 255) ↔ digits ≠ [] ∧ digits.all Char.isDigit ∧ decimal digits ≤ 255 := by
  have hparse : parseU16 s = if digits.isEmpty || !digits.all Char.isDigit then none
      else if decimal digits ≤ 65535 then some (decimal digits) else none := by
    unfold parseU16
    split
    next rest => 
      rcases h with heq | ⟨-, hhead⟩
      · cases heq
        rfl
      · exact absurd rfl hhead
    next hplain =>
      rcases h with heq | ⟨rfl, -⟩
      · exact absurd heq (hplain digits)
      · rfl
  rw [hparse]
  split
  next hbad => 
    simp only [Bool.or_eq_true, List.isEmpty_iff, Bool.not_eq_true'] at hbad
    rcases hbad with hnil | hdigits
    · simp [hnil]
    · simp [hdigits]
  next hgood =>
    simp only [Bool.or_eq_true, List.isEmpty_iff, Bool.not_eq_true', not_or,
      Bool.not_eq_false] at hgood
    split
    next => simp [hgood]
    next hlarge =>
      simp [hgood]
      omega

theorem isOctet_iff (s : Text) : isOctet s ↔ s ∈ parsedOctetForm := by
  have hall : isOctet s = (!s.isEmpty && decide (s.length ≤ 3) &&
      !(decide (s.length > 1) && s.head? == some '0') && (parseU16 s).any (· ≤ 255)) := by
    unfold isOctet
    cases parseU16 s <;> rfl
  rw [hall, parsedOctetForm, Language.mem_add, signedOctetForm, mem_only_mul, Bool.and_eq_true]
  by_cases hsign : s.head? = some '+'
  · obtain ⟨rest, rfl⟩ := List.head?_eq_some_iff.mp hsign
    rw [parseU16_iff (.inl rfl)]
    have hnot : '+' :: rest ∉ octetForm := fun h => by simpa using h.2.1
    have hrun : rest ∈ digitRun 2 ↔ 1 ≤ rest.length ∧ rest.length ≤ 2 ∧ rest.all Char.isDigit :=
      Iff.rfl
    have hsmall := @decimal_of_short rest
    have hnil : rest ≠ [] ↔ 1 ≤ rest.length := List.length_pos_iff.symm
    simp only [hnot, hrun, hnil, List.head?_cons, List.drop_one, List.tail_cons]
    grind
  · rw [parseU16_iff (.inr ⟨rfl, hsign⟩)]
    have hform : s ∈ octetForm ↔ s ≠ [] ∧ s.all Char.isDigit ∧ decimal s ≤ 255 ∧
      (s.head? = some '0' → s = ['0']) := Iff.rfl
    have hshort := @length_of_decimal s
    simp only [hsign, hform]
    cases s with
    | nil => simp
    | cons c s => grind

/-! ### Addresses -/

theorem mem_quad {part : Language Char} {s : Text} :
    s ∈ quad part ↔
      ∃ octets : List Text, octets.length = 4 ∧ (∀ octet ∈ octets, octet ∈ part) ∧
        ['.'].intercalate octets = s := by
  have hdot {word : Text} {rest : Language Char} :
      word ∈ only '.' * rest ↔ ∃ tail ∈ rest, '.' :: tail = word := by
    rw [mem_only_mul]
    cases word <;> simp [and_comm, eq_comm]
  constructor
  · simp only [quad, mul_assoc, Language.mem_mul (l := part), hdot]
    rintro ⟨a, ha, _, ⟨_, ⟨b, hb, _, ⟨_, ⟨c, hc, _, ⟨d, hd, rfl⟩, rfl⟩, rfl⟩, rfl⟩, rfl⟩, rfl⟩
    exact ⟨[a, b, c, d], rfl, by simp [ha, hb, hc, hd], by simp [List.intercalate]⟩
  · rintro ⟨octets, hlength, hparts, rfl⟩
    match octets, hlength, hparts with
    | [a, b, c, d], _, hparts =>
      have hmark : ['.'] ∈ only '.' := ⟨'.', rfl, rfl⟩
      have hquad : a ++ ['.'] ++ b ++ ['.'] ++ c ++ ['.'] ++ d ∈ quad part := by
        unfold quad
        repeat' refine Language.append_mem_mul ?_ ?_
        all_goals first | exact hmark | exact hparts _ (by simp)
      simpa [List.intercalate] using hquad

/-- The characters of a dotted quad are the dot and those of its octets. -/
theorem mem_intercalate_octets {octets : List Text} (hlength : octets.length = 4) (c : Char) :
    c ∈ ['.'].intercalate octets ↔ c = '.' ∨ ∃ octet ∈ octets, c ∈ octet := by
  match octets, hlength with
  | [w, x, y, z], _ =>
    simp only [List.intercalate, List.intersperse, List.flatten_cons, List.flatten_nil,
      List.mem_append, List.mem_cons]
    grind

theorem char_of_mem_octet {word : Text} (h : word ∈ parsedOctetForm) {c : Char} (hmem : c ∈ word) :
    c.isDigit ∨ c = '+' := by
  rcases h with h | ⟨_, ⟨plus, hplus, rfl⟩, run, hrun, rfl⟩
  · exact .inl (List.all_eq_true.mp h.2.1 c hmem)
  · rcases List.mem_append.mp hmem with hmem | hmem
    · obtain rfl := List.mem_singleton.mp hmem
      exact .inr (beq_iff_eq.mp hplus)
    · exact .inl (List.all_eq_true.mp hrun.2.2 c hmem)

theorem isIpv4_iff (s : Text) : isIpv4 s ↔ s ∈ quad parsedOctetForm := by
  simp only [isIpv4, Bool.and_eq_true, beq_iff_eq, List.all_eq_true, isOctet_iff, mem_quad]
  constructor
  · rintro ⟨hlength, hparts⟩
    exact ⟨s.splitOn '.', hlength, hparts, List.intercalate_splitOn '.'⟩
  · rintro ⟨octets, hlength, hparts, rfl⟩
    have hne : octets ≠ [] := fun hnil => by simp [hnil] at hlength
    have hapart : ∀ octet ∈ octets, '.' ∉ octet := fun octet hmem hdot => by
      simpa using char_of_mem_octet (hparts octet hmem) hdot
    rw [List.splitOn_intercalate '.' hapart hne]
    exact ⟨hlength, hparts⟩

/-- Only the plus sign tells the parsed quads from the addresses of the grammar. -/
theorem mem_quad_octetForm : s ∈ quad octetForm ↔ s ∈ quad parsedOctetForm ∧ '+' ∉ s := by
  rw [mem_quad, mem_quad]
  constructor
  · rintro ⟨octets, hlength, hparts, rfl⟩
    refine ⟨⟨octets, hlength, fun octet hmem => .inl (hparts octet hmem), rfl⟩, ?_⟩
    rw [mem_intercalate_octets hlength]
    rintro (hdot | ⟨octet, hmem, hplus⟩)
    · simp at hdot
    · simpa using List.all_eq_true.mp (hparts octet hmem).2.1 _ hplus
  · rintro ⟨⟨octets, hlength, hparts, rfl⟩, hplus⟩
    refine ⟨octets, hlength, fun octet hmem => ?_, rfl⟩
    rcases hparts octet hmem with h | h
    · exact h
    · obtain ⟨hhead, -⟩ := mem_only_mul.mp h
      have hmem := (mem_intercalate_octets hlength _).mpr
        (.inr ⟨octet, hmem, List.mem_of_head? hhead⟩)
      exact absurd hmem hplus

/-! ### The rules exclude each other -/

theorem char_of_isUuid (h : isUuid s) {c : Char} (hmem : c ∈ s) : c = '-' ∨ isHexDigit c := by
  simp only [isUuid, Bool.and_eq_true, List.all_eq_true] at h
  obtain ⟨i, hi, rfl⟩ := List.mem_iff_getElem.mp hmem
  have hat := h.2 (s[i], i) (by simp [List.mem_zipIdx_iff_getElem?])
  simp only at hat
  split at hat
  · exact .inl (beq_iff_eq.mp hat)
  · exact .inr hat

theorem char_of_isIpv4 (h : isIpv4 s) {c : Char} (hmem : c ∈ s) :
    c.isDigit ∨ c = '+' ∨ c = '.' := by
  obtain ⟨octets, hlength, hparts, rfl⟩ := mem_quad.mp ((isIpv4_iff s).mp h)
  rcases (mem_intercalate_octets hlength c).mp hmem with hdot | ⟨octet, hoctet, hmem⟩
  · exact .inr (.inr hdot)
  · exact (char_of_mem_octet (hparts octet hoctet) hmem).imp_right .inl

/-- Every timestamp has a character that no address has; all but the dates, which
are shorter, have one that no UUID has. -/
theorem mark_of_isTs (h : isTs s) : s.length = 10 ∧ ('-' ∈ s ∨ '/' ∈ s) ∨ ':' ∈ s ∨ 'T' ∈ s := by
  simp only [isTs, isDate, isTime, isDatetime, Bool.or_eq_true, Bool.and_eq_true, beq_iff_eq] at h
  have hmem {i : Nat} {c : Char} (hat : s[i]? = some c) : c ∈ s := List.mem_of_getElem? hat
  rcases h with (⟨⟨⟨⟨⟨hlength, -⟩, hmark⟩, -⟩, -⟩, -⟩ | ⟨⟨⟨⟨⟨-, hmark⟩, -⟩, -⟩, -⟩, -⟩) |
    ⟨⟨-, hmark⟩, -⟩
  · exact .inl ⟨hlength, hmark.imp hmem hmem⟩
  · exact .inr (.inl (hmem hmark))
  · exact .inr (.inr (hmem hmark))

theorem not_isUuid_of_isIpv4 (h : isIpv4 s) : ¬ isUuid s := by
  intro huuid
  obtain ⟨octets, hlength, -, rfl⟩ := mem_quad.mp ((isIpv4_iff s).mp h)
  have hdot := char_of_isUuid huuid ((mem_intercalate_octets hlength '.').mpr (.inl rfl))
  exact absurd hdot (by decide)

theorem not_isUuid_of_isTs (h : isTs s) : ¬ isUuid s := by
  intro huuid
  rcases mark_of_isTs h with ⟨hlength, -⟩ | hmem | hmem
  · simp [isUuid, hlength] at huuid
  · exact absurd (char_of_isUuid huuid hmem) (by decide)
  · exact absurd (char_of_isUuid huuid hmem) (by decide)

theorem not_isIpv4_of_isTs (h : isTs s) : ¬ isIpv4 s := by
  intro hip
  rcases mark_of_isTs h with ⟨-, hmem | hmem⟩ | hmem | hmem <;>
    exact absurd (char_of_isIpv4 hip hmem) (by decide)

/-- Each rule decides its own tag, whatever order they are tried in. -/
theorem classify_eq_some_iff (token : Text) :
    (classify token = some .ip ↔ isIpv4 token) ∧ (classify token = some .uuid ↔ isUuid token) ∧
    (classify token = some .ts ↔ isTs token) ∧
    (classify token = some .num ↔
      ¬ isIpv4 token ∧ ¬ isUuid token ∧ ¬ isTs token ∧ isNum token) := by
  have hip := @not_isUuid_of_isIpv4 token
  have hts := @not_isUuid_of_isTs token
  have hboth := @not_isIpv4_of_isTs token
  unfold classify
  split_ifs <;> simp_all

/-- The masker follows the grammar on every token except the dotted quads with a
plus sign before one of the octets. -/
theorem followsGrammar_iff (token : Text) :
    FollowsGrammar token ↔
      (token ∈ quad (octetForm + signedOctetForm) → '+' ∉ token) := by
  obtain ⟨hip, huuid, hts, hnum⟩ := classify_eq_some_iff token
  have hquad : token ∈ quad (octetForm + signedOctetForm) ↔ isIpv4 token := (isIpv4_iff token).symm
  have hexact := mem_quad_octetForm (s := token)
  rw [← isIpv4_iff] at hexact
  rw [FollowsGrammar, hip, huuid, hts, hnum, hquad, hexact, ← isUuid_iff, ← isTs_iff, ← isNum_iff]
  constructor
  · rintro ⟨hfollows, -⟩ hparsed
    exact (hfollows.mp hparsed).2
  · intro hplain
    have hsame : isIpv4 token ↔ isIpv4 token ∧ '+' ∉ token :=
      ⟨fun hparsed => ⟨hparsed, hplain hparsed⟩, And.left⟩
    exact ⟨hsame, Iff.rfl, Iff.rfl, by rw [← hsame]⟩

theorem signed_quad_masked : ¬ FollowsGrammar "+1.2.3.4".toList := by
  rintro ⟨hfollows, -⟩
  have hmasked : classify "+1.2.3.4".toList = some .ip := by decide +kernel
  exact (mem_quad_octetForm.mp (hfollows.mp hmasked)).2 (by decide)

end Ourios.Miner
