/-
# Masking

`mask.rs` replaces every token that looks like a UUID, an IPv4 address, a
timestamp or a number by a tag and keeps the original as a typed parameter.
The recognisers read bytes in the source; all the bytes they accept are ASCII,
so reading characters accepts exactly the same tokens.

Later code looks a line's mask up by position. The lemmas at the end give that
positional view: the masked token, whether a position was masked, and the type
recorded there are all functions of the original token alone.
-/

import Ourios.Core.Record
import Ourios.Miner.Tokenize

namespace Ourios.Miner

/-- The four things the masker recognises. -/
inductive MaskTag
  | uuid | ip | ts | num
  deriving DecidableEq, Repr

/-- The text that stands for a masked token. -/
def MaskTag.asStr : MaskTag → Text
  | .uuid => "<UUID>".toList
  | .ip => "<IP>".toList
  | .ts => "<TS>".toList
  | .num => "<NUM>".toList

def MaskTag.paramType : MaskTag → ParamType
  | .uuid => .uuid
  | .ip => .ip
  | .ts => .ts
  | .num => .num

/-- The mask text of a parameter type, where the masker emits that type. -/
def tagStrFor : ParamType → Option Text
  | .uuid => some MaskTag.uuid.asStr
  | .ip => some MaskTag.ip.asStr
  | .ts => some MaskTag.ts.asStr
  | .num => some MaskTag.num.asStr
  | _ => none

def isHexDigit (c : Char) : Bool :=
  c.isDigit || ('a' ≤ c && c ≤ 'f') || ('A' ≤ c && c ≤ 'F')

/-- The `8-4-4-4-12` form. -/
def isUuid (s : Text) : Bool :=
  s.length == 36 && s.zipIdx.all fun (c, i) =>
    if i == 8 || i == 13 || i == 18 || i == 23 then c == '-' else isHexDigit c

/-- `str::parse::<u16>`: an optional plus sign, then at least one digit. -/
def parseU16 (s : Text) : Option Nat :=
  let digits := match s with
    | '+' :: rest => rest
    | _ => s
  if digits.isEmpty || !digits.all Char.isDigit then none
  else
    let value := digits.foldl (fun acc c => acc * 10 + (c.toNat - '0'.toNat)) 0
    if value ≤ 65535 then some value else none

def isOctet (octet : Text) : Bool :=
  !octet.isEmpty && octet.length ≤ 3 && !(octet.length > 1 && octet.head? == some '0') &&
    match parseU16 octet with
    | some value => value ≤ 255
    | none => false

/-- Exactly four octets between dots. -/
def isIpv4 (s : Text) : Bool :=
  let octets := s.splitOn '.'
  octets.length == 4 && octets.all isOctet

/-- At least one character, all of them ASCII digits. -/
def isDigits (s : Text) : Bool := !s.isEmpty && s.all Char.isDigit

/-- An optional minus sign, an integer part and an optional fraction. -/
def isNum (s : Text) : Bool :=
  let body := match s with
    | '-' :: rest => rest
    | _ => s
  match body.span (· != '.') with
  | (int, _ :: frac) => isDigits int && isDigits frac
  | (int, []) => isDigits int

def twoDigits (b : Text) (start : Nat) : Option Nat :=
  match (b.drop start).take 2 with
  | [hi, lo] =>
    if hi.isDigit && lo.isDigit then
      some ((hi.toNat - '0'.toNat) * 10 + (lo.toNat - '0'.toNat))
    else none
  | _ => none

/-- `YYYY-MM-DD` or `YYYY/MM/DD`. -/
def isDate (b : Text) : Bool :=
  b.length == 10 && (b.take 4).all Char.isDigit &&
    (b[4]? == some '-' || b[4]? == some '/') && b[7]? == b[4]? &&
    (twoDigits b 5).any (fun m => 1 ≤ m && m ≤ 12) &&
    (twoDigits b 8).any (fun d => 1 ≤ d && d ≤ 31)

/-- Drop a fraction of one to nine digits. -/
def stripFraction (b : Text) : Option Text :=
  match b with
  | c :: rest =>
    if c == '.' || c == ',' then
      let digits := (rest.takeWhile Char.isDigit).length
      if 1 ≤ digits && digits ≤ 9 then some (rest.drop digits) else none
    else some b
  | [] => some b

def isZoneMinutes (b : Text) : Bool :=
  match b with
  | [] => true
  | ':' :: mm => mm.length == 2 && (twoDigits mm 0).any (· ≤ 59)
  | mm => mm.length == 2 && (twoDigits mm 0).any (· ≤ 59)

/-- A zone: nothing, `Z`, or a signed offset. -/
def isZone (b : Text) : Bool :=
  match b with
  | [] => true
  | ['Z'] => true
  | c :: rest =>
    (c == '+' || c == '-') && (twoDigits rest 0).any (· ≤ 23) && isZoneMinutes (rest.drop 2)

/-- A clock time with optional fraction and zone. -/
def isTime (b : Text) : Bool :=
  8 ≤ b.length && (twoDigits b 0).any (· ≤ 23) && b[2]? == some ':' &&
    (twoDigits b 3).any (· ≤ 59) && b[5]? == some ':' && (twoDigits b 6).any (· ≤ 60) &&
    match stripFraction (b.drop 8) with
    | some zone => isZone zone
    | none => false

/-- A date, the letter `T`, and a time. -/
def isDatetime (b : Text) : Bool :=
  10 < b.length && isDate (b.take 10) && b[10]? == some 'T' && isTime (b.drop 11)

/-- Any of the three timestamp forms. -/
def isTs (b : Text) : Bool := isDate b || isTime b || isDatetime b

/-- The first recogniser that accepts a token. Irreducible: only the grammar of the masks
looks at which tokens are recognised. -/
@[irreducible]
def classify (token : Text) : Option MaskTag :=
  if isUuid token then some .uuid
  else if isIpv4 token then some .ip
  else if isTs token then some .ts
  else if isNum token then some .num
  else none

/-- One masked token and its original text. -/
structure TypedParam where
  typeTag : ParamType
  value : Text
  deriving DecidableEq, Repr

/-- A masked line: the tokens with tags in place, the masked positions in
ascending order, and the originals. -/
structure Masked where
  tokens : List Text
  wildcardPositions : List Nat
  typedParams : List TypedParam
  deriving DecidableEq, Repr

/-- The masking pass over the tokens from position `i` on. -/
def maskFrom (i : Nat) : List Text → Masked
  | [] => ⟨[], [], []⟩
  | token :: rest =>
    let later := maskFrom (i + 1) rest
    match classify token with
    | some tag =>
      ⟨tag.asStr :: later.tokens, i :: later.wildcardPositions,
        ⟨tag.paramType, token⟩ :: later.typedParams⟩
    | none => { later with tokens := token :: later.tokens }

def mask (tokens : List Text) : Masked := maskFrom 0 tokens

/-- The type a line's own mask gives a position, `str` where it masked nothing. -/
def paramTypeForLinePosition (p : Nat) (wildcardPositions : List Nat)
    (typedParams : List TypedParam) : ParamType :=
  match wildcardPositions.idxOf? p with
  | some k => (typedParams[k]?.map TypedParam.typeTag).getD .str
  | none => .str

def maskedText (token : Text) : Text :=
  match classify token with
  | some tag => tag.asStr
  | none => token

def maskedType (token : Text) : ParamType :=
  match classify token with
  | some tag => tag.paramType
  | none => .str

theorem tokens_maskFrom (i : Nat) (tokens : List Text) :
    (maskFrom i tokens).tokens = tokens.map maskedText := by
  induction tokens generalizing i with
  | nil => rfl
  | cons token rest ih =>
    cases htag : classify token <;> simp [maskFrom, maskedText, htag, ih]

variable {tokens : List Text}

/-- Every masked position lies in the masked range. -/
theorem le_of_mem_wildcardPositions {i p : Nat} (h : p ∈ (maskFrom i tokens).wildcardPositions) :
    i ≤ p ∧ p < i + tokens.length := by
  induction tokens generalizing i with
  | nil => simp [maskFrom] at h
  | cons token rest ih =>
    cases htag : classify token with
    | none =>
      have later := ih (i := i + 1) (by simpa [maskFrom, htag] using h)
      simp only [List.length_cons]
      omega
    | some tag =>
      simp only [maskFrom, htag, List.mem_cons] at h
      simp only [List.length_cons]
      rcases h with rfl | h
      · omega
      · have later := ih h
        omega

theorem mem_wildcardPositions_maskFrom (i p : Nat) (tokens : List Text) :
    i + p ∈ (maskFrom i tokens).wildcardPositions ↔
      ∃ token, tokens[p]? = some token ∧ (classify token).isSome := by
  induction tokens generalizing i p with
  | nil => simp [maskFrom]
  | cons token rest ih =>
    have notLater : i ∉ (maskFrom (i + 1) rest).wildcardPositions := fun hmem =>
      absurd (le_of_mem_wildcardPositions hmem).1 (by omega)
    cases p with
    | zero => cases htag : classify token <;> simp [maskFrom, htag, notLater]
    | succ p =>
      have shift : i + (p + 1) = i + 1 + p := by omega
      have hne : i + 1 + p ≠ i := by omega
      cases htag : classify token <;> simp [maskFrom, htag, shift, ih, hne]

theorem paramTypeForLinePosition_maskFrom (i p : Nat) {token : Text} (h : tokens[p]? = some token) :
    paramTypeForLinePosition (i + p) (maskFrom i tokens).wildcardPositions
      (maskFrom i tokens).typedParams = maskedType token := by
  induction tokens generalizing i p with
  | nil => simp at h
  | cons first rest ih =>
    cases p with
    | zero =>
      obtain rfl : first = token := by simpa using h
      have notLater : i ∉ (maskFrom (i + 1) rest).wildcardPositions := fun hmem =>
        absurd (le_of_mem_wildcardPositions hmem).1 (by omega)
      cases htag : classify first with
      | none =>
        have hnone : (maskFrom (i + 1) rest).wildcardPositions.idxOf? i = none := by
          simpa using notLater
        simp [paramTypeForLinePosition, maskFrom, htag, maskedType, hnone]
      | some tag =>
        simp [paramTypeForLinePosition, maskFrom, htag, maskedType, List.idxOf?_cons]
    | succ p =>
      have later := ih (i + 1) p (by simpa using h)
      have shift : i + (p + 1) = i + 1 + p := by omega
      rw [shift]
      cases htag : classify first with
      | none => simpa [maskFrom, htag] using later
      | some tag =>
        have hne : (i == i + 1 + p) = false := by simp; omega
        rw [← later]
        simp only [paramTypeForLinePosition, maskFrom, htag, List.idxOf?_cons, hne]
        cases (maskFrom (i + 1) rest).wildcardPositions.idxOf? (i + 1 + p) <;> simp

/-- The masked tokens are the original ones with each recognised token replaced
by its tag. -/
@[simp]
theorem tokens_mask (tokens : List Text) : (mask tokens).tokens = tokens.map maskedText :=
  tokens_maskFrom 0 tokens

theorem mem_wildcardPositions_mask (p : Nat) (tokens : List Text) :
    p ∈ (mask tokens).wildcardPositions ↔
      ∃ token, tokens[p]? = some token ∧ (classify token).isSome := by
  simpa [mask] using mem_wildcardPositions_maskFrom 0 p tokens

theorem paramTypeForLinePosition_mask (p : Nat) {token : Text} (h : tokens[p]? = some token) :
    paramTypeForLinePosition p (mask tokens).wildcardPositions (mask tokens).typedParams =
      maskedType token := by
  simpa [mask] using paramTypeForLinePosition_maskFrom 0 p h

end Ourios.Miner
