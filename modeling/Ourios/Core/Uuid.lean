/-
# UUIDs

A UUID is a 128-bit number. Its hyphenated form is 32 lower-case hexadecimal digits,
most significant first, in groups of 8, 4, 4, 4 and 12. The form determines the number,
and its first character is a hexadecimal digit.
-/

import Ourios.Core.Text

namespace Ourios

/-- A UUID as the 128-bit number its text orders by. -/
abbrev Uuid := Fin (2 ^ 128)

instance Uuid.neZero : NeZero (2 ^ 128) := ⟨by decide⟩

instance : LawfulBEq Uuid := inferInstance

/-- The last `width` hexadecimal digits of a number, most significant first. -/
def hexDigits : Nat → Nat → Text
  | 0, _ => []
  | width + 1, value => Nat.digitChar (value / 16 ^ width % 16) :: hexDigits width value

def hexDigitValue (c : Char) : Nat :=
  if c.toNat < 'a'.toNat then c.toNat - '0'.toNat else c.toNat - 'a'.toNat + 10

/-- The number a list of hexadecimal digits denotes, after the digits of `high`. -/
def hexValue (high : Nat) (digits : Text) : Nat :=
  digits.foldl (fun value c => 16 * value + hexDigitValue c) high

/-- The hyphenated form, as a UUID is displayed. -/
def Uuid.hyphenated (uuid : Uuid) : Text :=
  let digits := hexDigits 32 uuid.val
  digits.take 8 ++ '-' :: ((digits.drop 8).take 4 ++ '-' :: ((digits.drop 12).take 4 ++
    '-' :: ((digits.drop 16).take 4 ++ '-' :: digits.drop 20)))

def Uuid.ofHyphenated (text : Text) : Uuid :=
  Fin.ofNat (2 ^ 128) (hexValue 0 (text.filter (· ≠ '-')))

/-! ## The form determines the number -/

theorem length_hexDigits (width value : Nat) : (hexDigits width value).length = width := by
  induction width with
  | zero => rfl
  | succ width ih => rw [hexDigits, List.length_cons, ih]

theorem exists_of_mem_hexDigits {width value : Nat} {c : Char} (h : c ∈ hexDigits width value) :
    ∃ digit < 16, c = Nat.digitChar digit := by
  induction width with
  | zero => cases h
  | succ width ih =>
    rcases List.mem_cons.mp h with rfl | htail
    · exact ⟨_, Nat.mod_lt _ (by decide), rfl⟩
    · exact ih htail

theorem hexDigitValue_digitChar : ∀ digit < 16, hexDigitValue (Nat.digitChar digit) = digit := by
  decide

theorem digitChar_ne_hyphen : ∀ digit < 16, Nat.digitChar digit ≠ '-' := by
  decide

theorem digitChar_lt_m : ∀ digit < 16, Nat.digitChar digit < 'm' := by
  decide

theorem hexValue_hexDigits (high width value : Nat) :
    hexValue high (hexDigits width value) = high * 16 ^ width + value % 16 ^ width := by
  induction width generalizing high with
  | zero => simp [hexDigits, hexValue, Nat.mod_one]
  | succ width ih =>
    have hdigit := hexDigitValue_digitChar (value / 16 ^ width % 16) (Nat.mod_lt _ (by decide))
    have hsplit : value % 16 ^ (width + 1) =
        value % 16 ^ width + 16 ^ width * (value / 16 ^ width % 16) := by
      rw [pow_succ, Nat.mod_mul]
    calc hexValue high (hexDigits (width + 1) value)
        = hexValue (16 * high + value / 16 ^ width % 16) (hexDigits width value) := by
          rw [hexDigits, hexValue, List.foldl_cons, hdigit, hexValue]
      _ = (16 * high + value / 16 ^ width % 16) * 16 ^ width + value % 16 ^ width := ih _
      _ = high * 16 ^ (width + 1) + value % 16 ^ (width + 1) := by
          rw [hsplit]
          ring

theorem filter_hexDigits (width value : Nat) :
    (hexDigits width value).filter (· ≠ '-') = hexDigits width value := by
  apply List.filter_eq_self.mpr
  intro c hc
  obtain ⟨digit, hdigit, rfl⟩ := exists_of_mem_hexDigits hc
  simp [digitChar_ne_hyphen digit hdigit]

/-- Without its hyphens the form is the 32 digits. -/
theorem Uuid.filter_hyphenated (uuid : Uuid) :
    uuid.hyphenated.filter (· ≠ '-') = hexDigits 32 uuid.val := by
  have hjoin : hexDigits 32 uuid.val =
      (hexDigits 32 uuid.val).take 8 ++ (((hexDigits 32 uuid.val).drop 8).take 4 ++
        (((hexDigits 32 uuid.val).drop 12).take 4 ++
          (((hexDigits 32 uuid.val).drop 16).take 4 ++ (hexDigits 32 uuid.val).drop 20))) := by
    rw [← List.drop_drop (i := 4) (j := 16), List.take_append_drop,
      ← List.drop_drop (i := 4) (j := 12), List.take_append_drop,
      ← List.drop_drop (i := 4) (j := 8), List.take_append_drop, List.take_append_drop]
  have hfilter := filter_hexDigits 32 uuid.val
  rw [hjoin] at hfilter
  simp only [List.filter_append] at hfilter
  rw [hyphenated]
  simp only [List.filter_append, List.filter_cons, ne_eq, not_true_eq_false, decide_false,
    Bool.false_eq_true, if_false]
  exact hfilter

@[simp] theorem Uuid.ofHyphenated_hyphenated (uuid : Uuid) :
    Uuid.ofHyphenated uuid.hyphenated = uuid := by
  have hmod : uuid.val % 16 ^ 32 = uuid.val := by
    apply Nat.mod_eq_of_lt
    calc uuid.val < 2 ^ 128 := uuid.isLt
      _ = 16 ^ 32 := by norm_num
  apply Fin.ext
  rw [ofHyphenated, filter_hyphenated, hexValue_hexDigits, Fin.val_ofNat, zero_mul, zero_add, hmod]
  exact Nat.mod_eq_of_lt uuid.isLt

theorem Uuid.hyphenated_injective : Function.Injective Uuid.hyphenated :=
  Function.LeftInverse.injective ofHyphenated_hyphenated

/-- The form starts with a hexadecimal digit. -/
theorem Uuid.hyphenated_eq_cons (uuid : Uuid) :
    ∃ digit rest, digit < 16 ∧ uuid.hyphenated = Nat.digitChar digit :: rest :=
  ⟨uuid.val / 16 ^ 31 % 16, _, Nat.mod_lt _ (by decide), rfl⟩

/-- The characters of the form are hexadecimal digits and hyphens. -/
theorem Uuid.mem_hyphenated {uuid : Uuid} {c : Char} (h : c ∈ uuid.hyphenated) :
    c = '-' ∨ ∃ digit < 16, c = Nat.digitChar digit := by
  by_cases hhyphen : c = '-'
  · exact .inl hhyphen
  · have hdigit : c ∈ hexDigits 32 uuid.val := by
      rw [← filter_hyphenated]
      exact List.mem_filter.mpr ⟨h, by simpa using hhyphen⟩
    exact .inr (exists_of_mem_hexDigits hdigit)

end Ourios
