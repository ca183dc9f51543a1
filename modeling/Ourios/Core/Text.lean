/-
# Text

A Rust `String` is a sequence of Unicode scalar values. Text is modelled as a
list of characters, which Lean's `Char` matches one for one; the byte length of
the UTF-8 encoding is recovered from the width of each character.
-/

import Mathlib

namespace Ourios

/-- The contents of a Rust string. -/
abbrev Text := List Char

instance : LawfulBEq Text := inferInstance

/-- The length of the UTF-8 encoding, Rust's `str::len`. -/
def Text.byteLen (text : Text) : Nat := (text.map Char.utf8Size).sum

/-- Decimal digits of a natural number, as `format!` prints it. -/
def Text.ofNat (n : Nat) : Text := Nat.toDigits 10 n

def u64Max : Nat := 2 ^ 64 - 1

/-- Drop an optional plus sign. -/
def unsigned : Text → Text
  | '+' :: digits => digits
  | digits => digits

/-- Rust's `str::parse` at `u64`: digits after an optional plus sign. -/
def parseU64 (text : Text) : Option Nat :=
  let digits := unsigned text
  if digits ≠ [] ∧ digits.all Char.isDigit ∧ Nat.ofDigitChars 10 digits 0 ≤ u64Max then
    some (Nat.ofDigitChars 10 digits 0)
  else none

/-- The UTF-8 encoding, Rust's `str::as_bytes`. -/
def Text.toUtf8 (text : Text) : List UInt8 := text.flatMap String.utf8EncodeChar

/-- The text of UTF-8 bytes, Rust's `str::from_utf8`. -/
def Text.fromUtf8 (bytes : List UInt8) : Option Text :=
  bytes.toByteArray.utf8Decode?.map Array.toList

theorem Text.fromUtf8_toUtf8 (text : Text) : Text.fromUtf8 text.toUtf8 = some text := by
  have hdecode : (Text.toUtf8 text).toByteArray.utf8Decode? = some text.toArray :=
    List.utf8Decode?_utf8Encode
  unfold Text.fromUtf8
  rw [hdecode]
  rfl

theorem Text.toUtf8_of_fromUtf8 {bytes : List UInt8} {text : Text}
    (h : Text.fromUtf8 bytes = some text) : text.toUtf8 = bytes := by
  obtain ⟨chars, hchars, rfl⟩ := Option.map_eq_some_iff.mp h
  have hsome : bytes.toByteArray.utf8Decode?.isSome = true := by
    rw [hchars]
    rfl
  have hencode := ByteArray.utf8Encode_get_utf8Decode? (h := hsome)
  simp only [hchars, Option.get_some] at hencode
  exact List.toByteArray_inj.mp hencode

end Ourios
