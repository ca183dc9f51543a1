/-
# Fixed-width numbers in bytes

A number written in a fixed number of bytes reads back unchanged whenever it fits,
in little-endian and in big-endian order, and a read of an exact number of bytes
either takes them off the front or finds too few.
-/

import Mathlib.Data.List.Basic
import Mathlib.Tactic.Ring

namespace Ourios.Foundation

/-- The low `width` bytes of a number, least significant first. -/
def leBytes : Nat → Nat → List UInt8
  | 0, _ => []
  | width + 1, value => UInt8.ofNat value :: leBytes width (value / 256)

def ofLeBytes : List UInt8 → Nat
  | [] => 0
  | byte :: bytes => byte.toNat + 256 * ofLeBytes bytes

/-- The low `width` bytes of a number, most significant first. -/
def beBytes (width value : Nat) : List UInt8 := (leBytes width value).reverse

def ofBeBytes (bytes : List UInt8) : Nat := ofLeBytes bytes.reverse

@[simp] theorem length_leBytes (width value : Nat) : (leBytes width value).length = width := by
  induction width generalizing value with
  | zero => rfl
  | succ width ih => simp [leBytes, ih]

@[simp] theorem length_beBytes (width value : Nat) : (beBytes width value).length = width := by
  simp [beBytes]

theorem ofLeBytes_leBytes {width value : Nat} (h : value < 256 ^ width) :
    ofLeBytes (leBytes width value) = value := by
  induction width generalizing value with
  | zero =>
    have : value = 0 := by simpa using h
    simp [leBytes, ofLeBytes, this]
  | succ width ih =>
    have hdiv : value / 256 < 256 ^ width := by
      apply Nat.div_lt_of_lt_mul
      calc value < 256 ^ (width + 1) := h
        _ = 256 * 256 ^ width := by ring
    have hbyte : (UInt8.ofNat value).toNat = value % 256 := by simp
    rw [leBytes, ofLeBytes, ih hdiv, hbyte]
    omega

theorem ofLeBytes_lt (bytes : List UInt8) : ofLeBytes bytes < 256 ^ bytes.length := by
  induction bytes with
  | nil => decide
  | cons byte bytes ih =>
    have hbyte : byte.toNat < 256 := byte.toNat_lt
    rw [ofLeBytes, List.length_cons, Nat.pow_succ]
    omega

theorem ofBeBytes_beBytes {width value : Nat} (h : value < 256 ^ width) :
    ofBeBytes (beBytes width value) = value := by
  simp [ofBeBytes, beBytes, ofLeBytes_leBytes h]

/-- Take exactly `count` bytes off the front, or nothing when there are fewer. -/
def readExact (count : Nat) (bytes : List UInt8) : Option (List UInt8 × List UInt8) :=
  if count ≤ bytes.length then some (bytes.take count, bytes.drop count) else none

variable {count : Nat}

theorem readExact_append {front : List UInt8} (h : front.length = count) (rest : List UInt8) :
    readExact count (front ++ rest) = some (front, rest) := by
  subst h
  simp [readExact]

theorem readExact_eq_none {bytes : List UInt8} (h : bytes.length < count) :
    readExact count bytes = none := by
  simp [readExact, h]

theorem length_of_readExact {bytes front rest : List UInt8}
    (h : readExact count bytes = some (front, rest)) : front.length = count := by
  unfold readExact at h
  split at h
  · rename_i hlong
    cases h
    exact List.length_take_of_le hlong
  · cases h

end Ourios.Foundation
