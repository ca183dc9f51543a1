/-
# Buffers laid out by patches

A buffer of fixed length is filled by patches, each a piece at a position. Where the
patches lie apart, each piece reads back from where it was put, and what no patch covers
is as it was.
-/

import Mathlib

namespace Ourios.Foundation

universe u

variable {α : Type u}

/-- The part of a buffer of some size from a position on. -/
def slice (buffer : List α) (start size : ℕ) : List α := (buffer.drop start).take size

/-- A buffer with a piece put over what was there. -/
def overwrite (buffer : List α) (start : ℕ) (piece : List α) : List α :=
  buffer.take start ++ (piece ++ buffer.drop (start + piece.length))

theorem getElem?_slice (buffer : List α) (start size i : ℕ) :
    (slice buffer start size)[i]? = if i < size then buffer[start + i]? else none := by
  unfold slice
  rw [List.getElem?_take]
  split
  · rw [List.getElem?_drop]
  · rfl

variable {buffer front back : List α} {start size : ℕ}

theorem length_slice (h : start + size ≤ buffer.length) :
    (slice buffer start size).length = size := by
  unfold slice
  rw [List.length_take, List.length_drop]
  omega

theorem length_slice_le (buffer : List α) (start size : ℕ) :
    (slice buffer start size).length ≤ size := by
  unfold slice
  rw [List.length_take]
  exact Nat.min_le_left _ _

theorem slice_slice {inner len : ℕ} (h : inner + len ≤ size) :
    slice (slice buffer start size) inner len = slice buffer (start + inner) len := by
  apply List.ext_getElem?
  intro i
  rw [getElem?_slice, getElem?_slice, getElem?_slice]
  split
  · rw [if_pos (by omega), Nat.add_assoc]
  · rfl

theorem slice_append_left (h : start + size ≤ front.length) :
    slice (front ++ back) start size = slice front start size := by
  apply List.ext_getElem?
  intro i
  rw [getElem?_slice, getElem?_slice]
  split
  · rw [List.getElem?_append_left (by omega)]
  · rfl

theorem slice_append_right (h : front.length ≤ start) :
    slice (front ++ back) start size = slice back (start - front.length) size := by
  apply List.ext_getElem?
  intro i
  rw [getElem?_slice, getElem?_slice]
  split
  · rw [List.getElem?_append_right (by omega)]
    congr 1
    omega
  · rfl

theorem slice_self (buffer : List α) : slice buffer 0 buffer.length = buffer := by
  unfold slice
  rw [List.drop_zero, List.take_length]

theorem slice_append_self (h : front.length = size) :
    slice (front ++ back) 0 size = front := by
  subst h
  rw [slice_append_left (Nat.le_of_eq (Nat.zero_add _)), slice_self]

/-- A piece between others is read at its place. -/
theorem slice_between (front piece back : List α) (h : buffer = front ++ (piece ++ back))
    (hstart : front.length = start) (hsize : piece.length = size) :
    slice buffer start size = piece := by
  subst h
  rw [slice_append_right (Nat.le_of_eq hstart), hstart, Nat.sub_self, slice_append_self hsize]

/-- A field of a buffer that is laid out field after field is read at its place. -/
theorem slice_field {fields : List (List α)} (h : buffer = fields.flatten ++ back) (k : ℕ)
    {piece : List α} (hk : fields[k]? = some piece := by rfl)
    (hstart : ((fields.take k).map List.length).sum = start := by rfl)
    (hsize : piece.length = size := by rfl) :
    slice buffer start size = piece := by
  obtain ⟨hlt, rfl⟩ := List.getElem?_eq_some_iff.mp hk
  refine slice_between (fields.take k).flatten fields[k] ((fields.drop (k + 1)).flatten ++ back)
    ?_ (by rw [List.length_flatten, hstart]) hsize
  rw [h, ← List.append_assoc fields[k], ← List.flatten_cons, ← List.drop_eq_getElem_cons hlt,
    ← List.append_assoc, ← List.flatten_append, List.take_append_drop]

/-- A buffer from a position on starts with what is read there. -/
theorem drop_eq_append {block : List α} (h : slice buffer start size = block) :
    buffer.drop start = block ++ (buffer.drop start).drop size := by
  rw [← h]
  exact (List.take_append_drop size (buffer.drop start)).symm

theorem slice_add (buffer : List α) (start first second : ℕ) :
    slice buffer start (first + second) =
      slice buffer start first ++ slice buffer (start + first) second := by
  unfold slice
  rw [List.take_add, List.drop_drop]

/-- Blocks that follow each other and hold one value make one block of it. -/
theorem slice_blocks {count : ℕ} {a : α}
    (h : ∀ k < count, slice buffer (start + size * k) size = List.replicate size a) :
    slice buffer start (size * count) = List.replicate (size * count) a := by
  induction count with
  | zero =>
    exact List.take_zero
  | succ count ih =>
    have hinit := ih fun k hk => h k (Nat.lt_succ_of_lt hk)
    rw [Nat.mul_succ, slice_add, hinit, h count (Nat.lt_succ_self count),
      List.replicate_append_replicate]

theorem slice_replicate {n : ℕ} {a : α} (h : start + size ≤ n) :
    slice (List.replicate n a) start size = List.replicate size a := by
  unfold slice
  rw [List.drop_replicate, List.take_replicate]
  congr 1
  omega

/-- Reading every position in order, past the end included, lists the buffer. -/
theorem flatMap_range_getElem? {n : ℕ} (h : buffer.length ≤ n) :
    (List.range n).flatMap (fun i => buffer[i]?.toList) = buffer := by
  induction buffer generalizing n with
  | nil =>
    rw [List.flatMap_eq_nil_iff]
    intro i _
    rfl
  | cons first rest ih =>
    obtain ⟨m, rfl⟩ := Nat.exists_eq_succ_of_ne_zero (Nat.ne_of_gt (Nat.lt_of_lt_of_le
      (Nat.succ_pos rest.length) h))
    rw [List.range_succ_eq_map, List.flatMap_cons, List.flatMap_map]
    exact congrArg (first :: ·) (ih (Nat.le_of_succ_le_succ h))

section Overwrite

variable {buffer piece : List α} {start : ℕ}

section

variable (h : start + piece.length ≤ buffer.length)
include h

theorem length_overwrite : (overwrite buffer start piece).length = buffer.length := by
  unfold overwrite
  rw [List.length_append, List.length_append, List.length_take, List.length_drop]
  omega

theorem slice_overwrite_self : slice (overwrite buffer start piece) start piece.length = piece := by
  have hlength : (buffer.take start).length = start := by
    rw [List.length_take]
    omega
  unfold overwrite
  rw [slice_append_right (by omega), hlength, Nat.sub_self, slice_append_left (by omega),
    slice_self]

/-- What lies apart from the piece is as it was. -/
theorem slice_overwrite_apart {other size : ℕ}
    (happart : other + size ≤ start ∨ start + piece.length ≤ other) :
    slice (overwrite buffer start piece) other size = slice buffer other size := by
  have hlength : (buffer.take start).length = start := by
    rw [List.length_take]
    omega
  apply List.ext_getElem?
  intro i
  rw [getElem?_slice, getElem?_slice]
  split
  · unfold overwrite
    rcases happart with hbefore | hafter
    · rw [List.getElem?_append_left (by omega), List.getElem?_take, if_pos (by omega)]
    · rw [List.getElem?_append_right (by omega), List.getElem?_append_right (by omega),
        List.getElem?_drop, hlength]
      congr 1
      omega
  · rfl

end

/-- Putting a piece where it already is changes nothing. -/
theorem overwrite_slice (size : ℕ) (h : start + size ≤ buffer.length) :
    overwrite buffer start (slice buffer start size) = buffer := by
  unfold overwrite
  rw [length_slice h, slice, ← List.drop_drop, List.take_append_drop, List.take_append_drop]

end Overwrite

/-- A piece and where it goes. -/
structure Patch (α : Type u) where
  start : ℕ
  piece : List α

namespace Patch

/-- The patch lies in a buffer of some length. -/
def Within (length : ℕ) (patch : Patch α) : Prop := patch.start + patch.piece.length ≤ length

/-- Two patches have no position in common. -/
def Apart (first second : Patch α) : Prop :=
  first.start + first.piece.length ≤ second.start ∨
    second.start + second.piece.length ≤ first.start

/-- A buffer with patches put on it, one after the other. -/
def applyAll (buffer : List α) (patches : List (Patch α)) : List α :=
  patches.foldl (fun buffer patch => overwrite buffer patch.start patch.piece) buffer

variable {buffer : List α} {patches : List (Patch α)}

theorem Within.later {first : Patch α} (hfirst : first.Within buffer.length)
    (h : ∀ patch ∈ patches, patch.Within buffer.length) :
    ∀ patch ∈ patches, patch.Within (overwrite buffer first.start first.piece).length := by
  rwa [length_overwrite hfirst]

variable (h : ∀ patch ∈ patches, patch.Within buffer.length)
include h

theorem length_applyAll : (applyAll buffer patches).length = buffer.length := by
  induction patches generalizing buffer with
  | nil => rfl
  | cons patch patches ih =>
    obtain ⟨hwithin, hrest⟩ := List.forall_mem_cons.mp h
    exact (ih (hwithin.later hrest)).trans (length_overwrite hwithin)

/-- What no patch covers is as it was. -/
theorem slice_applyAll_apart {start size : ℕ}
    (happart : ∀ patch ∈ patches, start + size ≤ patch.start ∨
      patch.start + patch.piece.length ≤ start) :
    slice (applyAll buffer patches) start size = slice buffer start size := by
  induction patches generalizing buffer with
  | nil => rfl
  | cons patch patches ih =>
    obtain ⟨hwithin, hrest⟩ := List.forall_mem_cons.mp h
    obtain ⟨hfirst, hlater⟩ := List.forall_mem_cons.mp happart
    exact (ih (hwithin.later hrest) hlater).trans (slice_overwrite_apart hwithin hfirst)

/-- A piece reads back where every patch lies apart from it or puts it there again. -/
theorem slice_applyAll_agree {window : Patch α} (hmem : window ∈ patches)
    (hagree : ∀ patch ∈ patches, patch = window ∨ patch.Apart window) :
    slice (applyAll buffer patches) window.start window.piece.length = window.piece := by
  induction patches generalizing buffer with
  | nil => cases hmem
  | cons first patches ih =>
    obtain ⟨hwithin, hrest⟩ := List.forall_mem_cons.mp h
    replace hrest := hwithin.later hrest
    have hlater := (List.forall_mem_cons.mp hagree).2
    by_cases hagain : window ∈ patches
    · exact ih hrest hagain hlater
    · -- the window is the first patch, and no later one touches it
      have hfirst : first = window := by
        rcases List.mem_cons.mp hmem with heq | hother
        · exact heq.symm
        · exact absurd hother hagain
      subst hfirst
      have hkept : slice (applyAll (overwrite buffer first.start first.piece) patches)
          first.start first.piece.length =
            slice (overwrite buffer first.start first.piece) first.start first.piece.length := by
        apply slice_applyAll_apart hrest
        intro patch hpatch
        rcases hlater patch hpatch with rfl | hapart
        · exact absurd hpatch hagain
        · exact hapart.symm
      exact hkept.trans (slice_overwrite_self hwithin)

end Patch

end Ourios.Foundation
