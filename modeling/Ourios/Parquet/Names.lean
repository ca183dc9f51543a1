/-
# File names of a partition

A writer names a flush file by its uuid; a compaction adds the generation it writes for.
`compacted_generation` (`manifest.rs`) reads that generation back and takes nothing else
for a compacted file. Data files are named by hexadecimal digits first, so every one of
them sorts before the partition's manifest.
-/

import Ourios.Core.Uuid

namespace Ourios.Parquet

def manifestFilename : Text := "manifest.json".toList

def parquetSuffix : Text := ".parquet".toList

variable (uuid : Uuid)

def flushName : Text := uuid.hyphenated ++ parquetSuffix

def compactedName (generation : Nat) : Text :=
  uuid.hyphenated ++ (".g".toList ++ (Text.ofNat generation ++ parquetSuffix))

def stripSuffix (suffix text : Text) : Option Text :=
  if suffix.isSuffixOf text then some (text.take (text.length - suffix.length)) else none

/-- Rust's `str::rsplit_once`: cut at the last occurrence. -/
def rsplitOnce (separator : Text) : Text → Option (Text × Text)
  | [] => none
  | c :: text =>
    match rsplitOnce separator text with
    | some cut => some (c :: cut.1, cut.2)
    | none =>
      if separator.isPrefixOf (c :: text) then some ([], (c :: text).drop separator.length)
      else none

/-- The generation a compaction output was written for; none for any other name. -/
def compactedGeneration (name : Text) : Option Nat := do
  let stem ← stripSuffix parquetSuffix name
  let cut ← rsplitOnce ".g".toList stem
  let generation ← parseU64 cut.2
  if (Uuid.ofHyphenated cut.1).hyphenated = cut.1 ∧ cut.2 = Text.ofNat generation then
    some generation
  else none

/-- A committed data file, by its extension. -/
def isCommittedParquet (name : Text) : Bool := parquetSuffix.isSuffixOf name

/-- One ordinary path component with the extension of data files. As `Path::components`
does, empty and `.` components after the first are passed over, so a trailing slash is. -/
def isPartitionLocalParquet (name : Text) : Bool :=
  match name.splitOn '/' with
  | [] => false
  | file :: rest =>
    rest.all (fun part => part.isEmpty || part == ['.']) && isCommittedParquet file &&
      file != parquetSuffix

/-! ## Reading names back -/

theorem stripSuffix_append (stem suffix : Text) :
    stripSuffix suffix (stem ++ suffix) = some stem := by
  have hsuffix : suffix.isSuffixOf (stem ++ suffix) = true :=
    List.isSuffixOf_iff_suffix.mpr (List.suffix_append _ _)
  rw [stripSuffix, if_pos hsuffix, List.length_append, Nat.add_sub_cancel, List.take_left]

theorem rsplitOnce_eq_none {text : Text} (h : '.' ∉ text) :
    rsplitOnce ".g".toList text = none := by
  induction text with
  | nil => rfl
  | cons c text ih =>
    have htail : '.' ∉ text := fun hmem => h (List.mem_cons_of_mem _ hmem)
    have hhead : '.' ≠ c := fun heq => h (heq ▸ List.mem_cons_self)
    rw [rsplitOnce, ih htail]
    simp [List.isPrefixOf, hhead]

theorem rsplitOnce_append {after : Text} (h : '.' ∉ after) (before : Text) :
    rsplitOnce ".g".toList (before ++ (".g".toList ++ after)) = some (before, after) := by
  induction before with
  | nil =>
    have htail : rsplitOnce ".g".toList ('g' :: after) = none := by
      apply rsplitOnce_eq_none
      simpa using h
    have hcut : ".g".toList ++ after = '.' :: 'g' :: after := rfl
    rw [List.nil_append, hcut, rsplitOnce, htail]
    simp [List.isPrefixOf]
  | cons c before ih =>
    rw [List.cons_append, rsplitOnce, ih]

theorem isDigit_of_mem_ofNat {n : Nat} {c : Char} (h : c ∈ Text.ofNat n) : c.isDigit = true :=
  Nat.isDigit_of_mem_toDigits (by decide) (by decide) h

theorem ofNat_ne_nil (n : Nat) : Text.ofNat n ≠ [] := Nat.toDigits_ne_nil

theorem parseU64_ofNat {n : Nat} (h : n ≤ u64Max) : parseU64 (Text.ofNat n) = some n := by
  have hvalue : Nat.ofDigitChars 10 (Text.ofNat n) 0 = n :=
    Nat.ofDigitChars_toDigits (by decide) (by decide)
  have hdigits : (Text.ofNat n).all Char.isDigit = true :=
    List.all_eq_true.mpr fun c hc => isDigit_of_mem_ofNat hc
  have hsign : unsigned (Text.ofNat n) = Text.ofNat n := by
    unfold unsigned
    split
    · rename_i digits heq
      have hplus : '+' ∈ Text.ofNat n := heq ▸ List.mem_cons_self
      cases isDigit_of_mem_ofNat hplus
    · rfl
  rw [parseU64, hsign, hvalue]
  exact if_pos ⟨ofNat_ne_nil n, hdigits, h⟩

theorem notMem_dot_ofNat (n : Nat) : '.' ∉ Text.ofNat n := by
  intro h
  cases isDigit_of_mem_ofNat h

theorem notMem_hyphenated {c : Char} (hhyphen : c ≠ '-')
    (hdigit : ∀ digit < 16, c ≠ Nat.digitChar digit) (uuid : Uuid) : c ∉ uuid.hyphenated := by
  intro h
  rcases Uuid.mem_hyphenated h with heq | ⟨digit, hlt, heq⟩
  · exact hhyphen heq
  · exact hdigit digit hlt heq

theorem notMem_dot_hyphenated : '.' ∉ uuid.hyphenated :=
  notMem_hyphenated (by decide) (by decide) uuid

theorem notMem_slash_hyphenated : '/' ∉ uuid.hyphenated :=
  notMem_hyphenated (by decide) (by decide) uuid

/-- The generation a compaction put in a name reads back. -/
theorem compactedGeneration_compactedName {generation : Nat} (h : generation ≤ u64Max) :
    compactedGeneration (compactedName uuid generation) = some generation := by
  have hname : compactedName uuid generation =
      (uuid.hyphenated ++ (".g".toList ++ Text.ofNat generation)) ++ parquetSuffix := by
    simp [compactedName]
  have hcut := rsplitOnce_append (notMem_dot_ofNat generation) uuid.hyphenated
  rw [compactedGeneration, hname, stripSuffix_append, Option.bind_eq_bind, Option.bind_some, hcut]
  simp [parseU64_ofNat h]

/-- A flush file is not taken for a compacted one. -/
theorem compactedGeneration_flushName : compactedGeneration (flushName uuid) = none := by
  rw [compactedGeneration, flushName, stripSuffix_append, Option.bind_eq_bind, Option.bind_some,
    rsplitOnce_eq_none (notMem_dot_hyphenated uuid)]
  rfl

theorem isCommittedParquet_flushName : isCommittedParquet (flushName uuid) = true :=
  List.isSuffixOf_iff_suffix.mpr (List.suffix_append _ _)

theorem isCommittedParquet_compactedName (generation : Nat) :
    isCommittedParquet (compactedName uuid generation) = true := by
  apply List.isSuffixOf_iff_suffix.mpr
  exact ⟨uuid.hyphenated ++ (".g".toList ++ Text.ofNat generation), by simp [compactedName]⟩

/-! ## Names tell files apart -/

theorem Uuid.length_hyphenated : uuid.hyphenated.length = 36 := by
  simp [Uuid.hyphenated, length_hexDigits]

theorem take_flushName : (flushName uuid).take 36 = uuid.hyphenated := by
  rw [flushName, ← Uuid.length_hyphenated uuid, List.take_left]

theorem take_compactedName (generation : Nat) :
    (compactedName uuid generation).take 36 = uuid.hyphenated := by
  rw [compactedName, ← Uuid.length_hyphenated uuid, List.take_left]

/-! ## Order of the keys -/

theorem lt_manifestFilename (rest : Text) : uuid.hyphenated ++ rest < manifestFilename := by
  obtain ⟨digit, tail, hdigit, heq⟩ := uuid.hyphenated_eq_cons
  have hmanifest : manifestFilename = 'm' :: "anifest.json".toList := rfl
  rw [heq, hmanifest, List.cons_append]
  exact List.Lex.rel (digitChar_lt_m digit hdigit)

theorem flushName_lt_manifestFilename : flushName uuid < manifestFilename :=
  lt_manifestFilename uuid parquetSuffix

theorem compactedName_lt_manifestFilename (generation : Nat) :
    compactedName uuid generation < manifestFilename :=
  lt_manifestFilename uuid _

end Ourios.Parquet
