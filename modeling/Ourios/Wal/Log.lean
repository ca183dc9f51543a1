/-
# The log as frames

A segment that holds its header and the front part of written frames, and a root all of
whose segments but the last are closed. The records a reader finds and those every crash
leaves are read off the frames; marking files as synced or listed, writing a frame,
crashing and cutting a torn tail back each have one lemma for both.
-/

import Ourios.Wal.Crash

namespace Ourios

/-! ### Segments as frames -/

def segmentBytes (crc : Crc) (uuid : Uuid) (frames : List Frame) : List UInt8 :=
  writeHeader (.new uuid) ++ encodeFrames crc frames

/-- A segment file that holds its header and the front part of written frames. -/
structure LogSegment (crc : Crc) where
  file : SegmentFile
  frames : List Frame
  fits : Fits frames
  written : file.bytes <+: segmentBytes crc file.uuid frames
  header : segmentHeaderLen ≤ file.bytes.length
  synced_le : file.synced ≤ file.bytes.length

variable {crc : Crc}

/-- A frame ends within the bytes of the frames it is one of. -/
theorem byte_le_of_mem_recordsFrom {segment : Uuid} {pos : Nat} {frames : List Frame}
    {record : Delivered} (h : record ∈ recordsFrom segment pos frames) :
    record.offset.byte ≤ pos + (encodeFrames crc frames).length := by
  induction frames generalizing pos with
  | nil => simp [recordsFrom] at h
  | cons frame frames ih =>
    rw [encodeFrames_cons, List.length_append, length_writeFrame, ← Nat.add_assoc]
    rcases List.mem_cons.mp h with rfl | hmem
    · exact Nat.le_add_right _ _
    · exact ih hmem

namespace LogSegment

variable (segment : LogSegment crc)

def records : List Delivered := recordsFrom segment.file.uuid segmentHeaderLen segment.frames

/-- The records of the frames a reader finds. -/
def readable : List Delivered :=
  segment.records.filter fun record => record.offset.byte ≤ segment.file.bytes.length

/-- The records of the frames every crash leaves. -/
def durable : List Delivered :=
  if segment.file.listed then
    segment.records.filter fun record => record.offset.byte ≤ segment.file.synced
  else []

/-- Every byte of the frames is there. -/
def Whole : Prop := segment.file.bytes = segmentBytes crc segment.file.uuid segment.frames

/-- Every byte of the frames is there and synced. -/
def Closed : Prop := segment.Whole ∧ segment.file.synced = segment.file.bytes.length

variable {segment}

theorem length_of_whole (h : segment.Whole) :
    segment.file.bytes.length = segmentHeaderLen + (encodeFrames crc segment.frames).length := by
  rw [h, segmentBytes, List.length_append, length_writeHeader]

theorem readable_of_whole (h : segment.Whole) : segment.readable = segment.records := by
  rw [readable, List.filter_eq_self]
  intro record hmem
  simp only [length_of_whole h, decide_eq_true_eq]
  exact byte_le_of_mem_recordsFrom hmem

/-- Once everything is synced and listed, everything that can be read is durable. -/
theorem durable_of_settled (hsynced : segment.file.synced = segment.file.bytes.length)
    (hlisted : segment.file.listed = true) : segment.durable = segment.readable := by
  rw [durable, if_pos hlisted, readable, hsynced]

/-- A segment with no frame in it. -/
def empty (file : SegmentFile) (hbytes : file.bytes = writeHeader (.new file.uuid))
    (hsynced : file.synced ≤ segmentHeaderLen) : LogSegment crc where
  file := file
  frames := []
  fits := by simp [Fits]
  written := by simp [segmentBytes, hbytes]
  header := by simp [hbytes]
  synced_le := by simpa [hbytes] using hsynced

/-- A change of a file that leaves its bytes and only adds to what is durable. -/
structure Marks (change : SegmentFile → SegmentFile) : Prop where
  uuid : ∀ file, (change file).uuid = file.uuid
  bytes : ∀ file, (change file).bytes = file.bytes
  synced : ∀ file, (change file).synced = file.synced ∨ (change file).synced = file.bytes.length
  listed : ∀ file, file.listed = true → (change file).listed = true

/-- A segment whose file was marked. -/
def mark (segment : LogSegment crc) (change : SegmentFile → SegmentFile) (h : Marks change) :
    LogSegment crc where
  file := change segment.file
  frames := segment.frames
  fits := segment.fits
  written := by
    rw [h.uuid, h.bytes]
    exact segment.written
  header := by
    rw [h.bytes]
    exact segment.header
  synced_le := by
    rw [h.bytes]
    rcases h.synced segment.file with hsame | hall
    · rw [hsame]
      exact segment.synced_le
    · rw [hall]

section Mark

variable {change : SegmentFile → SegmentFile} (h : Marks change)

theorem mark_records : (segment.mark change h).records = segment.records := by
  simp [records, mark, h.uuid]

theorem mark_readable : (segment.mark change h).readable = segment.readable := by
  rw [readable, readable, mark_records]
  simp [mark, h.bytes]

theorem mark_whole (hwhole : segment.Whole) : (segment.mark change h).Whole := by
  simpa [Whole, mark, h.bytes, h.uuid] using hwhole

theorem mark_closed (hclosed : segment.Closed) : (segment.mark change h).Closed := by
  refine ⟨mark_whole h hclosed.1, ?_⟩
  rcases h.synced segment.file with hsame | hall
  · simpa [mark, h.bytes, hsame] using hclosed.2
  · simpa [mark, h.bytes] using hall

theorem durable_sublist_mark : segment.durable.Sublist (segment.mark change h).durable := by
  by_cases hlisted : segment.file.listed = true
  · have hlisted' : (segment.mark change h).file.listed = true := h.listed _ hlisted
    rw [durable, durable, if_pos hlisted, if_pos hlisted', mark_records]
    apply List.monotone_filter_right
    intro record hrecord
    simp only [decide_eq_true_eq] at hrecord ⊢
    rcases h.synced segment.file with hsame | hall
    · exact hrecord.trans (le_of_eq hsame.symm)
    · exact hrecord.trans (segment.synced_le.trans (le_of_eq hall.symm))
  · simp [durable, hlisted]

end Mark

/-- A whole segment with one more frame written. -/
def extend (segment : LogSegment crc) (hwhole : segment.Whole) (frame : Frame)
    (hfits : frame.2.length ≤ maxFrameBytes) : LogSegment crc where
  file := { segment.file with
    bytes := segment.file.bytes ++ writeFrame crc frame.1 frame.2 }
  frames := segment.frames ++ [frame]
  fits := by
    intro other hmem
    rcases List.mem_append.mp hmem with hold | hnew
    · exact segment.fits other hold
    · obtain rfl : other = frame := by simpa using hnew
      exact hfits
  written := by
    rw [hwhole, segmentBytes, segmentBytes, encodeFrames_append, ← List.append_assoc]
    simp
  header := segment.header.trans (by simp)
  synced_le := segment.synced_le.trans (by simp)

section Extend

variable (hwhole : segment.Whole) {frame : Frame} (hfits : frame.2.length ≤ maxFrameBytes)

theorem extend_uuid : (segment.extend hwhole frame hfits).file.uuid = segment.file.uuid := rfl

theorem extend_whole : (segment.extend hwhole frame hfits).Whole := by
  have hbytes : segment.file.bytes = segmentBytes crc segment.file.uuid segment.frames := hwhole
  simp [Whole, extend, hbytes, segmentBytes]

/-- The record of the new frame comes after the others. -/
theorem extend_readable : (segment.extend hwhole frame hfits).readable =
    segment.readable ++
      [⟨⟨segment.file.uuid, segment.file.bytes.length + frameLen frame.2⟩, frame.1, frame.2⟩] := by
  rw [readable_of_whole (extend_whole hwhole hfits), readable_of_whole hwhole,
    length_of_whole hwhole]
  simp only [records, extend]
  rw [recordsFrom_append crc]
  rfl

theorem extend_durable :
    segment.durable.Sublist (segment.extend hwhole frame hfits).durable := by
  by_cases hlisted : segment.file.listed = true
  · have hlisted' : (segment.extend hwhole frame hfits).file.listed = true := hlisted
    rw [durable, durable, if_pos hlisted, if_pos hlisted']
    apply List.Sublist.filter
    simp only [records, extend]
    rw [recordsFrom_append crc]
    exact List.sublist_append_left _ _
  · simp [durable, hlisted]

end Extend

/-- A segment after a crash that left its header whole. -/
def leave (segment : LogSegment crc) (survival : Survival) : LogSegment crc where
  file :=
    { uuid := segment.file.uuid
      bytes := segment.file.bytes.take (max segmentHeaderLen (survival.bytesLeft segment.file))
      synced :=
        (segment.file.bytes.take (max segmentHeaderLen (survival.bytesLeft segment.file))).length
      listed := true }
  frames := segment.frames
  fits := segment.fits
  written := (List.take_prefix _ _).trans segment.written
  header := by
    have hheader := segment.header
    simp only [List.length_take]
    omega
  synced_le := le_refl _

section Leave

variable {survival : Survival}

theorem leave_file (h : segmentHeaderLen ≤ survival.bytesLeft segment.file) :
    (segment.leave survival).file = survival.leave segment.file := by
  simp [leave, Survival.leave, max_eq_right h]

theorem leave_durable : (segment.leave survival).durable = (segment.leave survival).readable :=
  durable_of_settled rfl rfl

/-- What was durable before a crash can be read after it. -/
theorem durable_sublist_leave : segment.durable.Sublist (segment.leave survival).readable := by
  by_cases hlisted : segment.file.listed = true
  · rw [durable, if_pos hlisted]
    apply List.monotone_filter_right
    intro record hrecord
    have hsynced := segment.synced_le
    simp only [decide_eq_true_eq, leave, Survival.bytesLeft, List.length_take] at hrecord ⊢
    omega
  · simp [durable, hlisted]

/-- A closed segment comes out of a crash as it was. -/
theorem leave_closed (hclosed : segment.Closed) : (segment.leave survival).Closed := by
  have hall : segment.file.bytes.take (max segmentHeaderLen (survival.bytesLeft segment.file)) =
      segment.file.bytes := by
    apply List.take_of_length_le
    rw [← hclosed.2]
    exact (Nat.le_max_left _ _).trans (Nat.le_max_right _ _)
  refine ⟨?_, rfl⟩
  have hwhole : segment.file.bytes = segmentBytes crc segment.file.uuid segment.frames :=
    hclosed.1
  simpa [Whole, leave, hall] using hwhole

end Leave

/-- The frames all of whose bytes are there. -/
def remaining (segment : LogSegment crc) : List Frame :=
  wholeFrames (segment.file.bytes.length - segmentHeaderLen) segment.frames

/-- Where the last whole frame ends. -/
def validTo (segment : LogSegment crc) : Nat :=
  segmentHeaderLen + (encodeFrames crc segment.remaining).length

/-- A header, and then the front part of the frames. -/
theorem bytes_eq (segment : LogSegment crc) :
    segment.file.bytes = writeHeader (.new segment.file.uuid) ++
      (encodeFrames crc segment.frames).take
        (segment.file.bytes.length - segmentHeaderLen) := by
  have htake := List.prefix_iff_eq_take.mp segment.written
  conv_lhs => rw [htake]
  rw [segmentBytes, List.take_append, length_writeHeader,
    List.take_of_length_le (by rw [length_writeHeader]; exact segment.header)]

/-- Cut back to the last whole frame, a file holds the remaining frames. -/
theorem take_validTo (segment : LogSegment crc) :
    segment.file.bytes.take segment.validTo =
      segmentBytes crc segment.file.uuid segment.remaining := by
  obtain ⟨rest, hrest⟩ := encodeFrames_wholeFrames_prefix crc
    (segment.file.bytes.length - segmentHeaderLen) segment.frames
  rw [segment.bytes_eq, ← hrest, ← List.append_assoc]
  apply List.take_left'
  rw [List.length_append, length_writeHeader]
  rfl

/-- A segment cut back to its last whole frame. -/
def cut (segment : LogSegment crc) : LogSegment crc where
  file :=
    { segment.file with
      bytes := segment.file.bytes.take segment.validTo
      synced := min segment.file.synced segment.validTo }
  frames := segment.remaining
  fits := fits_wholeFrames segment.fits _
  written := ⟨[], by rw [List.append_nil, take_validTo]⟩
  header := by
    rw [take_validTo, segmentBytes, List.length_append, length_writeHeader]
    exact Nat.le_add_right _ _
  synced_le := by
    rw [take_validTo, segmentBytes, List.length_append, length_writeHeader]
    exact Nat.min_le_right _ _

theorem cut_uuid (segment : LogSegment crc) : segment.cut.file.uuid = segment.file.uuid := rfl

theorem cut_whole (segment : LogSegment crc) : segment.cut.Whole := segment.take_validTo

theorem cut_records (segment : LogSegment crc) : segment.cut.records = segment.readable := by
  have hlen : segmentHeaderLen + (segment.file.bytes.length - segmentHeaderLen) =
      segment.file.bytes.length := Nat.add_sub_cancel' segment.header
  rw [readable, records, records, ← hlen, ← recordsFrom_wholeFrames]
  rfl

theorem cut_readable (segment : LogSegment crc) : segment.cut.readable = segment.readable := by
  rw [readable_of_whole segment.cut_whole, cut_records]

theorem durable_sublist_cut (segment : LogSegment crc) :
    segment.durable.Sublist segment.cut.durable := by
  by_cases hlisted : segment.file.listed = true
  · have hlisted' : segment.cut.file.listed = true := hlisted
    rw [durable, durable, if_pos hlisted, if_pos hlisted', cut_records]
    have hsame : segment.records.filter (fun record => record.offset.byte ≤ segment.file.synced) =
        segment.readable.filter (fun record => record.offset.byte ≤ segment.file.synced) := by
      rw [readable, List.filter_filter]
      apply List.filter_congr
      intro record _
      have := segment.synced_le
      rw [Bool.eq_iff_iff]
      simp only [decide_eq_true_eq, Bool.and_eq_true]
      omega
    rw [hsame]
    -- A frame that can be read ends before the cut.
    have hcut : segment.readable.filter (fun record => record.offset.byte ≤ segment.file.synced) =
        segment.readable.filter (fun record => record.offset.byte ≤ segment.cut.file.synced) := by
      apply List.filter_congr
      intro record hmem
      rw [← cut_records] at hmem
      have hbyte : record.offset.byte ≤ segment.validTo := byte_le_of_mem_recordsFrom hmem
      simp only [cut, le_min_iff, hbyte, and_true]
    rw [hcut]
  · simp [durable, hlisted]

end LogSegment

/-! ### The log -/

/-- The segments of a root. Only the last one may be open. -/
structure Log (crc : Crc) where
  segments : List (LogSegment crc)
  ascending : (segments.map fun segment => segment.file.uuid).Pairwise (· < ·)
  sealed : ∀ segment ∈ segments, ∀ later ∈ segments,
    segment.file.uuid < later.file.uuid → segment.Closed

namespace Log

variable (log : Log crc)

def files : List SegmentFile := log.segments.map LogSegment.file

def readable : List Delivered := log.segments.flatMap LogSegment.readable

def durable : List Delivered := log.segments.flatMap LogSegment.durable

/-- A log whose files were marked. -/
def mark (change : SegmentFile → SegmentFile) (h : LogSegment.Marks change) : Log crc where
  segments := log.segments.map fun segment => segment.mark change h
  ascending := by
    rw [List.map_map]
    have hnames : ((fun segment => segment.file.uuid) ∘ fun segment : LogSegment crc =>
        segment.mark change h) = fun segment => segment.file.uuid := by
      funext segment
      exact h.uuid segment.file
    rw [hnames]
    exact log.ascending
  sealed := by
    intro segment hmem later hlater hlt
    obtain ⟨old, hold, rfl⟩ := List.mem_map.mp hmem
    obtain ⟨oldLater, holdLater, rfl⟩ := List.mem_map.mp hlater
    apply LogSegment.mark_closed
    apply log.sealed old hold oldLater holdLater
    simpa [LogSegment.mark, h.uuid] using hlt

section Mark

variable {change : SegmentFile → SegmentFile} (h : LogSegment.Marks change)

theorem mark_files : (log.mark change h).files = log.files.map change := by
  rw [files, files, mark, List.map_map, List.map_map]
  rfl

theorem mark_readable : (log.mark change h).readable = log.readable := by
  rw [readable, readable, mark, List.flatMap_map]
  simp only [LogSegment.mark_readable]

theorem durable_sublist_mark : log.durable.Sublist (log.mark change h).durable := by
  rw [durable, durable, mark, List.flatMap_map]
  exact List.Sublist.flatMap_right _ fun segment _ => LogSegment.durable_sublist_mark h

end Mark

/-- A log with an empty segment above all others. -/
def push (segment : LogSegment crc) (hclosed : ∀ other ∈ log.segments, other.Closed)
    (habove : ∀ other ∈ log.segments, other.file.uuid < segment.file.uuid) : Log crc where
  segments := log.segments ++ [segment]
  ascending := by
    rw [List.map_append, List.pairwise_append]
    refine ⟨log.ascending, List.pairwise_singleton _ _, ?_⟩
    intro uuid hmem last hlast
    obtain ⟨other, hother, rfl⟩ := List.mem_map.mp hmem
    obtain rfl : last = segment.file.uuid := by simpa using hlast
    exact habove other hother
  sealed := by
    intro other hmem later hlater hlt
    rcases List.mem_append.mp hmem with hold | hnew
    · exact hclosed other hold
    · obtain rfl : other = segment := by simpa using hnew
      rcases List.mem_append.mp hlater with holdLater | hsame
      · exact absurd hlt (habove later holdLater).asymm
      · obtain rfl : later = other := by simpa using hsame
        exact absurd hlt (lt_irrefl _)

/-- A log after a crash. -/
def crash (survival : Survival) : Log crc where
  segments := (log.segments.filter fun segment => survival.spares segment.file).map
    fun segment => segment.leave survival
  ascending := by
    rw [List.map_map]
    exact log.ascending.sublist (List.filter_sublist.map _)
  sealed := by
    intro segment hmem later hlater hlt
    obtain ⟨old, hold, rfl⟩ := List.mem_map.mp hmem
    obtain ⟨oldLater, holdLater, rfl⟩ := List.mem_map.mp hlater
    apply LogSegment.leave_closed
    exact log.sealed old (List.mem_of_mem_filter hold) oldLater
      (List.mem_of_mem_filter holdLater) hlt

section Crash

variable {survival : Survival}

theorem crash_files (h : survival.KeepsHeaders log.files) :
    (log.crash survival).files = survival.crash log.files := by
  rw [files, files, crash, Survival.crash, List.filter_map, List.map_map, List.map_map]
  apply List.map_congr_left
  intro segment hmem
  obtain ⟨hmem, hspared⟩ := List.mem_filter.mp hmem
  exact LogSegment.leave_file (h segment.file (List.mem_map_of_mem hmem) hspared)

theorem crash_durable : (log.crash survival).durable = (log.crash survival).readable := by
  rw [durable, readable, crash, List.flatMap_map, List.flatMap_map]
  simp only [LogSegment.leave_durable]

/-- What was durable before a crash can be read after it. -/
theorem durable_sublist_crash : log.durable.Sublist (log.crash survival).readable := by
  rw [durable, readable, crash, List.flatMap_map]
  have hspared : log.segments.flatMap LogSegment.durable =
      (log.segments.filter fun segment => survival.spares segment.file).flatMap
        LogSegment.durable := by
    induction log.segments with
    | nil => rfl
    | cons segment segments ih =>
      by_cases h : survival.spares segment.file = true
      · rw [List.filter_cons_of_pos (by exact h), List.flatMap_cons, List.flatMap_cons, ih]
      · have hlisted : segment.file.listed = false := by
          simp only [Survival.spares, Bool.or_eq_true, not_or, Bool.not_eq_true] at h
          exact h.1
        rw [List.filter_cons_of_neg (by exact h), List.flatMap_cons, ih]
        simp [LogSegment.durable, hlisted]
  rw [hspared]
  exact List.Sublist.flatMap_right _ fun segment _ => LogSegment.durable_sublist_leave

end Crash

/-- A log whose last segment was replaced by one of its name. -/
def setLast {closed : List (LogSegment crc)} {last : LogSegment crc}
    (h : log.segments = closed ++ [last]) (segment : LogSegment crc)
    (huuid : segment.file.uuid = last.file.uuid) : Log crc where
  segments := closed ++ [segment]
  ascending := by
    have hascending := log.ascending
    rw [h] at hascending
    simpa [huuid] using hascending
  sealed := by
    have hbelow : ∀ other ∈ closed, other.file.uuid < segment.file.uuid := by
      intro other hmem
      have hascending := log.ascending
      rw [h, List.map_append, List.pairwise_append] at hascending
      rw [huuid]
      exact hascending.2.2 _ (List.mem_map_of_mem hmem) _ (by simp)
    intro other hmem later hlater hlt
    rcases List.mem_append.mp hmem with hold | hnew
    · refine log.sealed other (by simp [h, hold]) last (by simp [h]) ?_
      rw [← huuid]
      exact hbelow other hold
    · obtain rfl : other = segment := by simpa using hnew
      rcases List.mem_append.mp hlater with holdLater | hsame
      · exact absurd hlt (hbelow later holdLater).asymm
      · obtain rfl : later = other := by simpa using hsame
        exact absurd hlt (lt_irrefl _)

@[simp] theorem setLast_segments {closed : List (LogSegment crc)} {last : LogSegment crc}
    (h : log.segments = closed ++ [last]) (segment : LogSegment crc)
    (huuid : segment.file.uuid = last.file.uuid) :
    (log.setLast h segment huuid).segments = closed ++ [segment] := rfl

end Log

end Ourios
