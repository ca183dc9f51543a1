/-
# Replay of the log

The scan of one segment delivers each frame it reads with the offset its append
returned, and stops at the end of the file, at a frame cut short, or at a frame that
does not check. Only the newest segment may end in a frame cut short; replay then cuts
the file back to the last whole frame. On a segment that holds the front part of
written frames, the scan delivers exactly the whole ones.
-/

import Ourios.Wal.Writer

namespace Ourios

open Ourios.Foundation

/-- What a frame sink is handed. -/
structure Delivered where
  offset : WalOffset
  kind : FrameKind
  payload : List UInt8
  deriving DecidableEq, Repr

inductive CorruptionReason
  | tornOnClosedSegment | crcMismatch | unknownKind | nonZeroPad | oversizeLen
  deriving DecidableEq, Repr

inductive RecoveryError
  | corrupt (segment : Uuid) (byte : Nat) (reason : CorruptionReason)
  | header (error : HeaderError)
  deriving DecidableEq, Repr

inductive SegmentScan
  | cleanTail
  | tornTail (validTo : Nat)
  deriving DecidableEq, Repr

variable (crc : Crc)

/-- The reason a frame error other than a short read is reported under. -/
def corruptionReason : FrameError → CorruptionReason
  | .crcMismatch _ _ => .crcMismatch
  | .unknownKind _ => .unknownKind
  | .nonZeroPad _ => .nonZeroPad
  | .oversizeLen _ => .oversizeLen
  | .unexpectedEof => .tornOnClosedSegment

/-- Scan frames from a position: what was delivered, and how the scan ended. Each frame
takes at least a header, so the length of the file is enough fuel. -/
def scanFrames (segment : Uuid) (isNewest : Bool) :
    Nat → Nat → List UInt8 → List Delivered × Except RecoveryError SegmentScan
  | _, _, [] => ([], .ok .cleanTail)
  | 0, _, _ => ([], .ok .cleanTail)
  | fuel + 1, pos, rest =>
    match readFrame crc rest with
    | .ok (kind, payload, rest) =>
      let pos := pos + frameLen payload
      let scanned := scanFrames segment isNewest fuel pos rest
      (⟨⟨segment, pos⟩, kind, payload⟩ :: scanned.1, scanned.2)
    | .error .unexpectedEof =>
      if isNewest then ([], .ok (.tornTail pos))
      else ([], .error (.corrupt segment pos .tornOnClosedSegment))
    | .error error => ([], .error (.corrupt segment pos (corruptionReason error)))

/-- Scan one segment file. -/
def replaySegment (file : SegmentFile) (isNewest : Bool) :
    List Delivered × Except RecoveryError SegmentScan :=
  match readHeader file.bytes with
  | .error error => ([], .error (.header error))
  | .ok header =>
    scanFrames crc header.segmentUuid isNewest file.bytes.length segmentHeaderLen
      (file.bytes.drop segmentHeaderLen)

namespace Wal

/-- Cut a torn tail off the current segment and make that durable. -/
def healNewestSegment (wal : Wal) (validTo : Nat) : Wal :=
  { (wal.setLen validTo).syncSegmentData.syncParentDir with dirFsync := .clean }

/-- Replay segments in order; the last of them is the newest. -/
def replaySegments (wal : Wal) : List SegmentFile → List Delivered × Except RecoveryError Wal
  | [] => ([], .ok wal)
  | file :: later =>
    match replaySegment crc file later.isEmpty with
    | (sent, .error error) => (sent, .error error)
    | (sent, .ok .cleanTail) =>
      let rest := wal.replaySegments later
      (sent ++ rest.1, rest.2)
    | (sent, .ok (.tornTail validTo)) =>
      let rest := (wal.healNewestSegment validTo).replaySegments later
      (sent ++ rest.1, rest.2)

def replay (wal : Wal) : List Delivered × Except RecoveryError Wal :=
  wal.replaySegments crc (listSegments wal.files)

end Wal

/-! ### Segments of written frames -/

abbrev Frame := FrameKind × List UInt8

/-- Frames no longer than an append accepts. -/
def Fits (frames : List Frame) : Prop := ∀ frame ∈ frames, frame.2.length ≤ maxFrameBytes

/-- Frames written one after the other. -/
def encodeFrames (frames : List Frame) : List UInt8 :=
  frames.flatMap fun frame => writeFrame crc frame.1 frame.2

/-- Frames from a position on, with their offsets. -/
def recordsFrom (segment : Uuid) : Nat → List Frame → List Delivered
  | _, [] => []
  | pos, frame :: frames =>
    ⟨⟨segment, pos + frameLen frame.2⟩, frame.1, frame.2⟩ ::
      recordsFrom segment (pos + frameLen frame.2) frames

/-- The frames that lie whole within a number of bytes. -/
def wholeFrames : Nat → List Frame → List Frame
  | _, [] => []
  | len, frame :: frames =>
    if frameLen frame.2 ≤ len then frame :: wholeFrames (len - frameLen frame.2) frames else []

variable {crc}

@[simp] theorem encodeFrames_nil : encodeFrames crc [] = [] := rfl

@[simp] theorem encodeFrames_cons (frame : Frame) (frames : List Frame) :
    encodeFrames crc (frame :: frames) =
      writeFrame crc frame.1 frame.2 ++ encodeFrames crc frames := rfl

@[simp] theorem encodeFrames_append (first second : List Frame) :
    encodeFrames crc (first ++ second) = encodeFrames crc first ++ encodeFrames crc second := by
  simp [encodeFrames]

theorem frameLen_pos (payload : List UInt8) : 0 < frameLen payload := by
  simp [frameLen, frameHeaderLen]

theorem recordsFrom_append (crc : Crc) (segment : Uuid) (pos : Nat) (first second : List Frame) :
    recordsFrom segment pos (first ++ second) =
      recordsFrom segment pos first ++
        recordsFrom segment (pos + (encodeFrames crc first).length) second := by
  induction first generalizing pos with
  | nil => simp [recordsFrom]
  | cons frame frames ih =>
    simp only [List.cons_append, recordsFrom, ih, encodeFrames_cons, List.length_append,
      length_writeFrame]
    rw [Nat.add_assoc]

variable {frames : List Frame}

/-- Every frame from a position on has its offset above it. -/
theorem lt_byte_of_mem_recordsFrom {segment : Uuid} {pos : Nat} {record : Delivered}
    (h : record ∈ recordsFrom segment pos frames) :
    pos < record.offset.byte := by
  induction frames generalizing pos with
  | nil => simp [recordsFrom] at h
  | cons frame frames ih =>
    have hpos := frameLen_pos frame.2
    rcases List.mem_cons.mp h with rfl | hmem
    · exact Nat.lt_add_of_pos_right hpos
    · exact (Nat.lt_add_of_pos_right hpos).trans (ih hmem)

theorem segment_of_mem_recordsFrom {segment : Uuid} {pos : Nat} {record : Delivered}
    (h : record ∈ recordsFrom segment pos frames) :
    record.offset.segment = segment := by
  induction frames generalizing pos with
  | nil => simp [recordsFrom] at h
  | cons frame frames ih =>
    rcases List.mem_cons.mp h with rfl | hmem
    · rfl
    · exact ih hmem

/-- The whole frames within a length are those whose offset is within it. -/
theorem recordsFrom_wholeFrames (segment : Uuid) (pos len : Nat) (frames : List Frame) :
    recordsFrom segment pos (wholeFrames len frames) =
      (recordsFrom segment pos frames).filter fun record => record.offset.byte ≤ pos + len := by
  induction frames generalizing pos len with
  | nil => simp [recordsFrom, wholeFrames]
  | cons frame frames ih =>
    by_cases hfits : frameLen frame.2 ≤ len
    · have hlen : pos + frameLen frame.2 + (len - frameLen frame.2) = pos + len := by omega
      simp only [wholeFrames, if_pos hfits, recordsFrom, ih, hlen]
      rw [List.filter_cons_of_pos (by simpa using hfits)]
    · have hnone : (recordsFrom segment (pos + frameLen frame.2) frames).filter
          (fun record => record.offset.byte ≤ pos + len) = [] := by
        rw [List.filter_eq_nil_iff]
        intro record hmem
        have := lt_byte_of_mem_recordsFrom hmem
        simp only [decide_eq_true_eq]
        omega
      simp only [wholeFrames, if_neg hfits, recordsFrom]
      rw [List.filter_cons_of_neg (by simpa using hfits), hnone]

/-- The whole frames within a length lie at the front. -/
theorem encodeFrames_wholeFrames_prefix (crc : Crc) (len : Nat) (frames : List Frame) :
    encodeFrames crc (wholeFrames len frames) <+: (encodeFrames crc frames).take len := by
  induction frames generalizing len with
  | nil => simp [wholeFrames]
  | cons frame frames ih =>
    by_cases hfits : frameLen frame.2 ≤ len
    · have hframe : (writeFrame crc frame.1 frame.2).length ≤ len := by simpa using hfits
      rw [wholeFrames, if_pos hfits, encodeFrames_cons, encodeFrames_cons, List.take_append,
        List.take_of_length_le hframe, length_writeFrame, List.prefix_append_right_inj]
      exact ih _
    · rw [wholeFrames, if_neg hfits]
      exact List.nil_prefix

theorem fits_wholeFrames (h : Fits frames) (len : Nat) :
    Fits (wholeFrames len frames) := by
  induction frames generalizing len with
  | nil => exact h
  | cons frame frames ih =>
    by_cases hfits : frameLen frame.2 ≤ len
    · rw [wholeFrames, if_pos hfits]
      intro other hmem
      rcases List.mem_cons.mp hmem with rfl | hmem
      · exact h _ (by simp)
      · exact ih (fun other hmem => h other (by simp [hmem])) _ other hmem
    · simp [wholeFrames, hfits, Fits]

/-- A scan that starts with a whole frame delivers it and goes on. -/
theorem scanFrames_writeFrame (segment : Uuid) (isNewest : Bool) {frame : Frame}
    (h : frame.2.length ≤ maxFrameBytes) (fuel pos : Nat) (rest : List UInt8) :
    scanFrames crc segment isNewest (fuel + 1) pos (writeFrame crc frame.1 frame.2 ++ rest) =
      (⟨⟨segment, pos + frameLen frame.2⟩, frame.1, frame.2⟩ ::
          (scanFrames crc segment isNewest fuel (pos + frameLen frame.2) rest).1,
        (scanFrames crc segment isNewest fuel (pos + frameLen frame.2) rest).2) := by
  have hread : readFrame crc (writeFrame crc frame.1 frame.2 ++ rest) =
      .ok (frame.1, frame.2, rest) := readFrame_writeFrame h rest
  cases hbytes : writeFrame crc frame.1 frame.2 ++ rest with
  | nil =>
    have := frameLen_pos frame.2
    have hlen := congrArg List.length hbytes
    simp only [List.length_append, length_writeFrame, List.length_nil] at hlen
    omega
  | cons byte bytes =>
    rw [hbytes] at hread
    simp only [scanFrames, hread]

/-- A scan of the newest segment that starts within a frame cut short ends there. -/
theorem scanFrames_torn (segment : Uuid) {frame : Frame} (h : frame.2.length ≤ maxFrameBytes)
    {cut : Nat} (hcut : cut < frameLen frame.2) (hpos : 0 < cut) (fuel pos : Nat) :
    scanFrames crc segment true (fuel + 1) pos ((writeFrame crc frame.1 frame.2).take cut) =
      ([], .ok (.tornTail pos)) := by
  have hread : readFrame crc ((writeFrame crc frame.1 frame.2).take cut) =
      .error .unexpectedEof := readFrame_take h hcut
  cases hbytes : (writeFrame crc frame.1 frame.2).take cut with
  | nil =>
    have hlen := congrArg List.length hbytes
    simp only [List.length_take, length_writeFrame, List.length_nil] at hlen
    omega
  | cons byte bytes =>
    rw [hbytes] at hread
    simp [scanFrames, hread]

/-- Frames all of whose bytes are there scan clean. -/
theorem scanFrames_encodeFrames (segment : Uuid) (isNewest : Bool) (h : Fits frames) {fuel : Nat}
    (hfuel : frames.length ≤ fuel) (pos : Nat) :
    scanFrames crc segment isNewest fuel pos (encodeFrames crc frames) =
      (recordsFrom segment pos frames, .ok .cleanTail) := by
  induction frames generalizing fuel pos with
  | nil => simp [scanFrames, recordsFrom]
  | cons frame frames ih =>
    obtain ⟨fuel, rfl⟩ : ∃ fewer, fuel = fewer + 1 :=
      ⟨fuel - 1, by rw [List.length_cons] at hfuel; omega⟩
    have hrest : Fits frames := fun other hmem => h other (by simp [hmem])
    rw [encodeFrames_cons, scanFrames_writeFrame segment isNewest (h frame (by simp)),
      ih hrest (by simpa using hfuel)]
    rfl

/-- The front part of written frames: the scan of the newest segment delivers the whole
ones, and ends after them. -/
theorem scanFrames_take (crc : Crc) (segment : Uuid) (h : Fits frames) {fuel len : Nat}
    (hfuel : len < fuel) (pos : Nat) :
    ∃ scan, scanFrames crc segment true fuel pos ((encodeFrames crc frames).take len) =
        (recordsFrom segment pos (wholeFrames len frames), .ok scan) ∧
      (scan = .cleanTail ∧
          (encodeFrames crc frames).take len = encodeFrames crc (wholeFrames len frames) ∨
        scan = .tornTail (pos + (encodeFrames crc (wholeFrames len frames)).length)) := by
  induction frames generalizing fuel pos len with
  | nil =>
    exact ⟨.cleanTail, by simp [scanFrames, recordsFrom, wholeFrames],
      .inl (by simp [wholeFrames])⟩
  | cons frame frames ih =>
    obtain ⟨fuel, rfl⟩ : ∃ fewer, fuel = fewer + 1 := ⟨fuel - 1, by omega⟩
    have hframe := h frame (by simp)
    have hrest : Fits frames := fun other hmem => h other (by simp [hmem])
    by_cases hfits : frameLen frame.2 ≤ len
    · have hlen : (writeFrame crc frame.1 frame.2).length ≤ len := by simpa using hfits
      have hless : len - frameLen frame.2 < fuel := by
        have := frameLen_pos frame.2
        omega
      obtain ⟨scan, hscan, hend⟩ := ih hrest hless (pos + frameLen frame.2)
      have htake : (encodeFrames crc (frame :: frames)).take len =
          writeFrame crc frame.1 frame.2 ++
            (encodeFrames crc frames).take (len - frameLen frame.2) := by
        rw [encodeFrames_cons, List.take_append, List.take_of_length_le hlen, length_writeFrame]
      refine ⟨scan, ?_, ?_⟩
      · rw [htake, scanFrames_writeFrame segment true hframe, hscan, wholeFrames, if_pos hfits]
        rfl
      · rw [htake, wholeFrames, if_pos hfits, encodeFrames_cons]
        rcases hend with ⟨hclean, hbytes⟩ | htorn
        · exact .inl ⟨hclean, by rw [hbytes]⟩
        · refine .inr ?_
          rw [htorn, List.length_append, length_writeFrame, Nat.add_assoc]
    · have hcut := Nat.not_le.mp hfits
      have hlen : len ≤ (writeFrame crc frame.1 frame.2).length := by
        rw [length_writeFrame]
        exact hcut.le
      rw [encodeFrames_cons, List.take_append_of_le_length hlen, wholeFrames, if_neg hfits]
      rcases Nat.eq_zero_or_pos len with rfl | hpos
      · exact ⟨.cleanTail, by simp [scanFrames, recordsFrom], .inl (by simp)⟩
      · refine ⟨.tornTail pos, ?_, .inr rfl⟩
        rw [scanFrames_torn segment hframe hcut hpos]
        rfl

theorem length_le_length_encodeFrames (crc : Crc) (frames : List Frame) :
    frames.length ≤ (encodeFrames crc frames).length := by
  induction frames with
  | nil => simp
  | cons frame frames ih =>
    have := frameLen_pos frame.2
    rw [encodeFrames_cons, List.length_append, length_writeFrame, List.length_cons]
    omega

end Ourios
