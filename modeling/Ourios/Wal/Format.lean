/-
# Segments and frames on disk

A segment file is a header and then frames. The header carries the segment's uuid
under a magic and a version; a frame carries its length, its kind, three reserved
zero bytes, a checksum and its payload. What is written reads back, and a proper
prefix of a frame reads as the end of the file and as nothing else.

The checksum is `crc32c`, which is not part of this repository: everything here is
stated for an arbitrary one.
-/

import Ourios.Core.Uuid
import Ourios.Foundation.Bytes

namespace Ourios

open Ourios.Foundation

/-- The millisecond stamp a version-7 uuid opens with. -/
def Uuid.millis (uuid : Uuid) : Nat := uuid.val / 2 ^ 80

/-- A position in the log: a segment and a byte in it. -/
structure WalOffset where
  segment : Uuid
  byte : Nat
  deriving DecidableEq, Repr

namespace WalOffset

/-- The pair the order of the source compares. -/
def toPair (offset : WalOffset) : Uuid ×ₗ Nat := toLex (offset.segment, offset.byte)

theorem toPair_injective : Function.Injective toPair := by
  intro a b h
  cases a
  cases b
  simpa [toPair] using h

instance : LinearOrder WalOffset := LinearOrder.lift' toPair toPair_injective

theorem lt_iff {a b : WalOffset} :
    a < b ↔ a.segment < b.segment ∨ a.segment = b.segment ∧ a.byte < b.byte :=
  Prod.Lex.lt_iff

theorem le_iff {a b : WalOffset} :
    a ≤ b ↔ a.segment < b.segment ∨ a.segment = b.segment ∧ a.byte ≤ b.byte :=
  Prod.Lex.le_iff

end WalOffset

/-! ### Segment header -/

/-- `"OWAL"`. -/
def segmentMagic : List UInt8 := [0x4F, 0x57, 0x41, 0x4C]

def segmentVersion : Nat := 2

/-- The version of a segment written before the reclamation record existed. -/
def segmentVersionLegacy : Nat := 1

def segmentFlagsReserved : Nat := 0

def segmentHeaderLen : Nat := 24

structure SegmentHeader where
  version : Nat
  flags : Nat
  segmentUuid : Uuid
  deriving DecidableEq, Repr

def SegmentHeader.new (uuid : Uuid) : SegmentHeader where
  version := segmentVersion
  flags := segmentFlagsReserved
  segmentUuid := uuid

inductive HeaderError
  | badMagic (found : List UInt8)
  | unknownVersion (found : Nat)
  | io
  deriving DecidableEq, Repr

def writeHeader (header : SegmentHeader) : List UInt8 :=
  segmentMagic ++ (leBytes 2 header.version ++ (leBytes 2 header.flags ++
    beBytes 16 header.segmentUuid.val))

def readHeader (bytes : List UInt8) : Except HeaderError SegmentHeader :=
  match readExact segmentHeaderLen bytes with
  | none => .error .io
  | some (buf, _) =>
    let magic := buf.take 4
    if magic ≠ segmentMagic then .error (.badMagic magic)
    else
      let version := ofLeBytes ((buf.drop 4).take 2)
      if version ≠ segmentVersionLegacy ∧ version ≠ segmentVersion then
        .error (.unknownVersion version)
      else
        .ok { version
              flags := ofLeBytes ((buf.drop 6).take 2)
              segmentUuid := Fin.ofNat (2 ^ 128) (ofBeBytes (buf.drop 8)) }

@[simp] theorem length_writeHeader (header : SegmentHeader) :
    (writeHeader header).length = segmentHeaderLen := by
  simp [writeHeader, segmentMagic, segmentHeaderLen]

/-- The header of a new segment reads back from the file it opens. -/
theorem readHeader_new (uuid : Uuid) (rest : List UInt8) :
    readHeader (writeHeader (.new uuid) ++ rest) = .ok (.new uuid) := by
  have huuid : ofBeBytes (beBytes 16 uuid.val) = uuid.val := by
    apply ofBeBytes_beBytes
    exact lt_of_lt_of_eq uuid.isLt (by norm_num)
  have hversion : ofLeBytes (leBytes 2 segmentVersion) = segmentVersion := by decide
  have hflags : ofLeBytes (leBytes 2 segmentFlagsReserved) = segmentFlagsReserved := by decide
  have hmagic : segmentMagic.length = 4 := rfl
  rw [readHeader, readExact_append (length_writeHeader _)]
  simp [writeHeader, SegmentHeader.new, List.drop_append, hmagic, hversion, hflags, huuid,
    List.drop_eq_nil_of_le]

/-- A file shorter than a header has none. -/
theorem readHeader_of_short {bytes : List UInt8} (h : bytes.length < segmentHeaderLen) :
    readHeader bytes = .error .io := by
  rw [readHeader, readExact_eq_none h]

/-! ### Frames -/

inductive FrameKind
  | otlpBatch | auditEvent | tenantOtlpBatch | replicatedEntry
  deriving DecidableEq, Repr

def FrameKind.byte : FrameKind → UInt8
  | .otlpBatch => 0x01
  | .auditEvent => 0x02
  | .tenantOtlpBatch => 0x03
  | .replicatedEntry => 0x04

def FrameKind.ofByte : UInt8 → Option FrameKind
  | 0x01 => some .otlpBatch
  | 0x02 => some .auditEvent
  | 0x03 => some .tenantOtlpBatch
  | 0x04 => some .replicatedEntry
  | _ => none

@[simp] theorem FrameKind.ofByte_byte (kind : FrameKind) : ofByte kind.byte = some kind := by
  cases kind <;> rfl

def maxFrameBytes : Nat := 16 * 1024 * 1024

def frameHeaderLen : Nat := 12

inductive FrameError
  | crcMismatch (stored computed : Nat)
  | unknownKind (found : UInt8)
  | nonZeroPad (found : List UInt8)
  | oversizeLen (found : Nat)
  | unexpectedEof
  deriving DecidableEq, Repr

/-- The checksum, as a function of the bytes it covers. -/
abbrev Crc := List UInt8 → UInt32

variable (crc : Crc)

/-- The checksum of a frame: over its kind, the reserved bytes and its payload. -/
def checksumInput (kind : UInt8) (payload : List UInt8) : Nat :=
  (crc (kind :: 0 :: 0 :: 0 :: payload)).toNat

def framePadZeros : List UInt8 := [0, 0, 0]

def frameHeader (kind : FrameKind) (payload : List UInt8) : List UInt8 :=
  leBytes 4 payload.length ++ (kind.byte :: framePadZeros ++
    leBytes 4 (checksumInput crc kind.byte payload))

def writeFrame (kind : FrameKind) (payload : List UInt8) : List UInt8 :=
  frameHeader crc kind payload ++ payload

/-- Read one frame off the front: its kind, its payload and what follows. -/
def readFrame (bytes : List UInt8) :
    Except FrameError (FrameKind × List UInt8 × List UInt8) :=
  match readExact frameHeaderLen bytes with
  | none => .error .unexpectedEof
  | some (header, rest) =>
    let len := ofLeBytes (header.take 4)
    if maxFrameBytes < len then .error (.oversizeLen len)
    else
      let kindByte := header.getD 4 0
      match FrameKind.ofByte kindByte with
      | none => .error (.unknownKind kindByte)
      | some kind =>
        let pad := (header.drop 5).take 3
        if pad ≠ framePadZeros then .error (.nonZeroPad pad)
        else
          let storedCrc := ofLeBytes (header.drop 8)
          match readExact len rest with
          | none => .error .unexpectedEof
          | some (payload, rest) =>
            let computedCrc := checksumInput crc kindByte payload
            if storedCrc ≠ computedCrc then .error (.crcMismatch storedCrc computedCrc)
            else .ok (kind, payload, rest)

/-- The bytes a frame occupies. -/
def frameLen (payload : List UInt8) : Nat := frameHeaderLen + payload.length

variable {crc}

@[simp] theorem length_frameHeader (kind : FrameKind) (payload : List UInt8) :
    (frameHeader crc kind payload).length = frameHeaderLen := by
  simp [frameHeader, framePadZeros, frameHeaderLen]

@[simp] theorem length_writeFrame (kind : FrameKind) (payload : List UInt8) :
    (writeFrame crc kind payload).length = frameLen payload := by
  simp [writeFrame, frameLen]

variable {kind : FrameKind} {payload : List UInt8}

variable (h : payload.length ≤ maxFrameBytes)
include h

/-- Reading a frame whose header is whole comes down to reading its payload. -/
theorem readFrame_header (rest : List UInt8) :
    readFrame crc (frameHeader crc kind payload ++ rest) =
      match readExact payload.length rest with
      | none => .error .unexpectedEof
      | some (found, rest) =>
        if checksumInput crc kind.byte payload ≠ checksumInput crc kind.byte found then
          .error (.crcMismatch (checksumInput crc kind.byte payload)
            (checksumInput crc kind.byte found))
        else .ok (kind, found, rest) := by
  have hlen : ofLeBytes (leBytes 4 payload.length) = payload.length := by
    apply ofLeBytes_leBytes
    exact lt_of_le_of_lt h (by decide)
  have hcrc : ofLeBytes (leBytes 4 (checksumInput crc kind.byte payload)) =
      checksumInput crc kind.byte payload := by
    apply ofLeBytes_leBytes
    exact lt_of_lt_of_eq (UInt32.toNat_lt _) (by norm_num)
  rw [readFrame, readExact_append (length_frameHeader kind payload)]
  simp [frameHeader, framePadZeros, List.drop_append, hlen, hcrc, Nat.not_lt.mpr h,
    List.drop_eq_nil_of_le]

/-- A written frame reads back, whatever follows it. -/
theorem readFrame_writeFrame (rest : List UInt8) :
    readFrame crc (writeFrame crc kind payload ++ rest) = .ok (kind, payload, rest) := by
  rw [writeFrame, List.append_assoc, readFrame_header h, readExact_append rfl]
  simp

/-- A frame cut short reads as the end of the file. -/
theorem readFrame_take {cut : Nat} (hcut : cut < frameLen payload) :
    readFrame crc ((writeFrame crc kind payload).take cut) = .error .unexpectedEof := by
  by_cases hheader : cut < frameHeaderLen
  · have hshort : ((writeFrame crc kind payload).take cut).length < frameHeaderLen := by
      simp [List.length_take, hheader]
    rw [readFrame, readExact_eq_none hshort]
  · have hwhole : frameHeaderLen ≤ cut := Nat.not_lt.mp hheader
    have hsplit : (writeFrame crc kind payload).take cut =
        frameHeader crc kind payload ++ payload.take (cut - frameHeaderLen) := by
      rw [writeFrame, List.take_append, length_frameHeader,
        List.take_of_length_le (by rw [length_frameHeader]; exact hwhole)]
    have hshort : (payload.take (cut - frameHeaderLen)).length < payload.length := by
      simp only [List.length_take, frameLen] at hcut ⊢
      omega
    rw [hsplit, readFrame_header h, readExact_eq_none hshort]

end Ourios
