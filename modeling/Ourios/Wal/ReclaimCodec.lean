/-
# The reclamation record in bytes

A file is a header and two slots; a slot is a whole record at positions the geometry
fixes. A slot is laid out cell by cell, a cell being one structure of the format with its
reserved bytes, over a buffer that is zeroed first: what no cell is written to stays zero,
which is how an absent structure reads. Reading checks the checksum before any field.

The checksum is `crc32c`, which is not part of this repository: everything is stated for
an arbitrary one.
-/

import Ourios.Foundation.Buffer
import Ourios.Foundation.FallibleFold
import Ourios.Wal.Reclaim

namespace Ourios.Reclaim

open Ourios.Foundation

/-! ## Errors -/

/-- Why a record cannot be laid out at a geometry. -/
inductive EncodeError
  | bufferLength (found slotLen : ℕ)
  | tooManyTenants (found maxTenants : ℕ)
  | tooManyPlanned (found maxUnlinksPerPass : ℕ)
  | tooManyPairs (segment : Uuid) (found : ℕ)
  | pairWithoutTenant (segment : Uuid) (id : ℕ)
  | pairSegment (segment : Uuid) (id : ℕ) (found : Uuid)
  | entryModeDisagrees (id : ℕ) (entry : EntryMode) (recorded : RecordedMode)
  | plannedWithoutMode
  | keyLength (id found : ℕ)
  | zeroGeneration
  deriving DecidableEq

/-- Why bytes are no file header and no slot. -/
inductive FormatError
  | length (found expected : ℕ)
  | badMagic (found : List UInt8)
  | unknownVersion (found : UInt16)
  | reserved (field : String) (position : ℕ)
  | crcMismatch (found computed : ℕ)
  | slotLen (stored computed : ℕ)
  | capacity (error : GeometryError)
  | reservedHeaderFlags (found : UInt16)
  | witnessOrder (found : UInt16)
  | unknownMode (field : String) (found : UInt16)
  | nextSlotId (found maxTenants : ℕ)
  | dictionaryHole (id : ℕ)
  | dictionaryPastNext (id nextSlotId : ℕ)
  | keyLength (id found : ℕ)
  | keyNotUtf8 (id : ℕ)
  | dictionaryFlags (id : ℕ) (found : UInt16)
  | entryFlags (id : ℕ) (found : UInt16)
  | entryWithoutTenant (id : ℕ)
  | entryModeDisagrees (id : ℕ) (entry : EntryMode) (recorded : RecordedMode)
  | entryCount (stored found : ℕ)
  | duplicateKey (first id : ℕ) (key : TenantId)
  | plannedWithoutMode (found : ℕ)
  | plannedFlags (position : ℕ) (found : UInt8)
  | plannedCount (stored found : ℕ)
  | pairFlags (position id : ℕ) (found : UInt16)
  | pairWithoutTenant (position id : ℕ)
  | pairSegment (position id : ℕ) (found : Uuid)
  | tenantCount (position stored found : ℕ)
  | zeroGeneration
  | noValidSlot (first second : FormatError)
  | equalGenerations (generation : ℕ)
  deriving DecidableEq

/-! ## Numbers in a buffer -/

variable (bytes : List UInt8) (g : Geometry) (dictionary : Dictionary)

def readU8 (start : ℕ) : UInt8 :=
  UInt8.ofNat (ofLeBytes (slice bytes start 1))

def readU16 (start : ℕ) : UInt16 :=
  UInt16.ofNat (ofLeBytes (slice bytes start 2))

def readU32 (start : ℕ) : ℕ := ofLeBytes (slice bytes start 4)

def readU64 (start : ℕ) : ℕ := ofLeBytes (slice bytes start 8)

def readUuid (start : ℕ) : Uuid :=
  Fin.ofNat (2 ^ 128) (ofBeBytes (slice bytes start 16))

def readOffset (start : ℕ) : WalOffset where
  segment := readUuid bytes start
  byte := readU64 bytes (start + 16)

def writeU16 (value : UInt16) : List UInt8 := leBytes 2 value.toNat

def writeOffset (offset : WalOffset) : List UInt8 :=
  beBytes 16 offset.segment.val ++ leBytes 8 offset.byte

/-- The bytes from a position up to another are all zero. -/
def reservedZero (start stop : ℕ) (field : String) : Except FormatError Unit :=
  match (slice bytes start (stop - start)).findIdx? fun byte => byte ≠ 0 with
  | some offset => .error (.reserved field (start + offset))
  | none => .ok ()

/-! ## Flags and modes in a buffer -/

def headerFlagsMask : UInt16 := 0b1111
def checkpointArmed : UInt16 := 1
def checkpointSeen : UInt16 := 2
def publishedSeededArmed : UInt16 := 4
def publishedSeededConfirmed : UInt16 := 8
def dictTombstoned : UInt16 := 1
def entryOccupied : UInt16 := 1
def plannedUncertain : UInt8 := 1
def plannedOccupied : UInt8 := 2
def pairPresent : UInt16 := 1

def Witness.bits (armed terminal : UInt16) : Witness → UInt16
  | .unarmed => 0
  | .armed => armed
  | .terminal => armed ||| terminal

def Witness.fromBits (bits armed terminal : UInt16) : Except FormatError Witness :=
  match decide (bits &&& armed ≠ 0), decide (bits &&& terminal ≠ 0) with
  | false, false => .ok .unarmed
  | true, false => .ok .armed
  | true, true => .ok .terminal
  | false, true => .error (.witnessOrder bits)

def WitnessFlags.bits (flags : WitnessFlags) : UInt16 :=
  flags.checkpoint.bits checkpointArmed checkpointSeen |||
    flags.publishedSeeding.bits publishedSeededArmed publishedSeededConfirmed

def WitnessFlags.fromBits (bits : UInt16) : Except FormatError WitnessFlags :=
  if bits &&& ~~~headerFlagsMask ≠ 0 then .error (.reservedHeaderFlags bits)
  else do
    let checkpoint ← Witness.fromBits bits checkpointArmed checkpointSeen
    let publishedSeeding ← Witness.fromBits bits publishedSeededArmed publishedSeededConfirmed
    return { checkpoint, publishedSeeding }

def RecordedMode.code : RecordedMode → UInt16
  | .unrecorded => 0
  | .known => 1
  | .noConsumer => 2

def RecordedMode.fromCode (code : UInt16) : Except FormatError RecordedMode :=
  if code = 0 then .ok .unrecorded
  else if code = 1 then .ok .known
  else if code = 2 then .ok .noConsumer
  else .error (.unknownMode "consumer_mode" code)

def EntryMode.code : EntryMode → UInt16
  | .known => 1
  | .noConsumer => 2

def EntryMode.fromCode (code : UInt16) : Except FormatError EntryMode :=
  if code = 1 then .ok .known
  else if code = 2 then .ok .noConsumer
  else .error (.unknownMode "entry mode" code)

/-! ## Cells -/

/-- One structure of a slot, at the position the geometry gives it. -/
inductive Cell
  | header
  | dictionary (id : ℕ)
  | entry (id : ℕ)
  | planned (position : ℕ)
  | pair (position id : ℕ)
  deriving DecidableEq

namespace Cell

def start : Cell → ℕ
  | .header => 0
  | .dictionary id => Geometry.dictionaryAt id
  | .entry id => g.entryAt id
  | .planned position => g.plannedAt position
  | .pair position id => g.pairAt position id

def size : Cell → ℕ
  | .header => slotHeaderLen
  | .dictionary _ => dictRecordLen
  | .entry _ => entryLen
  | .planned _ => plannedHeaderLen
  | .pair _ _ => pairLen

end Cell

/-- A cell with the bytes it is given. -/
structure Write where
  cell : Cell
  block : List UInt8
  deriving DecidableEq

def Write.patch (write : Write) : Patch UInt8 := ⟨write.cell.start g, write.block⟩

/-! ## Laying a slot out -/

def DictRecord.flags (dict : DictRecord) : UInt16 := if dict.isLive then 0 else dictTombstoned

/-- A dictionary record: the key's length, the key, padding and flags. -/
def dictBlock (dict : DictRecord) : List UInt8 :=
  leBytes 2 dict.key.toUtf8.length ++ (dict.key.toUtf8 ++
    (List.replicate (keyLen - dict.key.toUtf8.length) 0 ++ writeU16 dict.flags))

/-- An occupied entry: flags, mode, four reserved bytes and the offset. -/
def entryBlock (entry : Entry) : List UInt8 :=
  writeU16 entryOccupied ++ (writeU16 entry.mode.code ++ (List.replicate 4 0 ++
    writeOffset entry.offset))

def PlannedUnlink.flags (planned : PlannedUnlink) : UInt8 :=
  plannedOccupied ||| if planned.uncertain then plannedUncertain else 0

/-- A planned record: the segment, how many pairs are present, four reserved bytes, flags
and a reserved byte. -/
def plannedBlock (planned : PlannedUnlink) : List UInt8 :=
  beBytes 16 planned.segment.val ++ (leBytes 2 planned.lastOffsets.entries.length ++
    (List.replicate 4 0 ++ ([planned.flags] ++ [0])))

/-- A present pair: flags, six reserved bytes and the offset. -/
def pairBlock (offset : WalOffset) : List UInt8 :=
  writeU16 pairPresent ++ (List.replicate 6 0 ++ writeOffset offset)

def headerBlock (record : ReclaimRecord) (generation entryCount : ℕ) : List UInt8 :=
  leBytes 8 generation ++ (leBytes 4 entryCount ++ (leBytes 4 record.planned.length ++
    (writeU16 record.witness.bits ++ (writeU16 record.consumerMode.code ++
      leBytes 4 record.dictionary.nextSlotId))))

def encodeDictRecord (id : ℕ) (dict : DictRecord) : Except EncodeError Write :=
  if dict.key.toUtf8 = [] ∨ keyLen < dict.key.toUtf8.length then
    .error (.keyLength id dict.key.toUtf8.length)
  else .ok ⟨.dictionary id, dictBlock dict⟩

/-- A position's entry, where its record carries one. -/
def writeEntry (id : ℕ) (dict : DictRecord) (recorded : RecordedMode) :
    Except EncodeError (List Write) :=
  match dict.state with
  | .live (some entry) =>
    if recorded.admits entry.mode then .ok [⟨.entry id, entryBlock entry⟩]
    else .error (.entryModeDisagrees id entry.mode recorded)
  | _ => .ok []

/-- The dictionary and entry arrays, with the number of entries written. -/
def writeDictionary (recorded : RecordedMode) :
    List (ℕ × DictRecord) → Except EncodeError (List Write × ℕ)
  | [] => .ok ([], 0)
  | (id, dict) :: rest => do
    let record ← encodeDictRecord id dict
    let entry ← writeEntry id dict recorded
    let (writes, entryCount) ← writeDictionary recorded rest
    return (record :: entry ++ writes, entry.length + entryCount)

/-- Every pair names a live tenant and lies in its record's segment. -/
def checkPairs (planned : PlannedUnlink) (dictionary : Dictionary) : Except EncodeError Unit :=
  let refused := planned.lastOffsets.entries.findSome? fun (id, offset) =>
    if !dictionary.isLive id then some (EncodeError.pairWithoutTenant planned.segment id)
    else if offset.segment ≠ planned.segment then
      some (.pairSegment planned.segment id offset.segment)
    else none
  match refused with
  | some error => .error error
  | none => .ok ()

/-- A planned record and its pairs. -/
def writePlanned (position : ℕ) (planned : PlannedUnlink) : Except EncodeError (List Write) := do
  checkPairs planned dictionary
  if 2 ^ 16 ≤ planned.lastOffsets.entries.length then
    throw (.tooManyPairs planned.segment planned.lastOffsets.entries.length)
  return ⟨.planned position, plannedBlock planned⟩ ::
    planned.lastOffsets.entries.map fun (id, offset) => ⟨.pair position id, pairBlock offset⟩

/-- Every cell of a record's slot. -/
def slotWrites (record : ReclaimRecord) (generation : ℕ) : Except EncodeError (List Write) := do
  let (dictionary, entryCount) ← writeDictionary record.consumerMode record.dictionary.iter
  let planned ← gather (fun (planned, position) => writePlanned record.dictionary position planned)
    record.planned.zipIdx
  return dictionary ++ planned ++ [⟨.header, headerBlock record generation entryCount⟩]

/-- A zeroed slot with cells written to it, closed by the checksum of what is before. -/
def sealSlot (crc : Crc) (g : Geometry) (writes : List Write) : List UInt8 :=
  let laid := Patch.applyAll (List.replicate g.slotLen 0) (writes.map (Write.patch g))
  overwrite laid g.trailerOffset (leBytes 4 (crc (laid.take g.trailerOffset)).toNat)

/-- Lay a record out into a buffer of one slot, which is zeroed first. -/
def encodeSlotInto (crc : Crc) (record : ReclaimRecord) (generation : ℕ) (g : Geometry)
    (out : List UInt8) : Except EncodeError (List UInt8) :=
  if out.length ≠ g.slotLen then .error (.bufferLength out.length g.slotLen)
  else if generation = 0 then .error .zeroGeneration
  else if g.maxTenants < record.dictionary.records.length then
    .error (.tooManyTenants record.dictionary.records.length g.maxTenants)
  else if g.maxUnlinksPerPass < record.planned.length then
    .error (.tooManyPlanned record.planned.length g.maxUnlinksPerPass)
  else if record.consumerMode = .unrecorded ∧ record.planned ≠ [] then
    .error .plannedWithoutMode
  else do
    let writes ← slotWrites record generation
    return sealSlot crc g writes

/-! ## Reading a slot back -/

structure DecodedSlot where
  generation : ℕ
  record : ReclaimRecord
  deriving DecidableEq

/-- A dictionary record's key and tombstone bit, none for an unused position. -/
def decodeDictRecord (id nextSlotId : ℕ) : Except FormatError (Option (TenantId × Bool)) :=
  let len := (readU16 bytes 0).toNat
  if len = 0 then
    if id < nextSlotId then .error (.dictionaryHole id)
    else do
      reservedZero bytes 2 dictRecordLen "dictionary record"
      return none
  else if ¬ id < nextSlotId then .error (.dictionaryPastNext id nextSlotId)
  else if keyLen < len then .error (.keyLength id len)
  else
    match Text.fromUtf8 (slice bytes 2 len) with
    | none => .error (.keyNotUtf8 id)
    | some key => do
      reservedZero bytes (2 + len) 130 "dictionary key padding"
      let flags := readU16 bytes 130
      if flags &&& ~~~dictTombstoned ≠ 0 then throw (.dictionaryFlags id flags)
      return some (key, decide (flags &&& dictTombstoned ≠ 0))

def decodeEntry (id : ℕ) : Except FormatError (Option Entry) :=
  let flags := readU16 bytes 0
  if flags &&& ~~~entryOccupied ≠ 0 then .error (.entryFlags id flags)
  else if flags &&& entryOccupied = 0 then do
    reservedZero bytes 2 entryLen "entry"
    return none
  else do
    let mode ← EntryMode.fromCode (readU16 bytes 2)
    reservedZero bytes 4 8 "entry"
    return some ⟨mode, readOffset bytes 8⟩

/-- A position's dictionary record and entry together: an entry stands only beside a live
record. -/
def slotRecord (id : ℕ) : Option (TenantId × Bool) → Option Entry →
    Except FormatError (Option DictRecord)
  | none, none => .ok none
  | some (key, false), reclaimedThrough => .ok (some ⟨key, .live reclaimedThrough⟩)
  | some (key, true), none => .ok (some ⟨key, .tombstoned⟩)
  | none, some _ | some (_, true), some _ => .error (.entryWithoutTenant id)

/-- A record carries a proof of loss. -/
def DictRecord.isOccupied (record : DictRecord) : Bool :=
  match record.state with
  | .live (some _) => true
  | _ => false

def occupiedEntries : ℕ :=
  (dictionary.iter.filter fun (_, record) => record.isOccupied).length

/-- No two live records name one tenant. -/
def liveKeysAreDistinct (seen : List (TenantId × ℕ)) :
    List (ℕ × DictRecord) → Except FormatError Unit
  | [] => .ok ()
  | (id, record) :: rest =>
    match seen.lookup record.key with
    | some first => .error (.duplicateKey first id record.key)
    | none => liveKeysAreDistinct ((record.key, id) :: seen) rest

/-- Every entry was written under the mode the slot recorded. -/
def entriesAgreeWith (recorded : RecordedMode) : Except FormatError Unit :=
  let refused := dictionary.live.findSome? fun (id, record) =>
    match record.state with
    | .live (some entry) =>
      if recorded.admits entry.mode then none
      else some (FormatError.entryModeDisagrees id entry.mode recorded)
    | _ => none
  match refused with
  | some error => .error error
  | none => .ok ()

/-- One turn of the loop over the dictionary and entry arrays. -/
def decodePosition (nextSlotId id : ℕ) : Except FormatError (List DictRecord) := do
  let key ← decodeDictRecord (bytes.drop (Geometry.dictionaryAt id)) id nextSlotId
  let entry ← decodeEntry (bytes.drop (g.entryAt id)) id
  let record ← slotRecord id key entry
  return record.toList

/-- The dictionary and entry arrays, read in lockstep. -/
def decodeDictionary (nextSlotId entryCount : ℕ) : Except FormatError Dictionary := do
  let records ← gather (decodePosition bytes g nextSlotId) g.ids
  let dictionary : Dictionary := ⟨records⟩
  if occupiedEntries dictionary ≠ entryCount then
    throw (.entryCount entryCount (occupiedEntries dictionary))
  liveKeysAreDistinct [] dictionary.live
  return dictionary

/-- A planned pair's offset, none where the pair is absent. -/
def decodePair (position id : ℕ) : Except FormatError (Option WalOffset) :=
  let flags := readU16 bytes 0
  if flags &&& ~~~pairPresent ≠ 0 then .error (.pairFlags position id flags)
  else do
    reservedZero bytes 2 8 "planned pair"
    if flags &&& pairPresent = 0 then
      reservedZero bytes 8 pairLen "planned pair"
      return none
    if !dictionary.isLive id then throw (.pairWithoutTenant position id)
    return some (readOffset bytes 8)

/-- One turn of the loop over the pairs of a planned position. -/
def decodePresent (position : ℕ)
    (segment : Uuid) (id : ℕ) : Except FormatError (List (ℕ × WalOffset)) := do
  match ← decodePair (bytes.drop (g.pairAt position id)) dictionary position id with
  | none => return []
  | some offset =>
    if offset.segment ≠ segment then throw (.pairSegment position id offset.segment)
    return [(id, offset)]

/-- A planned position, none where no segment takes it: the whole stride is then zero. -/
def decodePlannedRecord (position : ℕ) : Except FormatError (Option PlannedUnlink) :=
  let start := g.plannedAt position
  let flags := readU8 bytes (start + 22)
  if flags &&& ~~~(plannedOccupied ||| plannedUncertain) ≠ 0 then
    .error (.plannedFlags position flags)
  else do
    reservedZero bytes (start + 18) (start + 22) "planned record"
    reservedZero bytes (start + 23) (start + 24) "planned record"
    if flags &&& plannedOccupied = 0 then
      if flags ≠ 0 then throw (.plannedFlags position flags)
      reservedZero bytes start (start + 18) "planned record"
      reservedZero bytes (start + 24) (start + g.plannedStride) "planned pairs"
      return none
    let segment := readUuid bytes start
    let pairs ← gather (decodePresent bytes g dictionary position segment) g.ids
    let lastOffsets := OrderedMap.ofList pairs
    let tenantCount := (readU16 bytes (start + 16)).toNat
    if tenantCount ≠ lastOffsets.entries.length then
      throw (.tenantCount position tenantCount lastOffsets.entries.length)
    return some ⟨segment, decide (flags &&& plannedUncertain ≠ 0), lastOffsets⟩

/-- One turn of the loop over the planned array. -/
def decodeRow (position : ℕ) : Except FormatError (List PlannedUnlink) := do
  let record ← decodePlannedRecord bytes g dictionary position
  return record.toList

def decodePlanned (plannedCount : ℕ) : Except FormatError (List PlannedUnlink) := do
  let planned ← gather (decodeRow bytes g dictionary) (List.range g.maxUnlinksPerPass)
  if planned.length ≠ plannedCount then throw (.plannedCount plannedCount planned.length)
  return planned

/-- Read one slot back. The checksum is checked before any field is read. -/
def decodeSlot (crc : Crc) (bytes : List UInt8) (g : Geometry) : Except FormatError DecodedSlot :=
  if bytes.length ≠ g.slotLen then .error (.length bytes.length g.slotLen)
  else
    let computed := (crc (bytes.take g.trailerOffset)).toNat
    let found := readU32 bytes g.trailerOffset
    if found ≠ computed then .error (.crcMismatch found computed)
    else do
      reservedZero bytes (g.trailerOffset + 4) (g.trailerOffset + 8) "slot trailer"
      let generation := readU64 bytes 0
      if generation = 0 then throw .zeroGeneration
      let witness ← WitnessFlags.fromBits (readU16 bytes 16)
      let consumerMode ← RecordedMode.fromCode (readU16 bytes 18)
      let nextSlotId := readU32 bytes 20
      if g.maxTenants < nextSlotId then throw (.nextSlotId nextSlotId g.maxTenants)
      let dictionary ← decodeDictionary bytes g nextSlotId (readU32 bytes 8)
      entriesAgreeWith dictionary consumerMode
      let plannedCount := readU32 bytes 12
      if consumerMode = .unrecorded ∧ plannedCount ≠ 0 then
        throw (.plannedWithoutMode plannedCount)
      let planned ← decodePlanned bytes g dictionary plannedCount
      return ⟨generation, ⟨witness, consumerMode, dictionary, planned⟩⟩

/-- The slot a reader believes: the valid one of the greater generation. -/
def chooseLive : Except FormatError DecodedSlot → Except FormatError DecodedSlot →
    Except FormatError (SlotIndex × DecodedSlot)
  | .ok a, .ok b =>
    if b.generation < a.generation then .ok (.first, a)
    else if a.generation < b.generation then .ok (.second, b)
    else .error (.equalGenerations a.generation)
  | .ok a, .error _ => .ok (.first, a)
  | .error _, .ok b => .ok (.second, b)
  | .error first, .error second => .error (.noValidSlot first second)

/-! ## The file header -/

/-- `"OWRC"`. -/
def magic : List UInt8 := [0x4F, 0x57, 0x52, 0x43]

def version : UInt16 := 1

def fileHeaderCrcCovers : ℕ := 24

def fileHeaderFields : List UInt8 :=
  magic ++ (writeU16 version ++ (List.replicate 2 0 ++ (leBytes 8 g.slotLen ++
    (leBytes 4 g.maxTenants ++ leBytes 4 g.maxUnlinksPerPass))))

def encodeFileHeader (crc : Crc) (g : Geometry) : List UInt8 :=
  fileHeaderFields g ++ (leBytes 4 (crc (fileHeaderFields g)).toNat ++ List.replicate 4 0)

/-- The geometry a file header was written at, once every field checks. -/
def decodeFileHeader (crc : Crc) (bytes : List UInt8) : Except FormatError Geometry :=
  if bytes.length ≠ fileHeaderLen then .error (.length bytes.length fileHeaderLen)
  else if slice bytes 0 4 ≠ magic then .error (.badMagic (slice bytes 0 4))
  else if readU16 bytes 4 ≠ version then .error (.unknownVersion (readU16 bytes 4))
  else do
    reservedZero bytes 6 8 "file header"
    let computed := (crc (bytes.take fileHeaderCrcCovers)).toNat
    let found := readU32 bytes 24
    if found ≠ computed then throw (.crcMismatch found computed)
    reservedZero bytes 28 32 "file header"
    let stored := readU64 bytes 8
    match Geometry.new (readU32 bytes 16) (readU32 bytes 20) with
    | .error error => throw (.capacity error)
    | .ok geometry =>
      if stored ≠ geometry.slotLen then throw (.slotLen stored geometry.slotLen)
      return geometry

end Ourios.Reclaim
