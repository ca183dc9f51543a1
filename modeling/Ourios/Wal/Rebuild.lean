/-
# Rebuilding the ledger from the log

A live append enters its frame into the segment ledger; after a restart the ledger is
rebuilt by scanning the segments that are there. Both read the tenant of a frame through
the same functions, so on frames whose payloads the encoders built a rebuilt ledger is the
one that observing the surviving frames as they were appended gives, whatever the newest
segment was cut back to.
-/

import Ourios.Wal.Durability
import Ourios.Wal.Ledger
import Ourios.Wal.Payload

namespace Ourios

open Ourios.Foundation Ourios.Retain

/-! ### The recovery walk -/

inductive LedgerError
  | tenantTooLong (offset : WalOffset) (found limit : Nat)
  | scan (error : RecoveryError)
  deriving DecidableEq, Repr

variable (root : Text)

def segmentPath (uuid : Uuid) : Text :=
  root ++ "/".toList ++ uuid.hyphenated ++ ".wal".toList

/-- What the walk does with a frame it is handed. A tenant longer than the bound stops it;
every other malformed prefix leaves a frame without a tenant. -/
def consume (path : Text) (ledger : SegmentLedger) (record : Delivered) :
    Except LedgerError SegmentLedger :=
  let observed (tenant : Option TenantId) :=
    ledger.observe ⟨record.offset, frameLen record.payload, tenant, path⟩
  match tenantBatchPayload record.kind record.payload with
  | none => .ok (observed none)
  | some batch =>
    match TenantBatch.decode batch with
    | .error (.tenantTooLong found) =>
      .error (.tenantTooLong record.offset found maxTenantBytes)
    | .error _ => .ok (observed none)
    | .ok batch => .ok (observed (some batch.tenant))

/-- Walk segments in order; the last of them is the newest. A torn tail is no error. -/
def rebuildSegments (crc : Crc) (root : Text) :
    SegmentLedger → List SegmentFile → Except LedgerError SegmentLedger
  | ledger, [] => .ok ledger
  | ledger, file :: later =>
    let scanned := replaySegment crc file later.isEmpty
    match scanned.1.foldlM (consume (segmentPath root file.uuid)) ledger with
    | .error error => .error error
    | .ok ledger =>
      match scanned.2 with
      | .error error => .error (.scan error)
      | .ok _ => rebuildSegments crc root ledger later

/-- `rebuild`: walk every segment, after which the ledger describes the root. -/
def rebuild (crc : Crc) (root : Text) (files : List SegmentFile) :
    Except LedgerError SegmentLedger :=
  (rebuildSegments crc root {} (listSegments files)).map SegmentLedger.describeRoot

/-! ### Observing frames as they are appended -/

/-- A frame as a live append enters it. -/
def frameOf (record : Delivered) : FrameAt where
  offset := record.offset
  bytes := frameLen record.payload
  tenant := tenantOf record.kind record.payload
  path := segmentPath root record.offset.segment

/-- The ledger after observing frames in order. -/
def observeAll (ledger : SegmentLedger) (records : List Delivered) : SegmentLedger :=
  records.foldl (fun ledger record => ledger.observe (frameOf root record)) ledger

@[simp] theorem observeAll_append (ledger : SegmentLedger) (first second : List Delivered) :
    observeAll root ledger (first ++ second) =
      observeAll root (observeAll root ledger first) second :=
  List.foldl_append

/-- On a frame the encoders built, the walk observes what the append did. -/
theorem consume_eq {record : Delivered}
    (h : Encoded record.kind record.payload) (ledger : SegmentLedger) :
    consume (segmentPath root record.offset.segment) ledger record =
      .ok (ledger.observe (frameOf root record)) := by
  unfold consume frameOf tenantOf
  cases hbatch : tenantBatchPayload record.kind record.payload with
  | none => rfl
  | some batch =>
    obtain ⟨decoded, hdecoded⟩ := h.decode hbatch
    simp only [hdecoded]

theorem foldlM_consume {uuid : Uuid} {records : List Delivered}
    (hsegment : ∀ record ∈ records, record.offset.segment = uuid)
    (hencoded : ∀ record ∈ records, Encoded record.kind record.payload)
    (ledger : SegmentLedger) :
    records.foldlM (consume (segmentPath root uuid)) ledger =
      .ok (observeAll root ledger records) := by
  induction records generalizing ledger with
  | nil => rfl
  | cons record records ih =>
    have hrecord := consume_eq root (hencoded record (by simp)) ledger
    rw [hsegment record (by simp)] at hrecord
    rw [List.foldlM_cons, hrecord]
    exact ih (fun other hmem => hsegment other (by simp [hmem]))
      (fun other hmem => hencoded other (by simp [hmem])) _

variable {crc : Crc}

theorem LogSegment.segment_of_mem_readable {segment : LogSegment crc} {record : Delivered}
    (h : record ∈ segment.readable) : record.offset.segment = segment.file.uuid :=
  segment_of_mem_recordsFrom (List.mem_of_mem_filter h)

/-- Walking whole segments observes everything that can be read of them. -/
theorem rebuildSegments_whole {root : Text} {segments : List (LogSegment crc)}
    (hwhole : ∀ segment ∈ segments, segment.Whole)
    (hencoded : ∀ record ∈ segments.flatMap LogSegment.readable,
      Encoded record.kind record.payload) (ledger : SegmentLedger) :
    rebuildSegments crc root ledger (segments.map LogSegment.file) =
      .ok (observeAll root ledger (segments.flatMap LogSegment.readable)) := by
  induction segments generalizing ledger with
  | nil => rfl
  | cons segment segments ih =>
    have hconsumed := foldlM_consume root
      (fun record hmem => LogSegment.segment_of_mem_readable hmem)
      (fun record hmem => hencoded record (List.mem_append_left _ hmem)) ledger
    rw [List.map_cons, rebuildSegments,
      LogSegment.replaySegment_whole (hwhole segment (by simp))]
    simp only [hconsumed, List.flatMap_cons, observeAll_append]
    exact ih (fun other hmem => hwhole other (by simp [hmem]))
      (fun record hmem => hencoded record (List.mem_append_right _ hmem)) _

/-- On the root of a process that has replayed it, the rebuilt ledger is that of the
frames that can be read. -/
theorem Writing.rebuild {log : Log crc} {wal : Wal} {acked pending : List Delivered}
    (h : Writing log wal acked pending) (root : Text)
    (hencoded : ∀ record ∈ log.readable, Encoded record.kind record.payload) :
    Ourios.rebuild crc root wal.files = .ok (observeAll root {} log.readable).describeRoot := by
  rw [Ourios.rebuild, h.files, listSegments_of_pairwise log.ascending_files, Log.files,
    rebuildSegments_whole h.whole hencoded]
  rfl

/-! ### Cutting the newest segment -/

namespace LogSegment

/-- A segment cut at or after its header. -/
def trim (segment : LogSegment crc) (len : Nat) (hlen : segmentHeaderLen ≤ len) :
    LogSegment crc where
  file := { segment.file with
    bytes := segment.file.bytes.take len
    synced := min segment.file.synced len }
  frames := segment.frames
  fits := segment.fits
  written := (List.take_prefix _ _).trans segment.written
  header := by
    rw [List.length_take]
    exact le_min hlen segment.header
  synced_le := by
    rw [List.length_take, min_comm]
    exact min_le_min_left len segment.synced_le

variable {segment : LogSegment crc} {len : Nat} {hlen : segmentHeaderLen ≤ len}

/-- The frames that end before the cut can still be read. -/
theorem trim_readable : (segment.trim len hlen).readable =
    segment.readable.filter fun record => record.offset.byte ≤ len := by
  rw [readable, readable, List.filter_filter]
  apply List.filter_congr
  intro record _
  simp [trim, List.length_take]

/-- Where the last whole frame ends, read off the frames. -/
theorem getD_getLast_recordsFrom (uuid : Uuid) (pos : Nat) (frames : List Frame) :
    (((recordsFrom uuid pos frames).getLast?.map fun record => record.offset.byte).getD pos) =
      pos + (encodeFrames crc frames).length := by
  induction frames using List.reverseRecOn with
  | nil => simp [recordsFrom]
  | append_singleton frames frame _ =>
    rw [recordsFrom_append crc, encodeFrames_append]
    simp [recordsFrom, encodeFrames]
    omega

theorem validTo_eq (segment : LogSegment crc) : segment.validTo =
    ((segment.readable.getLast?.map fun record => record.offset.byte).getD segmentHeaderLen) := by
  rw [← cut_records]
  exact (getD_getLast_recordsFrom _ _ _).symm

theorem validTo_le (segment : LogSegment crc) : segment.validTo ≤ segment.file.bytes.length := by
  have hlen := congrArg List.length segment.take_validTo
  rw [List.length_take, segmentBytes, List.length_append, length_writeHeader] at hlen
  exact min_eq_left_iff.mp hlen

/-- Cutting a segment and then cutting it back leaves the front of its bytes. -/
theorem trim_cut_contents : (segment.trim len hlen).cut.file.contents =
    (segment.file.uuid, segment.file.bytes.take (segment.trim len hlen).validTo) := by
  have hle : (segment.trim len hlen).validTo ≤ len :=
    (validTo_le _).trans (List.length_take_le _ _)
  have htake : (segment.file.bytes.take len).take (segment.trim len hlen).validTo =
      segment.file.bytes.take (segment.trim len hlen).validTo := by
    rw [List.take_take, min_eq_left hle]
  exact congrArg (segment.file.uuid, ·) htake

end LogSegment

/-- A frame lies wholly before a cut of the newest segment. -/
def endsBefore (newest : Uuid) (cut : Nat) (record : Delivered) : Bool :=
  record.offset.segment ≠ newest || record.offset.byte ≤ cut

def lastEnd (segment : Uuid) (records : List Delivered) : Nat :=
  ((records.filter fun record => record.offset.segment = segment).getLast?.map fun record =>
    record.offset.byte).getD segmentHeaderLen

section Cut

variable {closed : List (LogSegment crc)} {last : LogSegment crc}

variable (hbelow : ∀ segment ∈ closed, segment.file.uuid < last.file.uuid)
include hbelow

/-- A record of a closed segment is not of the last one. -/
theorem segment_ne_of_mem_closed {record : Delivered}
    (h : record ∈ closed.flatMap LogSegment.readable) :
    record.offset.segment ≠ last.file.uuid := by
  obtain ⟨segment, hmem, hrecord⟩ := List.mem_flatMap.mp h
  rw [LogSegment.segment_of_mem_readable hrecord]
  exact (hbelow segment hmem).ne

/-- Cutting the last segment leaves the frames that end before the cut. -/
theorem readable_trim {cut : Nat} (hcut : segmentHeaderLen ≤ cut) :
    (closed ++ [last.trim cut hcut]).flatMap LogSegment.readable =
      ((closed ++ [last]).flatMap LogSegment.readable).filter
        (endsBefore last.file.uuid cut) := by
  have hclosed : (closed.flatMap LogSegment.readable).filter (endsBefore last.file.uuid cut) =
      closed.flatMap LogSegment.readable := by
    rw [List.filter_eq_self]
    intro record hmem
    simp [endsBefore, segment_ne_of_mem_closed hbelow hmem]
  have hlast : last.readable.filter (endsBefore last.file.uuid cut) =
      last.readable.filter fun record => record.offset.byte ≤ cut := by
    apply List.filter_congr
    intro record hmem
    simp [endsBefore, LogSegment.segment_of_mem_readable hmem]
  simp only [List.flatMap_append, List.flatMap_cons, List.flatMap_nil, List.append_nil,
    List.filter_append, hclosed, hlast, LogSegment.trim_readable]

theorem lastEnd_eq :
    lastEnd last.file.uuid ((closed ++ [last]).flatMap LogSegment.readable) = last.validTo := by
  have hclosed : (closed.flatMap LogSegment.readable).filter
      (fun record => record.offset.segment = last.file.uuid) = [] := by
    rw [List.filter_eq_nil_iff]
    intro record hmem
    simpa using segment_ne_of_mem_closed hbelow hmem
  have hlast : last.readable.filter (fun record => record.offset.segment = last.file.uuid) =
      last.readable := by
    rw [List.filter_eq_self]
    intro record hmem
    simpa using LogSegment.segment_of_mem_readable hmem
  rw [LogSegment.validTo_eq, lastEnd]
  simp only [List.flatMap_append, List.flatMap_cons, List.flatMap_nil, List.append_nil,
    List.filter_append, hclosed, hlast, List.nil_append]

end Cut

/-! ### A writer and its ledger -/

/-- An open writer with the ledger its appends update. -/
structure Recorder where
  wal : Wal
  ledger : SegmentLedger

/-- What a caller does on an open writer. -/
inductive WriterCall
  | append (kind : FrameKind) (payload : List UInt8) (io : Wal.AppendIo)
  | rotate (kind : RotationKind) (stat : Bool) (io : Wal.RotationIo)

namespace WriterCall

/-- The uuid a call may mint. -/
def fresh : WriterCall → Mint
  | append _ _ io => io.rotation.fresh
  | rotate _ _ io => io.fresh

/-- The mint of a call is one `Uuid::now_v7` can return. -/
def Mintable (recorder : Recorder) (call : WriterCall) : Prop :=
  call.fresh.Follows recorder.wal.minted

/-- The call returns no error. -/
def Succeeds (crc : Crc) (recorder : Recorder) : WriterCall → Prop
  | append kind payload io => (recorder.wal.append crc kind payload io).1.isOk = true
  | rotate kind stat io => (recorder.wal.rotate kind stat io).1.isOk = true

instance (recorder : Recorder) (call : WriterCall) : Decidable (call.Mintable recorder) :=
  inferInstanceAs (Decidable (call.fresh.Follows recorder.wal.minted))

instance (crc : Crc) (recorder : Recorder) (call : WriterCall) :
    Decidable (call.Succeeds crc recorder) :=
  match call with
  | .append _ _ _ => inferInstanceAs (Decidable (_ = true))
  | .rotate _ _ _ => inferInstanceAs (Decidable (_ = true))

/-- The payload of an append was built by the encoder of its kind. -/
def Encodes : WriterCall → Prop
  | append kind payload _ => Encoded kind payload
  | rotate _ _ _ => True

end WriterCall

namespace Recorder

/-- The writer `open` returns on an empty root. -/
def opened (config : WalConfig) (first : Mint) : Recorder where
  wal := Wal.opened config [.fresh first.uuid] first.uuid first.uuid (some first) []
  ledger := ({} : SegmentLedger).describeRoot

/-- One call. An append emits the frame its caller is told of. -/
def step (crc : Crc) (root : Text) (recorder : Recorder) : WriterCall →
    Recorder × List Delivered
  | .append kind payload io =>
    match recorder.wal.append crc kind payload io with
    | (.ok offset, wal) =>
      (⟨wal, recorder.ledger.observe ⟨offset, frameLen payload, tenantOf kind payload,
        segmentPath root wal.currentSegmentPath⟩⟩, [⟨offset, kind, payload⟩])
    | (.error _, wal) => ({ recorder with wal }, [])
  | .rotate kind stat io => ({ recorder with wal := (recorder.wal.rotate kind stat io).2 }, [])

def machine (crc : Crc) (root : Text) : Machine Recorder WriterCall Delivered :=
  ⟨step crc root⟩

/-- Exactly the emitted frames can be read, and the ledger has observed them. -/
structure Exact (crc : Crc) (root : Text) (recorder : Recorder) (emitted : List Delivered) :
    Prop where
  writing : ∃ log : Log crc, Writing log recorder.wal [] emitted ∧ log.readable = emitted
  chronological : ∃ events, Chronological recorder.wal events
  found : recorder.wal.found = []
  ledger : recorder.ledger = observeAll root ({} : SegmentLedger).describeRoot emitted
  encoded : ∀ record ∈ emitted, Encoded record.kind record.payload

theorem exact_opened (crc : Crc) (root : Text) (config : WalConfig) (first : Mint) :
    (opened config first).Exact crc root [] := by
  let segment : LogSegment crc := .empty (.fresh first.uuid) rfl (Nat.zero_le _)
  let log : Log crc := ⟨[segment], List.pairwise_singleton _ _, ?_⟩
  have hreadable : log.readable = [] := by
    simp [log, Log.readable, segment, LogSegment.empty, LogSegment.readable,
      LogSegment.records, recordsFrom]
  have hcurrent : (opened config first).wal.Current [] (.fresh first.uuid) :=
    ⟨rfl, rfl, rfl, by simp⟩
  refine ⟨⟨log, ⟨rfl, ?_, ⟨[], _, hcurrent⟩, ?_, ?_, ?_⟩, hreadable⟩, ⟨[], ?_⟩, rfl, rfl, by simp⟩
  · intro other hmem
    obtain rfl : other = segment := by simpa [log] using hmem
    simp [LogSegment.Whole, segment, LogSegment.empty, SegmentFile.fresh, segmentBytes]
  · intro hclean
    cases hclean
  · simp
  · simp
  · refine ⟨by simp [opened, Wal.opened], ⟨[], _, hcurrent, ?_, by simp⟩, ?_, List.Pairwise.nil⟩
    · exact List.prefix_rfl
    · intro file hmem
      obtain rfl : file = .fresh first.uuid := by simpa [opened, Wal.opened] using hmem
      exact .inr ⟨first, rfl, le_refl _⟩
  · intro other hmem later hlater hlt
    obtain rfl : other = segment := by simpa using hmem
    obtain rfl : later = segment := by simpa using hlater
    exact absurd hlt (lt_irrefl _)

namespace Exact

variable {root : Text} {recorder : Recorder} {emitted : List Delivered}

variable (h : recorder.Exact crc root emitted)
include h

/-- The mints of the process are above every segment. -/
theorem lt_fresh {mint : Mint} (hmint : mint.Follows recorder.wal.minted) :
    ∀ file ∈ recorder.wal.files, file.uuid < mint.uuid := by
  obtain ⟨events, hevents⟩ := h.chronological
  apply hevents.lt_fresh hmint
  rw [h.found]
  simp

theorem append {kind : FrameKind} {payload : List UInt8}
    {io : Wal.AppendIo} (hmint : io.rotation.fresh.Follows recorder.wal.minted)
    (hencoded : Encoded kind payload) {offset : WalOffset} {next : Wal}
    (happend : recorder.wal.append crc kind payload io = (.ok offset, next)) :
    (⟨next, recorder.ledger.observe ⟨offset, frameLen payload, tenantOf kind payload,
      segmentPath root next.currentSegmentPath⟩⟩ : Recorder).Exact crc root
        (emitted ++ [⟨offset, kind, payload⟩]) := by
  have hfresh := h.lt_fresh hmint
  obtain ⟨log, hwriting, hreadable⟩ := h.writing
  obtain ⟨events, hevents⟩ := h.chronological
  obtain ⟨hwrite, hsegment⟩ := Wal.append_eq_ok happend
  have hnext := hwriting.append kind payload hfresh (by simp [hwrite])
  have hchron := hevents.append crc kind payload hfresh
  have hfound := recorder.wal.found_append crc kind payload io
  rw [happend] at hnext hchron hfound
  obtain ⟨longer, hlonger, hsame⟩ := hnext
  obtain ⟨closed, file, hcurrent⟩ := hlonger.current
  have hpath : next.currentSegmentPath = offset.segment := by
    rw [hsegment, ← hcurrent.path, ← hcurrent.uuid]
  refine ⟨⟨longer, hlonger, ?_⟩, ⟨_, hchron⟩, hfound.trans h.found, ?_, ?_⟩
  · rw [hsame, hreadable]
    rfl
  · rw [observeAll_append, ← h.ledger, hpath]
    rfl
  · intro record hmem
    rcases List.mem_append.mp hmem with hold | hnew
    · exact h.encoded record hold
    · obtain rfl : record = ⟨offset, kind, payload⟩ := by simpa using hnew
      exact hencoded

theorem rotate (kind : RotationKind) (stat : Bool)
    {io : Wal.RotationIo} (hmint : io.fresh.Follows recorder.wal.minted) :
    ({ recorder with wal := (recorder.wal.rotate kind stat io).2 } : Recorder).Exact crc root
      emitted := by
  have hfresh := h.lt_fresh hmint
  obtain ⟨log, hwriting, hreadable⟩ := h.writing
  obtain ⟨events, hevents⟩ := h.chronological
  obtain ⟨next, hnext, hsame⟩ := hwriting.rotate kind stat hfresh
  exact ⟨⟨next, hnext, hsame.trans hreadable⟩, ⟨events, hevents.rotate kind stat hfresh⟩,
    (recorder.wal.found_rotate kind stat io).trans h.found, h.ledger, h.encoded⟩

/-- One successful call keeps the log and the ledger those of the emitted frames. -/
theorem step {call : WriterCall}
    (hmint : call.Mintable recorder) (hsucceeds : call.Succeeds crc recorder)
    (hencodes : call.Encodes) :
    (recorder.step crc root call).1.Exact crc root
      (emitted ++ (recorder.step crc root call).2) := by
  cases call with
  | append kind payload io =>
    rcases happend : recorder.wal.append crc kind payload io with ⟨result, next⟩
    simp only [WriterCall.Succeeds, happend] at hsucceeds
    cases result with
    | error error => cases hsucceeds
    | ok offset =>
      simp only [Recorder.step, happend]
      exact h.append hmint hencodes happend
  | rotate kind stat io =>
    simp only [Recorder.step, List.append_nil]
    exact h.rotate kind stat hmint

end Exact

end Recorder

/-- For every run of successful calls and every cut of the newest segment behind its
header: a replay delivers the frames that lie wholly before the cut as their appends
returned them, cuts the newest segment back to the last of them, changes nothing when it
is repeated, and the ledger rebuilt then is the one of those appends. -/
theorem Recorder.replay_rebuild_of_cut (crc : Crc) (root : Text) (config : WalConfig)
    (first : Mint) (calls : List WriterCall)
    (hcalls : (Recorder.machine crc root).Meets (fun recorder call =>
      call.Mintable recorder ∧ call.Succeeds crc recorder ∧ call.Encodes)
      (Recorder.opened config first) calls)
    (cut : Nat) (hcut : segmentHeaderLen ≤ cut) (again : WalConfig) (fresh : Mint) :
    let run := (Recorder.machine crc root).run (Recorder.opened config first) calls
    let newest := run.1.wal.currentSegmentPath
    let kept := run.2.filter (endsBefore newest cut)
    run.1.ledger = observeAll root ({} : SegmentLedger).describeRoot run.2 ∧
      ∃ opened healed,
        (Wal.openRoot again (run.1.wal.setLen cut).files ⟨true, true, none, fresh⟩).1 =
            .ok opened ∧
        opened.replay crc = (kept, .ok healed) ∧
        healed.files.map SegmentFile.contents = run.1.wal.files.map (fun file =>
          (file.uuid, if file.uuid = newest then file.bytes.take (lastEnd newest kept)
            else file.bytes)) ∧
        healed.replay crc = (kept, .ok healed) ∧
        rebuild crc root healed.files = .ok (observeAll root {} kept).describeRoot := by
  intro run newest kept
  have hexact : run.1.Exact crc root run.2 := by
    have hrun := (Recorder.machine crc root).run_invariant
      (fun recorder emitted => recorder.Exact crc root emitted)
      (fun recorder emitted call h hok => h.step hok.1 hok.2.1 hok.2.2)
      (Recorder.exact_opened crc root config first) hcalls
    rwa [List.nil_append] at hrun
  refine ⟨hexact.ledger, ?_⟩
  obtain ⟨log, hwriting, hreadable⟩ := hexact.writing
  obtain ⟨closed, last, hsegments, hcurrent⟩ := hwriting.split
  have hnewest : last.file.uuid = newest := hcurrent.path
  have hbelow : ∀ segment ∈ closed, segment.file.uuid < last.file.uuid :=
    fun segment hmem => hcurrent.below _ (List.mem_map_of_mem hmem)
  let trimmed := last.trim cut hcut
  have htrimmed : trimmed.file.uuid = last.file.uuid := rfl
  have hkept : (closed ++ [trimmed]).flatMap LogSegment.readable = kept := by
    rw [readable_trim hbelow, ← hsegments, hnewest]
    exact congrArg _ hreadable
  have hresting : Resting (log.setLast hsegments trimmed htrimmed) (run.1.wal.setLen cut).files []
      kept := by
    refine ⟨?_, ?_, List.nil_sublist _⟩
    · rw [(hcurrent.setLen cut).files, Log.files, Log.setLast_segments, List.map_append]
      rfl
    · exact hkept ▸ List.Sublist.refl _
  obtain ⟨opened, healed, hopen, hreplay, hfiles, next, hnext, hsame⟩ :=
    hresting.reopen rfl again fresh
  have hall : next.readable = kept := hsame.trans hkept
  refine ⟨opened, healed, hopen, ?_, ?_, ?_, ?_⟩
  · rw [hreplay]
    exact congrArg (·, Except.ok healed) hkept
  · have hend : lastEnd newest kept = trimmed.validTo := by
      rw [← hkept, ← hnewest]
      have hbelow' : ∀ segment ∈ closed, segment.file.uuid < trimmed.file.uuid := hbelow
      exact lastEnd_eq hbelow'
    rw [hfiles, hend, hcurrent.files, ← hnewest]
    simp only [List.map_append, List.map_cons, List.map_nil, if_true, List.map_map]
    congr 1
    · apply List.map_congr_left
      intro segment hmem
      simp [SegmentFile.contents, (hbelow segment hmem).ne]
    · exact congrArg (fun contents => [contents]) LogSegment.trim_cut_contents
  · rw [hnext.replay, hall]
  · rw [hnext.rebuild root ?_, hall]
    intro record hmem
    rw [hall] at hmem
    exact hexact.encoded record (List.mem_of_mem_filter hmem)

/-- A batch of a tenant, an entry of a replicated log and a rotation between them. -/
def threeCalls : List WriterCall :=
  [.append .tenantOtlpBatch [1, 0, 116, 7] ⟨true, 11, rotationAt 11, none, true⟩,
    .rotate .owed true (rotationAt 12),
    .append .replicatedEntry [0x11] ⟨true, 13, rotationAt 13, none, true⟩]

theorem replay_rebuild_threeCalls :
    let run := (Recorder.machine (fun _ => 0) []).run
      (Recorder.opened defaultConfig (mintAt 10)) threeCalls
    let newest := run.1.wal.currentSegmentPath
    let kept := run.2.filter (endsBefore newest 30)
    run.1.ledger = observeAll [] ({} : SegmentLedger).describeRoot run.2 ∧
      ∃ opened healed,
        (Wal.openRoot defaultConfig (run.1.wal.setLen 30).files
          ⟨true, true, none, mintAt 20⟩).1 = .ok opened ∧
        opened.replay (fun _ => 0) = (kept, .ok healed) ∧
        healed.files.map SegmentFile.contents = run.1.wal.files.map (fun file =>
          (file.uuid, if file.uuid = newest then file.bytes.take (lastEnd newest kept)
            else file.bytes)) ∧
        healed.replay (fun _ => 0) = (kept, .ok healed) ∧
        rebuild (fun _ => 0) [] healed.files = .ok (observeAll [] {} kept).describeRoot := by
  apply Recorder.replay_rebuild_of_cut
  · refine ⟨⟨by decide, by decide +kernel, ⟨"t".toList, [7], by decide⟩⟩, ⟨by decide +kernel,
      by decide +kernel, trivial⟩, ⟨by decide +kernel, by decide +kernel,
        ⟨.truncateAfter none, by decide⟩⟩, trivial⟩
  · decide

end Ourios
