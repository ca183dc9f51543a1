/-
# Payloads that name a tenant

The payload of a `TenantOtlpBatch` frame starts with the tenant it belongs to, and a
`Normal` entry of a replicated log carries such a payload after its tag and log id.
Appends and the walk that rebuilds the ledger read the tenant through the same two
functions. What the encoders write, the decoders read back, and a tenant that is read
has between one and `maxTenantBytes` bytes.
-/

import Ourios.Core.Audit
import Ourios.Wal.Format

namespace Ourios

open Ourios.Foundation

/-! ### Tenant batches -/

def maxTenantBytes : Nat := 128

inductive TenantBatchError
  | truncatedPrefix (found : Nat)
  | emptyTenant
  | tenantTooLong (found : Nat)
  | tenantPastEnd (declared available : Nat)
  | notUtf8
  deriving DecidableEq, Repr

/-- A tenant and the protobuf bytes of one of its batches. -/
structure TenantBatch where
  tenant : TenantId
  protobuf : List UInt8
  deriving DecidableEq, Repr

namespace TenantBatch

def encode (tenant : TenantId) (protobuf : List UInt8) :
    Except TenantBatchError (List UInt8) :=
  let len := tenant.toUtf8.length
  if len = 0 then .error .emptyTenant
  else if maxTenantBytes < len then .error (.tenantTooLong len)
  else .ok (leBytes 2 len ++ tenant.toUtf8 ++ protobuf)

def decode (payload : List UInt8) : Except TenantBatchError TenantBatch :=
  match readExact 2 payload with
  | none => .error (.truncatedPrefix payload.length)
  | some (declared, rest) =>
    let len := ofLeBytes declared
    if len = 0 then .error .emptyTenant
    else if maxTenantBytes < len then .error (.tenantTooLong len)
    else match readExact len rest with
      | none => .error (.tenantPastEnd len rest.length)
      | some (tenantBytes, protobuf) =>
        match Text.fromUtf8 tenantBytes with
        | none => .error .notUtf8
        | some tenant => .ok ⟨tenant, protobuf⟩

theorem decode_of_encode {tenant : TenantId} {protobuf payload : List UInt8}
    (h : encode tenant protobuf = .ok payload) : decode payload = .ok ⟨tenant, protobuf⟩ := by
  unfold encode at h
  dsimp only at h
  split at h
  · cases h
  · rename_i hempty
    split at h
    · cases h
    · rename_i hlong
      cases h
      have hvalue : ofLeBytes (leBytes 2 tenant.toUtf8.length) = tenant.toUtf8.length := by
        apply ofLeBytes_leBytes
        simp only [maxTenantBytes] at hlong
        omega
      have hread : readExact 2 (leBytes 2 tenant.toUtf8.length ++ tenant.toUtf8 ++ protobuf) =
          some (leBytes 2 tenant.toUtf8.length, tenant.toUtf8 ++ protobuf) := by
        exact readExact_append (length_leBytes _ _) _
      unfold decode
      simp only [hread, hvalue, if_neg hempty, if_neg hlong, readExact_append rfl,
        Text.fromUtf8_toUtf8]

/-- A tenant that is read is neither empty nor too long. -/
theorem length_of_decode {payload : List UInt8} {batch : TenantBatch}
    (h : decode payload = .ok batch) :
    1 ≤ batch.tenant.toUtf8.length ∧ batch.tenant.toUtf8.length ≤ maxTenantBytes := by
  unfold decode at h
  split at h
  · cases h
  dsimp only at h
  split at h
  · cases h
  rename_i hempty
  split at h
  · cases h
  rename_i hlong
  split at h
  · cases h
  rename_i tenantBytes protobuf hread
  split at h
  · cases h
  rename_i tenant htenant
  cases h
  rw [Text.toUtf8_of_fromUtf8 htenant, length_of_readExact hread]
  exact ⟨Nat.one_le_iff_ne_zero.mpr hempty, Nat.not_lt.mp hlong⟩

end TenantBatch

/-! ### Records of a replicated log -/

def tagBlank : UInt8 := 0x01
def tagNormal : UInt8 := 0x02
def tagMembership : UInt8 := 0x03
def tagTruncateAfter : UInt8 := 0x10
def tagTruncateAll : UInt8 := 0x11
def tagPurge : UInt8 := 0x12
def tagCommitted : UInt8 := 0x13

def logIdLen : Nat := 16

/-- Bytes before an entry's own payload: the tag and the log id. -/
def entryPrefixLen : Nat := 1 + logIdLen

structure RaftLogId where
  term : UInt64
  index : UInt64
  deriving DecidableEq, Repr

namespace RaftLogId

def write (id : RaftLogId) : List UInt8 := leBytes 8 id.term.toNat ++ leBytes 8 id.index.toNat

/-- The log id in the first `logIdLen` bytes. -/
def read (bytes : List UInt8) : RaftLogId where
  term := .ofNat (ofLeBytes (bytes.take 8))
  index := .ofNat (ofLeBytes (bytes.drop 8))

@[simp] theorem length_write (id : RaftLogId) : id.write.length = logIdLen := by
  simp [write, logIdLen]

@[simp] theorem read_write (id : RaftLogId) : read id.write = id := by
  have hterm : ofLeBytes (leBytes 8 id.term.toNat) = id.term.toNat :=
    ofLeBytes_leBytes id.term.toNat_lt
  have hindex : ofLeBytes (leBytes 8 id.index.toNat) = id.index.toNat :=
    ofLeBytes_leBytes id.index.toNat_lt
  simp [read, write, hterm, hindex]

end RaftLogId

/-- What a log entry carries. -/
inductive EntryBody
  | blank
  | normal (bytes : List UInt8)
  | membership (bytes : List UInt8)
  deriving DecidableEq, Repr

inductive ReplicatedRecord
  | entry (logId : RaftLogId) (body : EntryBody)
  | truncateAfter (logId : Option RaftLogId)
  | purge (logId : RaftLogId)
  | committed (logId : RaftLogId)
  deriving DecidableEq, Repr

inductive ReplicatedRecordError
  | empty
  | unknownTag (found : UInt8)
  | wrongLength (tag : UInt8) (expected found : Nat)
  | tenantBatch (error : TenantBatchError)
  deriving DecidableEq, Repr

namespace ReplicatedRecord

/-- A `Normal` body that is no tenant batch is not written. -/
def encode : ReplicatedRecord → Except ReplicatedRecordError (List UInt8)
  | entry logId .blank => .ok (tagBlank :: logId.write)
  | entry logId (.normal bytes) =>
    match TenantBatch.decode bytes with
    | .error error => .error (.tenantBatch error)
    | .ok _ => .ok (tagNormal :: (logId.write ++ bytes))
  | entry logId (.membership bytes) => .ok (tagMembership :: (logId.write ++ bytes))
  | truncateAfter none => .ok [tagTruncateAll]
  | truncateAfter (some logId) => .ok (tagTruncateAfter :: logId.write)
  | purge logId => .ok (tagPurge :: logId.write)
  | committed logId => .ok (tagCommitted :: logId.write)

def exactLogId (tag : UInt8) (body : List UInt8) : Except ReplicatedRecordError RaftLogId :=
  if body.length = logIdLen then .ok (.read body)
  else .error (.wrongLength tag logIdLen body.length)

def decodeEntry (tag : UInt8) (body : List UInt8) :
    Except ReplicatedRecordError ReplicatedRecord :=
  match readExact logIdLen body with
  | none => .error (.wrongLength tag logIdLen body.length)
  | some (id, rest) =>
    if tag = tagBlank then
      if rest.isEmpty then .ok (entry (.read id) .blank)
      else .error (.wrongLength tag logIdLen body.length)
    else if tag = tagNormal then
      match TenantBatch.decode rest with
      | .error error => .error (.tenantBatch error)
      | .ok _ => .ok (entry (.read id) (.normal rest))
    else .ok (entry (.read id) (.membership rest))

def decode : List UInt8 → Except ReplicatedRecordError ReplicatedRecord
  | [] => .error .empty
  | tag :: body =>
    if tag = tagBlank ∨ tag = tagNormal ∨ tag = tagMembership then decodeEntry tag body
    else if tag = tagTruncateAll then
      if body.isEmpty then .ok (truncateAfter none)
      else .error (.wrongLength tag 0 body.length)
    else if tag = tagTruncateAfter then
      (exactLogId tag body).map fun id => truncateAfter (some id)
    else if tag = tagPurge then (exactLogId tag body).map purge
    else if tag = tagCommitted then (exactLogId tag body).map committed
    else .error (.unknownTag tag)

@[simp] theorem exactLogId_write (tag : UInt8) (id : RaftLogId) :
    exactLogId tag id.write = .ok id := by
  simp [exactLogId]

theorem readExact_write (id : RaftLogId) (rest : List UInt8) :
    readExact logIdLen (id.write ++ rest) = some (id.write, rest) :=
  readExact_append id.length_write rest

/-- Every record that is written is read back. -/
theorem decode_of_encode {record : ReplicatedRecord} {payload : List UInt8}
    (h : record.encode = .ok payload) : decode payload = .ok record := by
  cases record with
  | entry logId body =>
    cases body with
    | blank =>
      cases h
      have hread := readExact_write logId []
      rw [List.append_nil] at hread
      simp [decode, decodeEntry, hread]
    | normal bytes =>
      simp only [encode] at h
      split at h
      · cases h
      · rename_i batch hbatch
        cases h
        simp [decode, decodeEntry, readExact_write, hbatch, tagBlank, tagNormal]
    | membership bytes =>
      cases h
      simp [decode, decodeEntry, readExact_write, tagBlank, tagNormal, tagMembership]
  | truncateAfter logId =>
    cases logId with
    | none =>
      cases h
      decide
    | some logId =>
      cases h
      simp [decode, Except.map, tagBlank, tagNormal, tagMembership, tagTruncateAll,
        tagTruncateAfter]
  | purge logId =>
    cases h
    simp [decode, Except.map, tagBlank, tagNormal, tagMembership, tagTruncateAll,
      tagTruncateAfter, tagPurge]
  | committed logId =>
    cases h
    simp [decode, Except.map, tagBlank, tagNormal, tagMembership, tagTruncateAll,
      tagTruncateAfter, tagPurge, tagCommitted]

/-- A payload under the `Normal` tag has a tenant batch after its log id. -/
theorem exists_decode_drop {record : ReplicatedRecord} {payload : List UInt8}
    (h : record.encode = .ok payload) (htag : payload.head? = some tagNormal) :
    ∃ batch, TenantBatch.decode (payload.drop entryPrefixLen) = .ok batch := by
  cases record with
  | entry logId body =>
    cases body with
    | blank | membership =>
      cases h
      cases htag
    | normal bytes =>
      simp only [encode] at h
      split at h
      · cases h
      · rename_i batch hbatch
        cases h
        have hdrop : (tagNormal :: (logId.write ++ bytes)).drop entryPrefixLen = bytes := by
          exact List.drop_left' logId.length_write
        exact ⟨batch, by rw [hdrop, hbatch]⟩
  | truncateAfter logId =>
    cases logId with
    | none | some =>
      cases h
      cases htag
  | purge | committed =>
    cases h
    cases htag

end ReplicatedRecord

/-- What either encoder writes is read back as it was. -/
theorem payload_round_trip :
    (∀ tenant protobuf payload, TenantBatch.encode tenant protobuf = .ok payload →
      TenantBatch.decode payload = .ok ⟨tenant, protobuf⟩) ∧
    ∀ (record : ReplicatedRecord) payload, record.encode = .ok payload →
      ReplicatedRecord.decode payload = .ok record :=
  ⟨fun _ _ _ => TenantBatch.decode_of_encode, fun _ _ => ReplicatedRecord.decode_of_encode⟩

/-! ### The tenant of a frame -/

/-- The tenant batch a frame carries: a whole `TenantOtlpBatch` payload, or the body of a
`Normal` entry. -/
def tenantBatchPayload : FrameKind → List UInt8 → Option (List UInt8)
  | .tenantOtlpBatch, payload => some payload
  | .replicatedEntry, payload =>
    if payload.head? = some tagNormal then
      if entryPrefixLen ≤ payload.length then some (payload.drop entryPrefixLen) else none
    else none
  | .otlpBatch, _ => none
  | .auditEvent, _ => none

/-- The tenant an append enters its frame under. -/
def tenantOf (kind : FrameKind) (payload : List UInt8) : Option TenantId :=
  match tenantBatchPayload kind payload with
  | none => none
  | some batch =>
    match TenantBatch.decode batch with
    | .ok batch => some batch.tenant
    | .error _ => none

theorem length_of_tenantOf {kind : FrameKind} {payload : List UInt8} {tenant : TenantId}
    (h : tenantOf kind payload = some tenant) :
    1 ≤ tenant.toUtf8.length ∧ tenant.toUtf8.length ≤ maxTenantBytes := by
  unfold tenantOf at h
  split at h
  · cases h
  · split at h
    · rename_i batch hbatch
      cases h
      exact TenantBatch.length_of_decode hbatch
    · cases h

/-- The payload of a frame was built by the encoder of its kind, where it has one. -/
def Encoded : FrameKind → List UInt8 → Prop
  | .tenantOtlpBatch, payload =>
    ∃ tenant protobuf, TenantBatch.encode tenant protobuf = .ok payload
  | .replicatedEntry, payload => ∃ record : ReplicatedRecord, record.encode = .ok payload
  | .otlpBatch, _ => True
  | .auditEvent, _ => True

/-- A batch that the encoders put into a frame is one the decoder accepts. -/
theorem Encoded.decode {kind : FrameKind} {payload batch : List UInt8}
    (h : Encoded kind payload) (hbatch : tenantBatchPayload kind payload = some batch) :
    ∃ decoded, TenantBatch.decode batch = .ok decoded := by
  cases kind with
  | otlpBatch | auditEvent => cases hbatch
  | tenantOtlpBatch =>
    obtain ⟨tenant, protobuf, hencode⟩ := h
    cases hbatch
    exact ⟨_, TenantBatch.decode_of_encode hencode⟩
  | replicatedEntry =>
    obtain ⟨record, hencode⟩ := h
    simp only [tenantBatchPayload] at hbatch
    split at hbatch
    · rename_i htag
      split at hbatch
      · cases hbatch
        exact ReplicatedRecord.exists_decode_drop hencode htag
      · cases hbatch
    · cases hbatch

end Ourios
