import Nvx.Protocol.Nvxs.Stream

namespace Nvx.Protocol.Nvxs

open Nvx.Data

/-! What the host's and the guest's role in a session share. -/

structure Identity where
  instanceId : Bytes 16
  epoch : UInt64
  deriving DecidableEq

inductive SessionError where
  | record (error : RecordError)
  | unexpected (recordType : RecordType)
  | missingIdentity (recordType : RecordType)
  | instanceId (expected actual : Bytes 16)
  | epoch (expected actual : UInt64)
  | staleEpoch (current actual : UInt64)
  | sequence (expected actual : UInt64)
  | sequenceOverflow (recordType : RecordType)
  | window (window outstanding length : UInt32)
  | credit (outstanding bytes : UInt32)
  | truncated (buffered : Nat)
  | invalidState
  deriving DecidableEq

def Record.identity (record : Record) : Identity :=
  ⟨record.instanceId, record.epoch⟩

/-- The identity that a READY or RESET carries, unless a part of it is zero. -/
def recordIdentity (record : Record) : Option Identity :=
  if record.instanceId ≠ Bytes.zero 16 ∧ record.epoch ≠ 0 then
    some record.identity
  else none

def nextSequence (sequence : UInt64) (recordType : RecordType) :
    Except SessionError UInt64 :=
  if sequence.toNat + 1 < 2 ^ 64 then .ok (sequence + 1)
  else .error (.sequenceOverflow recordType)

def checkSequence (record : Record) (expected : UInt64) :
    Except SessionError Unit :=
  if record.sequence = expected then .ok ()
  else .error (.sequence expected record.sequence)

def checkIdentity (record : Record) (identity : Identity) :
    Except SessionError Unit :=
  if record.instanceId ≠ identity.instanceId then
    .error (.instanceId identity.instanceId record.instanceId)
  else if record.epoch ≠ identity.epoch then
    .error (.epoch identity.epoch record.epoch)
  else .ok ()

/-- Appends a record at `sequence`, and returns the sequence after it. -/
def encodeNext (recordType : RecordType) (identity : Identity)
    (sequence : UInt64) (payload output : List UInt8) :
    UInt64 × List UInt8 × Except SessionError Unit :=
  match nextSequence sequence recordType with
  | .error error => (sequence, output, .error error)
  | .ok next =>
    match encodeRecord ⟨recordType, identity.instanceId, identity.epoch,
      sequence, payload⟩ output with
    | (output, .error error) => (sequence, output, .error (.record error))
    | (output, .ok ()) => (next, output, .ok ())

/-- Appends a DATA record with bytes from the front of `data`, and returns how
many it took. -/
def encodeData (identity : Identity) (sequence : UInt64) (data output : List UInt8) :
    UInt64 × List UInt8 × Except SessionError Nat :=
  let taken := min data.length outerMaxPayload
  match encodeNext .data identity sequence (data.take taken) output with
  | (sequence, output, .error error) => (sequence, output, .error error)
  | (sequence, output, .ok ()) => (sequence, output, .ok taken)

theorem nextSequence_eq_ok {sequence next : UInt64}
    (following : nextSequence sequence recordType = .ok next) :
    next.toNat = sequence.toNat + 1 := by
  unfold nextSequence at following
  split at following
  · obtain rfl := Except.ok.inj following
    rename_i fits
    rw [UInt64.toNat_add]
    exact Nat.mod_eq_of_lt fits
  · cases following

theorem checkSequence_eq_ok_iff :
    checkSequence record expected = .ok () ↔ record.sequence = expected := by
  unfold checkSequence
  split <;> simp_all

theorem checkIdentity_eq_ok_iff :
    checkIdentity record identity = .ok () ↔ record.identity = identity := by
  unfold checkIdentity Record.identity
  rcases identity with ⟨instanceId, epoch⟩
  by_cases sameId : record.instanceId = instanceId
  · by_cases sameEpoch : record.epoch = epoch
    · simp [sameId, sameEpoch]
    · simp [sameId, sameEpoch]
  · simp [sameId]

theorem checkIdentity_error (refused : checkIdentity record identity = .error error) :
    error ≠ .invalidState := by
  unfold checkIdentity at refused
  split at refused
  · obtain rfl := Except.error.inj refused
    simp
  · split at refused
    · obtain rfl := Except.error.inj refused
      simp
    · cases refused

theorem recordIdentity_eq_some (carried : recordIdentity record = some identity) :
    record.identity = identity := by
  unfold recordIdentity at carried
  split at carried
  · exact Option.some.inj carried
  · cases carried

/-- What `encodeNext` does: nothing, or it appends a valid record. -/
inductive EncodedNext (recordType : RecordType) (identity : Identity)
    (sequence : UInt64) (payload output : List UInt8) :
    UInt64 × List UInt8 × Except SessionError Unit → Prop
  | refused (error : SessionError) : EncodedNext recordType identity sequence payload output
        (sequence, output, .error error)
  | encoded (next : UInt64) (following : next.toNat = sequence.toNat + 1)
      (valid : checkRecord ⟨recordType, identity.instanceId, identity.epoch,
        sequence, payload⟩ = .ok ()) :
      EncodedNext recordType identity sequence payload output
        (next, output ++ Record.bytes ⟨recordType, identity.instanceId,
          identity.epoch, sequence, payload⟩, .ok ())

theorem encodedNext (recordType : RecordType) (identity : Identity)
    (sequence : UInt64) (payload output : List UInt8) :
    EncodedNext recordType identity sequence payload output
      (encodeNext recordType identity sequence payload output) := by
  unfold encodeNext
  cases following : nextSequence sequence recordType with
  | error error => exact .refused error
  | ok next =>
    have result := encoded ⟨recordType, identity.instanceId, identity.epoch,
      sequence, payload⟩ output
    simp only
    generalize encodeRecord _ output = written at result ⊢
    cases result with
    | refused error => exact .refused (.record error)
    | encoded valid => exact .encoded next (nextSequence_eq_ok following) valid

/-- What `encodeData` does: nothing, or it appends a valid DATA record. -/
inductive EncodedData (identity : Identity) (sequence : UInt64) (data output : List UInt8) :
    UInt64 × List UInt8 × Except SessionError Nat → Prop
  | refused (error : SessionError) :
      EncodedData identity sequence data output (sequence, output, .error error)
  | encoded (next : UInt64) (taken : Nat) (following : next.toNat = sequence.toNat + 1)
      (valid : checkRecord ⟨.data, identity.instanceId, identity.epoch,
        sequence, data.take taken⟩ = .ok ()) :
      EncodedData identity sequence data output
        (next, output ++ Record.bytes ⟨.data, identity.instanceId,
          identity.epoch, sequence, data.take taken⟩, .ok taken)

theorem encodedData (identity : Identity) (sequence : UInt64) (data output : List UInt8) :
    EncodedData identity sequence data output (encodeData identity sequence data output) := by
  have next := encodedNext .data identity sequence
    (data.take (min data.length outerMaxPayload)) output
  unfold encodeData
  simp only
  generalize encodeNext .data identity sequence
    (data.take (min data.length outerMaxPayload)) output = result at next ⊢
  cases next with
  | refused error => exact .refused error
  | encoded next following valid => exact .encoded next _ following valid

def NumberedFrom (first : Nat) (records : List Record) : Prop :=
  ∀ index record, records[index]? = some record → record.sequence.toNat = first + index

theorem numberedFrom_concat (numbered : NumberedFrom first records)
    (next : record.sequence.toNat = first + records.length) :
    NumberedFrom first (records ++ [record]) := by
  intro index other found
  rw [List.getElem?_append] at found
  split at found
  · exact numbered index other found
  · have last : index = records.length := by
      by_contra different
      rw [List.getElem?_eq_none (by simp; omega)] at found
      cases found
    subst index
    simp only [Nat.sub_self, List.getElem?_cons_zero, Option.some.injEq] at found
    rw [← found, next]

end Nvx.Protocol.Nvxs
