import Nvx.Data.Bytes

namespace Nvx.Protocol

open Nvx.Data

/-! The constants of the outer records. -/

def outerMagic : List UInt8 := [78, 86, 88, 83]

def outerVersion : UInt16 := 1

def outerHeaderLen : Nat := 44

def outerMaxPayload : Nat := 65536

def outerMinReceiveWindow : UInt32 := 65536

def outerMaxReceiveWindow : UInt32 := 4 * 1024 * 1024 + 10

def capabilityLen : Nat := 32

def encodeHeader (recordType : UInt8) (instanceId : Bytes 16)
    (epoch sequence : UInt64) (length : Nat) : Bytes outerHeaderLen :=
  ⟨outerMagic ++ (LittleEndian.encode 2 outerVersion.toNat ++
      (recordType :: 0 :: (instanceId.val ++ (LittleEndian.ofUInt64 epoch ++
        (LittleEndian.ofUInt64 sequence ++ LittleEndian.encode 4 length))))), by
    simp [outerMagic, outerHeaderLen, instanceId.property]⟩

structure HeaderParts (recordType : UInt8) (instanceId : Bytes 16)
    (epoch sequence : UInt64) (length : Nat) (bytes : Bytes outerHeaderLen) :
    Prop where
  magic : slice 0 4 bytes.val = outerMagic
  version : slice 4 2 bytes.val = LittleEndian.encode 2 outerVersion.toNat
  recordType : bytes.get ⟨6, by decide⟩ = recordType
  flags : bytes.get ⟨7, by decide⟩ = 0
  instanceId : bytes.part 8 16 (by decide) = instanceId
  epoch : slice 24 8 bytes.val = LittleEndian.ofUInt64 epoch
  sequence : slice 32 8 bytes.val = LittleEndian.ofUInt64 sequence
  length : slice 40 4 bytes.val = LittleEndian.encode 4 length

theorem headerParts_encodeHeader (recordType : UInt8) (instanceId : Bytes 16)
    (epoch sequence : UInt64) (length : Nat) :
    HeaderParts recordType instanceId epoch sequence length
      (encodeHeader recordType instanceId epoch sequence length) := by
  have wide := instanceId.property
  constructor
  case magic => rfl
  case recordType => rfl
  case flags => rfl
  case instanceId =>
    apply Subtype.ext
    simp [Bytes.part, encodeHeader, slice, outerMagic, List.drop_append, wide,
      List.drop_of_length_le]
  all_goals
    simp [encodeHeader, slice, outerMagic, List.drop_append, wide,
      List.drop_of_length_le, List.take_of_length_le]

theorem HeaderParts.eq {recordType : UInt8} {instanceId : Bytes 16}
    {epoch sequence : UInt64} {length : Nat}
    (parts : HeaderParts recordType instanceId epoch sequence length bytes) :
    bytes = encodeHeader recordType instanceId epoch sequence length := by
  apply Subtype.ext
  have last : bytes.val.drop 44 = [] := by
    rw [List.drop_eq_nil_iff, bytes.property]
    decide
  calc bytes.val
    _ = slice 0 4 bytes.val ++ (slice 4 2 bytes.val ++
        (bytes.get ⟨6, by decide⟩ :: bytes.get ⟨7, by decide⟩ ::
          (slice 8 16 bytes.val ++ (slice 24 8 bytes.val ++
            (slice 32 8 bytes.val ++ (slice 40 4 bytes.val ++ bytes.val.drop 44)))))) := by
        rw [slice_append_drop 40 4, slice_append_drop 32 8,
          slice_append_drop 24 8, slice_append_drop 8 16,
          bytes.get_cons_drop ⟨7, by decide⟩, bytes.get_cons_drop ⟨6, by decide⟩,
          slice_append_drop 4 2, slice_append_drop 0 4, List.drop_zero]
    _ = (encodeHeader recordType instanceId epoch sequence length).val := by
        rw [last, List.append_nil, parts.magic, parts.version, parts.recordType,
          parts.flags, parts.epoch, parts.sequence, parts.length]
        rw [← parts.instanceId]
        rfl

namespace Nvxs

inductive RecordType where
  | guestAttach
  | hostAttach
  | reset
  | ack
  | data
  | wait
  | ready
  | error
  | credit
  deriving DecidableEq, Repr

namespace RecordType

def code : RecordType → UInt8
  | .guestAttach => 1
  | .hostAttach => 2
  | .reset => 3
  | .ack => 4
  | .data => 5
  | .wait => 6
  | .ready => 7
  | .error => 8
  | .credit => 9

def fromCode (code : UInt8) : Option RecordType :=
  match code.toNat with
  | 1 => some .guestAttach
  | 2 => some .hostAttach
  | 3 => some .reset
  | 4 => some .ack
  | 5 => some .data
  | 6 => some .wait
  | 7 => some .ready
  | 8 => some .error
  | 9 => some .credit
  | _ => none

def isBootstrap : RecordType → Bool
  | .guestAttach => true
  | .hostAttach => true
  | _ => false

def allowsLength (recordType : RecordType) (length : Nat) : Bool :=
  match recordType with
  | .guestAttach | .reset | .wait | .ready => length == 0
  | .hostAttach => length == capabilityLen
  | .ack | .error | .credit => length == 4
  | .data => decide (1 ≤ length) && decide (length ≤ outerMaxPayload)

@[simp] theorem fromCode_code (recordType : RecordType) :
    fromCode recordType.code = some recordType := by
  cases recordType <;> rfl

theorem code_of_fromCode {code : UInt8}
    (known : fromCode code = some recordType) : recordType.code = code := by
  apply UInt8.toNat_inj.mp
  unfold fromCode at known
  split at known <;> simp_all [RecordType.code] <;> subst recordType <;> rfl

theorem length_le_of_allowsLength (allowed : allowsLength recordType length = true) :
    length ≤ outerMaxPayload := by
  unfold allowsLength at allowed
  unfold outerMaxPayload at allowed ⊢
  split at allowed <;>
    simp only [beq_iff_eq, capabilityLen, Bool.and_eq_true, decide_eq_true_eq] at allowed <;> omega

end RecordType

inductive ErrorCode where
  | authentication
  deriving DecidableEq, Repr

namespace ErrorCode

def fromCode (code : UInt32) : Option ErrorCode :=
  if code = 1 then some .authentication else none

end ErrorCode

inductive RecordError where
  | magic (magic : List UInt8)
  | version (version : UInt16)
  | type (code : UInt8)
  | flags (flags : UInt8)
  | length (recordType : RecordType) (length : Nat)
  | bootstrapIdentity (recordType : RecordType)
  | errorCode (code : UInt32)
  | receiveWindow (window : UInt32)
  | credit (bytes : UInt32)
  deriving DecidableEq, Repr

structure Record where
  recordType : RecordType
  instanceId : Bytes 16
  epoch : UInt64
  sequence : UInt64
  payload : List UInt8
  deriving DecidableEq

def checkLength (recordType : RecordType) (length : Nat) :
    Except RecordError Unit :=
  if recordType.allowsLength length then .ok ()
  else .error (.length recordType length)

def checkBootstrap (recordType : RecordType) (instanceId : Bytes 16)
    (epoch sequence : UInt64) : Except RecordError Unit :=
  if recordType.isBootstrap = true ∧ (instanceId ≠ Bytes.zero 16 ∨ epoch ≠ 0 ∨ sequence ≠ 0) then
    .error (.bootstrapIdentity recordType)
  else .ok ()

def value (payload : List UInt8) : UInt32 :=
  LittleEndian.toUInt32 payload

def checkPayload (recordType : RecordType) (payload : List UInt8) :
    Except RecordError Unit :=
  match recordType with
  | .ack =>
    let window := value payload
    if outerMinReceiveWindow ≤ window ∧ window ≤ outerMaxReceiveWindow then
      .ok ()
    else .error (.receiveWindow window)
  | .credit =>
    let bytes := value payload
    if 1 ≤ bytes ∧ bytes ≤ outerMaxReceiveWindow then .ok ()
    else .error (.credit bytes)
  | .error =>
    let code := value payload
    match ErrorCode.fromCode code with
    | some _ => .ok ()
    | none => .error (.errorCode code)
  | _ => .ok ()

def checkRecord (record : Record) : Except RecordError Unit := do
  checkLength record.recordType record.payload.length
  checkBootstrap record.recordType record.instanceId record.epoch record.sequence
  checkPayload record.recordType record.payload

def Record.bytes (record : Record) : List UInt8 :=
  (encodeHeader record.recordType.code record.instanceId record.epoch
    record.sequence record.payload.length).val ++ record.payload

def encodeRecord (record : Record) (output : List UInt8) : List UInt8 × Except RecordError Unit :=
  match checkRecord record with
  | .error error => (output, .error error)
  | .ok () => (output ++ record.bytes, .ok ())

/-- Appends records one after the other, up to the first that is invalid. -/
def encodeRecords : List Record → List UInt8 → List UInt8 × Except RecordError Unit
  | [], output => (output, .ok ())
  | record :: records, output =>
    match encodeRecord record output with
    | (output, .ok ()) => encodeRecords records output
    | (output, .error error) => (output, .error error)

/-- What `encodeRecord` does: nothing, or it appends a valid record. -/
inductive Encoded (record : Record) (output : List UInt8) :
    List UInt8 × Except RecordError Unit → Prop
  | refused (error : RecordError) : Encoded record output (output, .error error)
  | encoded (valid : checkRecord record = .ok ()) :
      Encoded record output (output ++ record.bytes, .ok ())

theorem encoded (record : Record) (output : List UInt8) :
    Encoded record output (encodeRecord record output) := by
  unfold encodeRecord
  cases valid : checkRecord record with
  | error error => exact .refused error
  | ok _ => exact .encoded valid

theorem encodeRecords_eq_ok_iff : encodeRecords records output = (next, .ok ()) ↔
      (∀ record ∈ records, checkRecord record = .ok ()) ∧
        next = output ++ records.flatMap Record.bytes := by
  induction records generalizing output with
  | nil => simp [encodeRecords, eq_comm]
  | cons record records induction =>
    rw [encodeRecords, encodeRecord]
    cases valid : checkRecord record with
    | error error => simp [valid]
    | ok _ =>
      simp only [induction, List.forall_mem_cons, valid, true_and,
        List.flatMap_cons, List.append_assoc]

theorem length_bytes (record : Record) :
    record.bytes.length = outerHeaderLen + record.payload.length := by
  rw [Record.bytes, List.length_append]
  exact congrArg (· + _) (encodeHeader _ _ _ _ _).property

theorem checkRecord_eq_ok_iff : checkRecord record = .ok () ↔
      checkLength record.recordType record.payload.length = .ok () ∧
        checkBootstrap record.recordType record.instanceId record.epoch record.sequence = .ok () ∧
        checkPayload record.recordType record.payload = .ok () := by
  unfold checkRecord
  cases checkLength record.recordType record.payload.length with
  | error error => simp [bind, Except.bind]
  | ok _ =>
    cases checkBootstrap record.recordType record.instanceId record.epoch record.sequence with
    | error error | ok _ => simp [bind, Except.bind]

theorem checkLength_eq_ok_iff :
    checkLength recordType length = .ok () ↔ recordType.allowsLength length = true := by
  unfold checkLength
  split <;> simp_all

theorem length_data (valid : checkRecord record = .ok ()) (type : record.recordType = .data) :
    1 ≤ record.payload.length ∧ record.payload.length ≤ outerMaxPayload := by
  have allowed := checkLength_eq_ok_iff.mp (checkRecord_eq_ok_iff.mp valid).1
  simpa [type, RecordType.allowsLength] using allowed

end Nvxs

end Nvx.Protocol
