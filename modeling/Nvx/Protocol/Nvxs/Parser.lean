import Nvx.Data.Reader
import Nvx.Protocol.Nvxs.Record

namespace Nvx.Protocol.Nvxs

open Nvx.Data

/-! The incremental parser of an NVXS byte stream. -/

structure Header where
  recordType : RecordType
  instanceId : Bytes 16
  epoch : UInt64
  sequence : UInt64
  length : Nat
  lengthOk : checkLength recordType length = .ok ()
  identityOk : checkBootstrap recordType instanceId epoch sequence = .ok ()

def Header.check (recordType : RecordType) (instanceId : Bytes 16)
    (epoch sequence : UInt64) (length : Nat) : Except RecordError Header :=
  match lengthOk : checkLength recordType length with
  | .error error => .error error
  | .ok () =>
    match identityOk : checkBootstrap recordType instanceId epoch sequence with
    | .error error => .error error
    | .ok () =>
      .ok ⟨recordType, instanceId, epoch, sequence, length, lengthOk, identityOk⟩

def parseHeader (bytes : Bytes outerHeaderLen) : Except RecordError Header :=
  let magic := slice 0 4 bytes.val
  if magic ≠ outerMagic then .error (.magic magic)
  else
    let version := UInt16.ofNat (LittleEndian.decode (slice 4 2 bytes.val))
    if version ≠ outerVersion then .error (.version version)
    else
      let code := bytes.get ⟨6, by decide⟩
      match RecordType.fromCode code with
      | none => .error (.type code)
      | some recordType =>
        let flags := bytes.get ⟨7, by decide⟩
        if flags ≠ 0 then .error (.flags flags)
        else
          let instanceId := bytes.part 8 16 (by decide)
          let epoch := LittleEndian.toUInt64 (slice 24 8 bytes.val)
          let sequence := LittleEndian.toUInt64 (slice 32 8 bytes.val)
          let length := LittleEndian.decode (slice 40 4 bytes.val)
          Header.check recordType instanceId epoch sequence length

theorem Header.check_eq_ok (header : Header) :
    Header.check header.recordType header.instanceId header.epoch
      header.sequence header.length = .ok header := by
  unfold Header.check
  split
  · rename_i invalid
    exact absurd (header.lengthOk.symm.trans invalid) (by simp)
  · split
    · rename_i invalid
      exact absurd (header.identityOk.symm.trans invalid) (by simp)
    · rfl

theorem Header.of_check {recordType : RecordType} {instanceId : Bytes 16}
    {epoch sequence : UInt64} {length : Nat}
    (checked : Header.check recordType instanceId epoch sequence length = .ok header) :
    header.recordType = recordType ∧ header.instanceId = instanceId ∧
      header.epoch = epoch ∧ header.sequence = sequence ∧
      header.length = length := by
  unfold Header.check at checked
  split at checked
  · cases checked
  · split at checked
    · cases checked
    · obtain rfl := Except.ok.inj checked
      exact ⟨rfl, rfl, rfl, rfl, rfl⟩

def Header.bytes (header : Header) : Bytes outerHeaderLen :=
  encodeHeader header.recordType.code header.instanceId header.epoch header.sequence header.length

theorem Header.length_le (header : Header) : header.length ≤ outerMaxPayload :=
  RecordType.length_le_of_allowsLength (checkLength_eq_ok_iff.mp header.lengthOk)

theorem parseHeader_bytes (header : Header) : parseHeader header.bytes = .ok header := by
  have small := header.length_le
  unfold outerMaxPayload at small
  have parts := headerParts_encodeHeader header.recordType.code
    header.instanceId header.epoch header.sequence header.length
  have length : LittleEndian.decode (LittleEndian.encode 4 header.length) =
      header.length := by
    rw [LittleEndian.decode_encode]
    omega
  unfold parseHeader Header.bytes
  simp only [parts.magic, parts.version, parts.recordType, parts.flags,
    parts.instanceId, parts.epoch, parts.sequence, parts.length, length,
    RecordType.fromCode_code, LittleEndian.toUInt64_ofUInt64, ne_eq,
    not_true_eq_false, if_false]
  rw [if_neg (by decide), header.check_eq_ok]

theorem bytes_of_parseHeader (parsed : parseHeader bytes = .ok header) : header.bytes = bytes := by
  unfold parseHeader at parsed
  simp only at parsed
  split at parsed
  · cases parsed
  rename_i magic
  split at parsed
  · cases parsed
  rename_i version
  split at parsed
  · cases parsed
  rename_i recordType known
  split at parsed
  · cases parsed
  rename_i flags
  obtain ⟨sameType, sameId, sameEpoch, sameSequence, sameLength⟩ :=
    Header.of_check parsed
  have within : ∀ {start width : Nat}, start + width ≤ outerHeaderLen →
      (slice start width bytes.val).length = width :=
    fun fits => length_slice (bytes.property.symm ▸ fits)
  rw [Header.bytes, sameType, sameId, sameEpoch, sameSequence, sameLength]
  symm
  apply HeaderParts.eq
  refine ⟨not_not.mp magic, ?_, (RecordType.code_of_fromCode known).symm,
    not_not.mp flags, rfl, ?_, ?_, ?_⟩
  · have wide : (slice 4 2 bytes.val).length = 2 := within (by decide)
    have small := LittleEndian.decode_lt (slice 4 2 bytes.val)
    rw [wide] at small
    rw [← not_not.mp version, UInt16.toNat_ofNat_of_lt' small]
    exact (LittleEndian.encode_decode_of_length wide).symm
  · exact (LittleEndian.ofUInt64_toUInt64 (within (by decide))).symm
  · exact (LittleEndian.ofUInt64_toUInt64 (within (by decide))).symm
  · exact (LittleEndian.encode_decode_of_length (within (by decide))).symm

def Header.record (header : Header) (payload : List UInt8) : Record where
  recordType := header.recordType
  instanceId := header.instanceId
  epoch := header.epoch
  sequence := header.sequence
  payload := payload

/-- The bytes that arrived of a header or of a payload in progress, or the error
that ended the stream. -/
inductive RecordParser where
  | atHeader (bytes : List UInt8) (short : bytes.length < outerHeaderLen)
  | atBody (header : Header) (payload : List UInt8) (short : payload.length < header.length)
  | failed (error : RecordError)

namespace RecordParser

def new : RecordParser :=
  .atHeader [] (by decide)

/-- Takes bytes of the payload of a record whose header took `consumed`. -/
def acceptBody (header : Header) (payload : List UInt8) (consumed : Nat) (input : List UInt8) :
    RecordParser × Except RecordError (Nat × Option Record) :=
  let take := min (header.length - payload.length) input.length
  let payload := payload ++ input.take take
  let consumed := consumed + take
  if short : payload.length < header.length then
    (.atBody header payload short, .ok (consumed, none))
  else
    match checkPayload header.recordType payload with
    | .error error => (.failed error, .error error)
    | .ok () => (.new, .ok (consumed, some (header.record payload)))

/-- Goes on with the header bytes that `arrived`, the last `consumed` of them
from a piece of which `rest` is left. -/
def acceptHeader (arrived : List UInt8) (fits : arrived.length ≤ outerHeaderLen)
    (consumed : Nat) (rest : List UInt8) :
    RecordParser × Except RecordError (Nat × Option Record) :=
  if short : arrived.length < outerHeaderLen then
    (.atHeader arrived short, .ok (consumed, none))
  else
    match parseHeader ⟨arrived, Nat.le_antisymm fits (Nat.le_of_not_lt short)⟩
    with
    | .error error => (.failed error, .error error)
    | .ok header => acceptBody header [] consumed rest

theorem length_append_take {bytes input : List UInt8} (short : bytes.length < limit) :
    (bytes ++ input.take (min (limit - bytes.length) input.length)).length ≤
      limit := by
  simp only [List.length_append, List.length_take]
  omega

def push (parser : RecordParser) (input : List UInt8) :
    RecordParser × Except RecordError (Nat × Option Record) :=
  match parser with
  | .failed error => (.failed error, .error error)
  | .atBody header payload _ => acceptBody header payload 0 input
  | .atHeader bytes short =>
    let take := min (outerHeaderLen - bytes.length) input.length
    acceptHeader (bytes ++ input.take take) (length_append_take short) take (input.drop take)

def buffered : RecordParser → Nat
  | .atHeader bytes _ => bytes.length
  | .atBody _ payload _ => outerHeaderLen + payload.length
  | .failed _ => 0

theorem advance_acceptBody (header : Header) (payload : List UInt8)
    (before consumed : Nat) (input : List UInt8) :
    advance before (acceptBody header payload consumed input) =
      acceptBody header payload (before + consumed) input := by
  unfold acceptBody
  simp only
  split
  · rw [advance, Nat.add_assoc]
  · split
    · rfl
    · rw [advance, Nat.add_assoc]

theorem acceptBody_cons (short : payload.length < header.length) (consumed : Nat) (byte : UInt8)
    (rest : List UInt8) :
    acceptBody header payload consumed (byte :: rest) =
      acceptBody header (payload ++ [byte]) (consumed + 1) rest := by
  have take : min (header.length - payload.length) (rest.length + 1) =
      min (header.length - (payload.length + 1)) rest.length + 1 := by
    omega
  simp only [acceptBody, List.length_cons, take, List.take_succ_cons,
    List.length_append, List.length_nil, Nat.zero_add, List.append_assoc,
    List.singleton_append, Nat.add_assoc, Nat.add_comm 1]

theorem acceptBody_nil (short : payload.length < header.length) (consumed : Nat) :
    acceptBody header payload consumed [] =
      (.atBody header payload short, .ok (consumed, none)) := by
  simp [acceptBody, short]

theorem acceptBody_full (full : header.length ≤ payload.length) (consumed : Nat)
    (rest : List UInt8) :
    acceptBody header payload consumed rest = acceptBody header payload consumed [] := by
  simp [acceptBody, Nat.sub_eq_zero_of_le full]

theorem acceptBody_split (header : Header) (payload : List UInt8)
    (consumed : Nat) (rest : List UInt8) :
    acceptBody header payload consumed rest =
      proceed (acceptBody header payload consumed []) (push · rest) := by
  by_cases short : payload.length < header.length
  · rw [acceptBody_nil short]
    simp only [proceed, push, advance_acceptBody, Nat.add_zero]
  · rw [acceptBody_full (Nat.le_of_not_lt short)]
    -- A complete payload returns a record or fails, and takes nothing more.
    cases checked : checkPayload header.recordType payload with
    | error error | ok _ => simp [acceptBody, short, checked, proceed]

theorem acceptHeader_congr (same : first = second)
    (fits : first.length ≤ outerHeaderLen) (consumed : Nat) (rest : List UInt8) :
    acceptHeader first fits consumed rest = acceptHeader second (same ▸ fits) consumed rest := by
  subst second
  rfl

theorem advance_acceptHeader (arrived : List UInt8)
    (fits : arrived.length ≤ outerHeaderLen) (before consumed : Nat) (rest : List UInt8) :
    advance before (acceptHeader arrived fits consumed rest) =
      acceptHeader arrived fits (before + consumed) rest := by
  unfold acceptHeader
  split
  · rfl
  · split
    · rfl
    · exact advance_acceptBody _ _ _ _ _

theorem push_atHeader_more (short : bytes.length < outerHeaderLen)
    (more : (bytes ++ [byte]).length < outerHeaderLen) (rest : List UInt8) :
    push (.atHeader bytes short) (byte :: rest) =
      advance 1 (push (.atHeader (bytes ++ [byte]) more) rest) := by
  have length : (bytes ++ [byte]).length = bytes.length + 1 := by simp
  rw [length] at more
  have take : min (outerHeaderLen - bytes.length) (rest.length + 1) =
      1 + min (outerHeaderLen - (bytes.length + 1)) rest.length := by
    omega
  simp only [push, advance_acceptHeader, List.length_cons, take, length,
    Nat.add_comm 1, List.drop_succ_cons]
  apply acceptHeader_congr
  simp

theorem push_atHeader_last (short : bytes.length < outerHeaderLen)
    (last : (bytes ++ [byte]).length = outerHeaderLen) (rest : List UInt8) :
    push (.atHeader bytes short) (byte :: rest) =
      match parseHeader ⟨bytes ++ [byte], last⟩ with
      | .error error => (.failed error, .error error)
      | .ok header => acceptBody header [] 1 rest := by
  have take : min (outerHeaderLen - bytes.length) (rest.length + 1) = 1 := by
    simp only [List.length_append, List.length_singleton] at last
    omega
  simp only [push, List.length_cons, take, List.take_succ_cons, List.take_zero,
    List.drop_succ_cons, List.drop_zero, acceptHeader]
  rw [dif_neg (by omega)]

theorem push_nil {parser : RecordParser} (live : ∀ error, parser ≠ .failed error) :
    parser.push [] = (parser, .ok (0, none)) := by
  cases parser with
  | atHeader bytes short =>
    simp only [push, List.length_nil, Nat.min_zero, List.take_zero]
    rw [acceptHeader_congr (List.append_nil bytes)]
    simp [acceptHeader, short]
  | atBody header payload short => exact acceptBody_nil short 0
  | failed error => exact absurd rfl (live error)

theorem header_short_or_full (short : bytes.length < outerHeaderLen) (byte : UInt8) :
    (bytes ++ [byte]).length < outerHeaderLen ∨ (bytes ++ [byte]).length = outerHeaderLen := by
  rw [List.length_append]
  exact Nat.lt_or_eq_of_le short

theorem push_cons (parser : RecordParser) (byte : UInt8) (rest : List UInt8) :
    parser.push (byte :: rest) = proceed (parser.push [byte]) (push · rest) := by
  cases parser with
  | failed error => rfl
  | atBody header payload short =>
    simp only [push, acceptBody_cons short]
    exact acceptBody_split header _ _ rest
  | atHeader bytes short =>
    rcases header_short_or_full short byte with more | last
    · rw [push_atHeader_more short more, push_atHeader_more short more, push_nil (by simp)]
      rfl
    · rw [push_atHeader_last short last, push_atHeader_last short last]
      cases parsed : parseHeader ⟨bytes ++ [byte], last⟩ with
      | error error => rfl
      | ok header => exact acceptBody_split header [] 1 rest

theorem acceptBody_ok
    (accepted : acceptBody header payload consumed input = (next, .ok (count, record))) :
    (∀ error, next ≠ .failed error) ∧
      count = consumed + min (header.length - payload.length) input.length ∧
      (record.isSome = true → next = .new) := by
  unfold acceptBody at accepted
  simp only at accepted
  split at accepted
  · obtain ⟨rfl, same⟩ := Prod.mk.inj accepted
    obtain ⟨rfl, rfl⟩ := Prod.mk.inj (Except.ok.inj same)
    exact ⟨by simp, rfl, by simp⟩
  · split at accepted
    · simp at accepted
    · obtain ⟨rfl, same⟩ := Prod.mk.inj accepted
      exact ⟨by simp [new], (Prod.mk.inj (Except.ok.inj same)).1.symm, fun _ => rfl⟩

theorem push_one (pushed : push parser [byte] = (next, .ok (count, record))) :
    count = 1 ∧ next.push [] = (next, .ok (0, none)) := by
  cases parser with
  | failed error => simp [push] at pushed
  | atBody header payload short =>
    obtain ⟨live, same, _⟩ := acceptBody_ok pushed
    refine ⟨?_, push_nil live⟩
    simp only [List.length_singleton] at same
    omega
  | atHeader bytes short =>
    rcases header_short_or_full short byte with more | last
    · rw [push_atHeader_more short more, push_nil (by simp)] at pushed
      obtain ⟨rfl, same⟩ := Prod.mk.inj pushed
      exact ⟨(Prod.mk.inj (Except.ok.inj same)).1.symm, push_nil (by simp)⟩
    · rw [push_atHeader_last short last] at pushed
      split at pushed
      · simp at pushed
      · obtain ⟨live, same, _⟩ := acceptBody_ok pushed
        exact ⟨by simpa using same, push_nil live⟩

/-- A record is returned at its last byte. -/
theorem new_of_push (pushed : push parser input = (next, .ok (count, some record))) :
    next = .new := by
  cases parser with
  | failed error => simp [push] at pushed
  | atBody header payload short => exact (acceptBody_ok pushed).2.2 rfl
  | atHeader bytes short =>
    simp only [push, acceptHeader] at pushed
    split at pushed
    · simp at pushed
    · split at pushed
      · simp at pushed
      · exact (acceptBody_ok pushed).2.2 rfl

def reader : Reader RecordParser UInt8 Record RecordError where
  push := push
  push_one := push_one
  push_cons := push_cons

end RecordParser

end Nvx.Protocol.Nvxs
