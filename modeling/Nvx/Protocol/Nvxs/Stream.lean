import Nvx.Protocol.Nvxs.Parser

namespace Nvx.Protocol.Nvxs

open Nvx.Data

/-! Streams of records: what the encoder writes is what the parser reads. -/

def Record.header (record : Record) (valid : checkRecord record = .ok ()) : Header where
  recordType := record.recordType
  instanceId := record.instanceId
  epoch := record.epoch
  sequence := record.sequence
  length := record.payload.length
  lengthOk := (checkRecord_eq_ok_iff.mp valid).1
  identityOk := (checkRecord_eq_ok_iff.mp valid).2.1

theorem Record.bytes_eq (record : Record) (valid : checkRecord record = .ok ()) :
    record.bytes = (record.header valid).bytes.val ++ record.payload :=
  rfl

theorem Header.bytes_record (header : Header) (full : payload.length = header.length) :
    (header.record payload).bytes = header.bytes.val ++ payload := by
  rw [Record.bytes, Header.bytes, ← full]
  rfl

namespace RecordParser

theorem ready_new : reader.Ready new :=
  @push_nil new (by simp [new])

theorem push_record (valid : checkRecord record = .ok ()) (rest : List UInt8) :
    new.push (record.bytes ++ rest) = (new, .ok (record.bytes.length, some record)) := by
  have wide := (record.header valid).bytes.property
  have take : min (outerHeaderLen - 0) (record.bytes ++ rest).length =
      outerHeaderLen := by
    rw [List.length_append, length_bytes]
    omega
  have arrived : [] ++ (record.bytes ++ rest).take outerHeaderLen =
      (record.header valid).bytes.val := by
    rw [record.bytes_eq valid, List.append_assoc, List.take_left' wide, List.nil_append]
  have left : (record.bytes ++ rest).drop outerHeaderLen = record.payload ++ rest := by
    rw [record.bytes_eq valid, List.append_assoc, List.drop_left' wide]
  simp only [push, new, List.length_nil, take]
  rw [acceptHeader_congr arrived, left, acceptHeader, dif_neg (by omega)]
  simp only [Subtype.coe_eta, parseHeader_bytes]
  have payload : min (record.payload.length - 0)
      (record.payload ++ rest).length = record.payload.length := by
    rw [List.length_append]
    omega
  have checked : checkPayload record.recordType record.payload = .ok () :=
    (checkRecord_eq_ok_iff.mp valid).2.2
  simp only [acceptBody, Record.header, List.length_nil, payload,
    List.take_left, List.nil_append, Nat.lt_irrefl, dif_neg, checked,
    not_false_eq_true, length_bytes]
  rfl

theorem scan_record (valid : checkRecord record = .ok ()) :
    reader.scan new record.bytes = ⟨[record], new, none⟩ := by
  have pushed := reader.pushed ready_new record.bytes
  have result := push_record valid []
  rw [List.append_nil] at result
  rw [show reader.push new record.bytes = _ from result] at pushed
  cases pushed with
  | item _ _ _ _ _ _ scanned => rwa [List.take_length] at scanned

theorem scan_records (valid : ∀ record ∈ records, checkRecord record = .ok ()) :
    reader.scan new (records.flatMap Record.bytes) = ⟨records, new, none⟩ := by
  induction records with
  | nil => rfl
  | cons record records induction =>
    rw [List.forall_mem_cons] at valid
    rw [List.flatMap_cons, Reader.scan_append, scan_record valid.1]
    simp [Fed.next, induction valid.2]

def held : RecordParser → List UInt8
  | .atHeader bytes _ => bytes
  | .atBody header payload _ => header.bytes.val ++ payload
  | .failed _ => []

theorem length_held (parser : RecordParser) : parser.held.length = parser.buffered := by
  cases parser with
  | atHeader bytes short => rfl
  | atBody header payload short =>
    rw [held, List.length_append, header.bytes.property]
    rfl
  | failed error => rfl

/-- Every byte taken is held, or is in a record that was returned. -/
def Accounts (before : List UInt8) (records : List Record) (parser : RecordParser) : Prop :=
  before = records.flatMap Record.bytes ++ parser.held ∧
    ∀ record ∈ records, checkRecord record = .ok ()

theorem acceptBody_accounts (fits : payload.length ≤ header.length)
    (accepted : acceptBody header payload consumed [] = (next, .ok (count, record))) :
    Accounts (header.bytes.val ++ payload) record.toList next := by
  by_cases short : payload.length < header.length
  · rw [acceptBody_nil short] at accepted
    obtain ⟨rfl, same⟩ := Prod.mk.inj accepted
    obtain ⟨_, rfl⟩ := Prod.mk.inj (Except.ok.inj same)
    exact ⟨rfl, by simp⟩
  · have full := Nat.le_antisymm fits (Nat.le_of_not_lt short)
    simp only [acceptBody, List.length_nil, Nat.min_zero, List.take_nil,
      List.append_nil, short, dif_neg, not_false_eq_true] at accepted
    split at accepted
    · simp at accepted
    · rename_i checked
      obtain ⟨rfl, same⟩ := Prod.mk.inj accepted
      obtain ⟨_, rfl⟩ := Prod.mk.inj (Except.ok.inj same)
      constructor
      · simp [header.bytes_record full, held, new]
      · simp only [Option.toList_some, List.mem_singleton, forall_eq]
        rw [checkRecord_eq_ok_iff]
        exact ⟨full ▸ header.lengthOk, header.identityOk, checked⟩

theorem push_one_accounts (pushed : push parser [byte] = (next, .ok (count, record))) :
    Accounts (parser.held ++ [byte]) record.toList next := by
  cases parser with
  | failed error => simp [push] at pushed
  | atBody header payload short =>
    rw [push, acceptBody_cons short] at pushed
    rw [held, List.append_assoc]
    apply acceptBody_accounts _ pushed
    rw [List.length_append]
    exact short
  | atHeader bytes short =>
    rcases header_short_or_full short byte with more | last
    · rw [push_atHeader_more short more, push_nil (by simp)] at pushed
      obtain ⟨rfl, same⟩ := Prod.mk.inj pushed
      obtain ⟨_, rfl⟩ := Prod.mk.inj (Except.ok.inj same)
      exact ⟨rfl, by simp⟩
    · rw [push_atHeader_last short last] at pushed
      split at pushed
      · simp at pushed
      · rename_i header parsed
        have accounts := acceptBody_accounts (Nat.zero_le _) pushed
        rwa [bytes_of_parseHeader parsed, List.append_nil] at accounts

theorem scan_accounts {parser : RecordParser} {bytes : List UInt8}
    (done : (reader.scan parser bytes).failure = none) :
    Accounts (parser.held ++ bytes) (reader.scan parser bytes).items
      (reader.scan parser bytes).state := by
  induction bytes generalizing parser with
  | nil => exact ⟨List.append_nil _, by simp [Reader.scan]⟩
  | cons byte bytes induction =>
    rcases first : reader.push parser [byte] with
      ⟨next, error | ⟨count, record⟩⟩
    · rw [reader.scan_cons_error first] at done
      simp at done
    · rw [reader.scan_cons_ok first] at done ⊢
      rw [Option.map_eq_none_iff] at done
      obtain ⟨same, valid⟩ := push_one_accounts first
      obtain ⟨later, others⟩ := induction done
      constructor
      · rw [List.append_cons, same, List.append_assoc, later,
          List.flatMap_append, List.append_assoc]
      · intro record member
        rcases List.mem_append.mp member with earlier | afterwards
        · exact valid record earlier
        · exact others record afterwards

end RecordParser

namespace RecordParser

theorem ready_of_push (pushed : parser.push input = (next, .ok taken)) :
    reader.Ready parser := by
  apply push_nil
  rintro error rfl
  simp [push] at pushed

theorem checkRecord_of_push (pushed : push parser input = (next, .ok (count, some record))) :
    checkRecord record = .ok () := by
  have taken := reader.pushed (ready_of_push pushed) input
  rw [show reader.push parser input = _ from pushed] at taken
  cases taken with
  | item _ _ _ _ _ _ scanned =>
    have accounts := @scan_accounts parser (input.take count)
    rw [scanned] at accounts
    exact (accounts rfl).2 record (List.mem_singleton_self record)

end RecordParser

/-- What a new parser makes of a stream that arrives in these pieces. -/
def parseStream (pieces : List (List UInt8)) :
    Fed RecordParser Record (Reader.Within RecordError) :=
  RecordParser.reader.feed .new pieces

theorem parseStream_agrees (pieces : List (List UInt8)) : Reader.Agrees (parseStream pieces)
      (RecordParser.reader.scan .new pieces.flatten) :=
  Reader.feed_agrees _ RecordParser.ready_new pieces

theorem parseStream_of_scan {bytes : List UInt8}
    (scanned : RecordParser.reader.scan .new bytes = ⟨records, state, none⟩)
    (same : pieces.flatten = bytes) : parseStream pieces = ⟨records, state, none⟩ := by
  have agrees := parseStream_agrees pieces
  rw [same, scanned] at agrees
  generalize parseStream pieces = fed at agrees ⊢
  cases agrees with
  | done => rfl

theorem parseStream_of_records (valid : ∀ record ∈ records, checkRecord record = .ok ())
    (same : pieces.flatten = records.flatMap Record.bytes) :
    parseStream pieces = ⟨records, .new, none⟩ :=
  parseStream_of_scan (RecordParser.scan_records valid) same

theorem records_of_parseStream (done : (parseStream pieces).failure = none)
    (boundary : (parseStream pieces).state.buffered = 0) :
    (∀ record ∈ (parseStream pieces).items, checkRecord record = .ok ()) ∧
      pieces.flatten = (parseStream pieces).items.flatMap Record.bytes := by
  have agrees := parseStream_agrees pieces
  have accounts := @RecordParser.scan_accounts .new pieces.flatten
  generalize parseStream pieces = fed at agrees done boundary ⊢
  generalize RecordParser.reader.scan .new pieces.flatten = scanned at agrees accounts
  cases agrees with
  | failed => simp at done
  | done records state =>
    obtain ⟨same, valid⟩ := accounts rfl
    rw [← RecordParser.length_held, List.length_eq_zero_iff] at boundary
    rw [boundary, List.append_nil] at same
    exact ⟨valid, same⟩

/-- The pieces a stream is cut into change nothing of what the parser returns,
the encoder's records are returned as they were, and a stream read up to the end
of a record is the encoding of the records returned. A failure is that of the
`push` which is handed the byte at a position that the stream alone decides. -/
theorem stream_is_parsed_exactly :
    (∀ bytes : List UInt8, ∃ position : Nat, ∀ pieces, pieces.flatten = bytes →
      (parseStream pieces).items = (parseStream [bytes]).items ∧
      (parseStream pieces).state.buffered = (parseStream [bytes]).state.buffered ∧
      (parseStream pieces).failure.map (·.2.2) = (parseStream [bytes]).failure.map (·.2.2) ∧
      ∀ start stop error, (parseStream pieces).failure = some (start, stop, error) →
          start < position ∧ position ≤ stop) ∧
    (∀ records bytes, encodeRecords records [] = (bytes, .ok ()) →
      ∀ pieces, pieces.flatten = bytes → (parseStream pieces).items = records ∧
        (parseStream pieces).failure = none ∧
        (parseStream pieces).state.buffered = 0) ∧
    ∀ pieces, (parseStream pieces).failure = none → (parseStream pieces).state.buffered = 0 →
        encodeRecords (parseStream pieces).items [] = (pieces.flatten, .ok ()) := by
  refine ⟨?_, ?_, ?_⟩
  · intro bytes
    have whole := parseStream_agrees [bytes]
    rw [List.flatten_singleton] at whole
    generalize parseStream [bytes] = fed at whole ⊢
    cases scanned : RecordParser.reader.scan .new bytes with
    | mk items state failure =>
      refine ⟨(failure.map (·.1)).getD 0, fun pieces same => ?_⟩
      have agrees := parseStream_agrees pieces
      rw [same, scanned] at agrees
      rw [scanned] at whole
      generalize parseStream pieces = other at agrees ⊢
      cases agrees with
      | done =>
        cases whole with
        | done => exact ⟨rfl, rfl, rfl, by simp⟩
      | failed _ _ start stop position error after within =>
        cases whole with
        | failed =>
          refine ⟨rfl, rfl, rfl, fun first last error same => ?_⟩
          simp only [Option.some.injEq, Prod.mk.injEq] at same
          obtain ⟨rfl, rfl, _⟩ := same
          exact ⟨after, within⟩
  · intro records bytes encoded pieces same
    obtain ⟨valid, rfl⟩ := encodeRecords_eq_ok_iff.mp encoded
    rw [parseStream_of_records valid (by simpa using same)]
    exact ⟨rfl, rfl, rfl⟩
  · intro pieces done boundary
    rw [encodeRecords_eq_ok_iff]
    exact records_of_parseStream done boundary

end Nvx.Protocol.Nvxs
