import Nvx.Data.Machine
import Nvx.Protocol.Nvxs.Session

namespace Nvx.Protocol.Nvxs

open Nvx.Data

inductive HostState where
  | detached
  | attaching
  | attached
  | rejected
  | reset
  | closed
  | failed
  deriving DecidableEq, Repr

/-- The states in which the host takes records from the broker. -/
def HostState.receives : HostState → Bool
  | .attaching | .attached => true
  | _ => false

def HostState.ended : HostState → Bool
  | .detached | .attaching | .attached => false
  | _ => true

inductive HostEvent where
  | wait
  | attached (identity : Identity)
  | rejected (code : ErrorCode)
  | data (payload : List UInt8)
  | reset (identity : Identity)
  deriving DecidableEq

/-- The events after which the host takes no more records. -/
def HostEvent.final : HostEvent → Bool
  | .rejected _ | .reset _ => true
  | _ => false

structure HostSession where
  state : HostState
  parser : RecordParser
  identity : Option Identity
  receiveSequence : UInt64
  sendSequence : UInt64

def Record.errorCode (record : Record) : Option ErrorCode :=
  if record.recordType = .error then ErrorCode.fromCode (value record.payload)
  else none

namespace HostSession

def new : HostSession where
  state := .detached
  parser := .new
  identity := none
  receiveSequence := 0
  sendSequence := 0

def attach (session : HostSession) (capability : Bytes capabilityLen) (output : List UInt8) :
    HostSession × List UInt8 × Except SessionError Unit :=
  if session.state ≠ .detached then (session, output, .error .invalidState)
  else
    match encodeRecord ⟨.hostAttach, Bytes.zero 16, 0, 0, capability.val⟩ output with
    | (output, .error error) => (session, output, .error (.record error))
    | (output, .ok ()) =>
      ({ session with state := .attaching }, output, .ok ())

def allows : HostState → RecordType → Bool
  | .attaching, .wait | .attaching, .ready | .attaching, .error => true
  | .attached, .data | .attached, .reset => true
  | _, _ => false

def apply (session : HostSession) (record : Record) :
    Except SessionError (HostSession × HostEvent) :=
  match record.recordType, session.identity with
  | .wait, _ => .ok (session, .wait)
  | .ready, _ =>
    match recordIdentity record with
    | none => .error (.missingIdentity .ready)
    | some identity =>
      .ok ({ session with identity := some identity, state := .attached }, .attached identity)
  | .error, _ =>
    match record.errorCode with
    | none => .error (.unexpected .error)
    | some code => .ok ({ session with state := .rejected }, .rejected code)
  | .data, some identity => do
      checkIdentity record identity
      .ok (session, .data record.payload)
  | .reset, some identity =>
    match recordIdentity record with
    | none => .error (.missingIdentity .reset)
    | some reset =>
      if reset.instanceId ≠ identity.instanceId then
        .error (.instanceId identity.instanceId reset.instanceId)
      else if reset.epoch ≤ identity.epoch then
        .error (.staleEpoch identity.epoch reset.epoch)
      else .ok ({ session with state := .reset }, .reset reset)
  | recordType, _ => .error (.unexpected recordType)

/-- Validates a complete record: its type, then its sequence number, then its
identity. -/
def accept (session : HostSession) (record : Record) :
    Except SessionError (HostSession × HostEvent) :=
  if allows session.state record.recordType = false then
    .error (.unexpected record.recordType)
  else do
    checkSequence record session.receiveSequence
    let next ← nextSequence session.receiveSequence record.recordType
    let (session, event) ← session.apply record
    .ok ({ session with receiveSequence := next }, event)

def receive (session : HostSession) (input : List UInt8) :
    HostSession × Except SessionError (Nat × Option HostEvent) :=
  if session.state.receives = false then (session, .error .invalidState)
  else
    match session.parser.push input with
    | (parser, .error error) =>
      ({ session with parser, state := .failed }, .error (.record error))
    | (parser, .ok (consumed, none)) =>
      ({ session with parser }, .ok (consumed, none))
    | (parser, .ok (consumed, some record)) =>
      match accept { session with parser } record with
      | .error error =>
        ({ session with parser, state := .failed }, .error error)
      | .ok (session, event) => (session, .ok (consumed, some event))

def send (session : HostSession) (data output : List UInt8) :
    HostSession × List UInt8 × Except SessionError Nat :=
  match session.state, session.identity with
  | .attached, some identity =>
    let (sendSequence, output, result) :=
      encodeData identity session.sendSequence data output
    ({ session with sendSequence }, output, result)
  | _, _ => (session, output, .error .invalidState)

def disconnect (session : HostSession) : HostSession × Except SessionError Unit :=
  if session.state.ended then (session, .ok ())
  else
    let buffered := session.parser.buffered
    if buffered ≠ 0 then
      ({ session with state := .failed }, .error (.truncated buffered))
    else ({ session with state := .closed }, .ok ())

end HostSession

namespace Host

inductive Call where
  | attach (capability : Bytes capabilityLen)
  | receive (input : List UInt8)
  | send (data : List UInt8)
  | disconnect

inductive Reply where
  | done
  | received (consumed : Nat) (event : Option HostEvent)
  | sent (taken : Nat)
  deriving DecidableEq

abbrev Outcome := Except SessionError Reply

end Host

structure Host where
  session : HostSession
  output : List UInt8

namespace Host

def new : Host := ⟨.new, []⟩

def step (host : Host) : Call → Host × Outcome
  | .attach capability =>
    let (session, output, result) :=
      host.session.attach capability host.output
    (⟨session, output⟩, result.map fun _ => .done)
  | .receive input =>
    let (session, result) := host.session.receive input
    (⟨session, host.output⟩, result.map fun (consumed, event) => .received consumed event)
  | .send data =>
    let (session, output, result) := host.session.send data host.output
    (⟨session, output⟩, result.map .sent)
  | .disconnect =>
    let (session, result) := host.session.disconnect
    (⟨session, host.output⟩, result.map fun _ => .done)

def machine : Machine Host Call Outcome := ⟨step⟩

inductive Change (host : Host) : Call → Host → Outcome → Prop
  | refused (call : Call) (error : SessionError)
      (quiet : ∀ input, call = .receive input →
        error = .invalidState ∧ host.session.state.receives = false) :
      Change host call host (.error error)
  | kept : Change host .disconnect host (.ok .done)
  | attached (capability : Bytes capabilityLen) (fresh : host.session.state = .detached) :
      Change host (.attach capability) ⟨{ host.session with state := .attaching },
          host.output ++ Record.bytes ⟨.hostAttach, Bytes.zero 16, 0, 0,
            capability.val⟩⟩ (.ok .done)
  | waited (input : List UInt8) (count : Nat) (parser : RecordParser)
      (receives : host.session.state.receives = true)
      (pushed : host.session.parser.push input = (parser, .ok (count, none))) :
      Change host (.receive input) ⟨{ host.session with parser }, host.output⟩
        (.ok (.received count none))
  | accepted (input : List UInt8) (count : Nat) (parser : RecordParser)
      (record : Record) (next : HostSession) (event : HostEvent)
      (receives : host.session.state.receives = true)
      (pushed : host.session.parser.push input = (parser, .ok (count, some record)))
      (accepted : HostSession.accept { host.session with parser } record = .ok (next, event)) :
      Change host (.receive input) ⟨next, host.output⟩ (.ok (.received count (some event)))
  | malformed (input : List UInt8) (parser : RecordParser) (error : RecordError)
      (receives : host.session.state.receives = true)
      (pushed : host.session.parser.push input = (parser, .error error)) :
      Change host (.receive input) ⟨{ host.session with parser, state := .failed }, host.output⟩
        (.error (.record error))
  | unfit (input : List UInt8) (count : Nat) (parser : RecordParser)
      (record : Record) (error : SessionError)
      (receives : host.session.state.receives = true)
      (pushed : host.session.parser.push input = (parser, .ok (count, some record)))
      (refused : HostSession.accept { host.session with parser } record = .error error) :
      Change host (.receive input) ⟨{ host.session with parser, state := .failed }, host.output⟩
        (.error error)
  | sent (data : List UInt8) (taken : Nat) (identity : Identity) (next : UInt64)
      (attached : host.session.state = .attached)
      (carried : host.session.identity = some identity)
      (following : next.toNat = host.session.sendSequence.toNat + 1)
      (valid : checkRecord ⟨.data, identity.instanceId, identity.epoch,
        host.session.sendSequence, data.take taken⟩ = .ok ()) :
      Change host (.send data) ⟨{ host.session with sendSequence := next },
          host.output ++ Record.bytes ⟨.data, identity.instanceId,
            identity.epoch, host.session.sendSequence, data.take taken⟩⟩
        (.ok (.sent taken))
  | truncated (error : SessionError) (live : host.session.state.ended = false) :
      Change host .disconnect ⟨{ host.session with state := .failed }, host.output⟩ (.error error)
  | closed (live : host.session.state.ended = false) : Change host .disconnect
        ⟨{ host.session with state := .closed }, host.output⟩ (.ok .done)

variable (host : Host)

theorem attach_change (capability : Bytes capabilityLen) :
    host.Change (.attach capability) (host.step (.attach capability)).1
      (host.step (.attach capability)).2 := by
  simp only [step, HostSession.attach]
  split
  · exact .refused _ _ (by simp)
  · rename_i fresh
    have result := encoded ⟨.hostAttach, Bytes.zero 16, 0, 0, capability.val⟩ host.output
    generalize encodeRecord _ host.output = written at result ⊢
    cases result with
    | refused error => exact .refused _ _ (by simp)
    | encoded valid => exact .attached capability (not_not.mp fresh)

theorem receive_change (input : List UInt8) :
    host.Change (.receive input) (host.step (.receive input)).1 (host.step (.receive input)).2 := by
  simp only [step, HostSession.receive]
  split
  · rename_i deaf
    exact .refused _ _ fun _ _ => ⟨rfl, deaf⟩
  rename_i receives
  rw [Bool.not_eq_false] at receives
  split
  · rename_i parser error pushed
    exact .malformed input parser error receives pushed
  · rename_i parser count pushed
    exact .waited input count parser receives pushed
  · rename_i parser count record pushed
    split
    · rename_i error refused
      exact .unfit input count parser record error receives pushed refused
    · rename_i next event accepted
      exact .accepted input count parser record next event receives pushed accepted

theorem send_change (data : List UInt8) : host.Change (.send data) (host.step (.send data)).1
      (host.step (.send data)).2 := by
  simp only [step, HostSession.send]
  split
  · rename_i identity attached carried
    have result := encodedData identity host.session.sendSequence data host.output
    generalize encodeData _ _ data host.output = written at result ⊢
    cases result with
    | refused error => exact .refused _ _ (by simp)
    | encoded next taken following valid =>
      exact .sent data taken identity next attached carried following valid
  · exact .refused _ _ (by simp)

theorem disconnect_change : host.Change .disconnect (host.step .disconnect).1
      (host.step .disconnect).2 := by
  simp only [step, HostSession.disconnect]
  split
  · exact .kept
  · rename_i live
    rw [Bool.not_eq_true] at live
    split
    · exact .truncated _ live
    · exact .closed live

theorem change (call : Call) : host.Change call (host.step call).1 (host.step call).2 := by
  cases call with
  | attach capability => exact host.attach_change capability
  | receive input => exact host.receive_change input
  | send data => exact host.send_change data
  | disconnect => exact host.disconnect_change

theorem step_of_ended {host : Host} (ended : host.session.state.ended = true) (call : Call) :
    (host.step call).1 = host ∧
      ((host.step call).2 = .error .invalidState ∨ call = .disconnect) := by
  rcases host with ⟨⟨state, parser, identity, receiveSequence, sendSequence⟩, output⟩
  cases state <;> cases ended
  all_goals
    cases call <;> exact ⟨rfl, by first | exact .inl rfl | exact .inr rfl⟩

end Host

namespace HostSession

variable {session next : HostSession} {record : Record} {event : HostEvent}

/-- The parser and the sequence of the host's own records play no part in what
a session makes of a record. -/
theorem apply_frame (session : HostSession) (parser : RecordParser)
    (sendSequence : UInt64) (record : Record) :
    apply { session with parser, sendSequence } record =
      (apply session record).map fun (next, event) =>
        ({ next with parser, sendSequence }, event) := by
  rcases session with ⟨state, _, identity, receiveSequence, _⟩
  cases type : record.recordType <;> simp only [apply, type]
  case wait => rfl
  case ready => cases recordIdentity record <;> rfl
  case error => cases record.errorCode <;> rfl
  case data =>
    cases identity with
    | none => rfl
    | some identity =>
      simp only
      cases checkIdentity record identity <;> rfl
  case reset =>
    cases identity with
    | none => rfl
    | some identity =>
      cases recordIdentity record with
      | none => rfl
      | some reset =>
        simp only
        split
        · rfl
        · split <;> rfl
  all_goals rfl

theorem accept_frame (session : HostSession) (parser : RecordParser)
    (sendSequence : UInt64) (record : Record) :
    accept { session with parser, sendSequence } record =
      (accept session record).map fun (next, event) =>
        ({ next with parser, sendSequence }, event) := by
  simp only [accept, apply_frame]
  split
  · rfl
  cases checkSequence record session.receiveSequence with
  | error error => rfl
  | ok _ =>
    cases nextSequence session.receiveSequence record.recordType with
    | error error => rfl
    | ok following => cases session.apply record <;> rfl

/-- A record is accepted at its place: its type is allowed, it carries the
expected sequence number, and that is not the last one. -/
theorem accept_eq (session : HostSession) (record : Record) :
    (allows session.state record.recordType = true ∧ record.sequence = session.receiveSequence ∧
      session.receiveSequence.toNat + 1 < 2 ^ 64 ∧
      accept session record = (session.apply record).map fun (next, event) =>
        ({ next with receiveSequence := session.receiveSequence + 1 }, event)) ∨
    ¬ (allows session.state record.recordType = true ∧ record.sequence = session.receiveSequence ∧
      session.receiveSequence.toNat + 1 < 2 ^ 64) ∧
      ∃ error, error ≠ .invalidState ∧ accept session record = .error error := by
  by_cases allowed : allows session.state record.recordType = true
  · by_cases expected : record.sequence = session.receiveSequence
    · by_cases fits : session.receiveSequence.toNat + 1 < 2 ^ 64
      · refine .inl ⟨allowed, expected, fits, ?_⟩
        simp only [accept, allowed, checkSequence, expected, nextSequence, fits]
        cases session.apply record <;> rfl
      · refine .inr ⟨fun held => fits held.2.2, .sequenceOverflow record.recordType, by simp, ?_⟩
        have overflows : nextSequence session.receiveSequence record.recordType =
            .error (.sequenceOverflow record.recordType) := if_neg fits
        simp [accept, allowed, checkSequence, expected, overflows, bind, Except.bind]
    · refine .inr ⟨by simp [expected],
        .sequence session.receiveSequence record.sequence, by simp, ?_⟩
      simp [accept, allowed, checkSequence, expected, bind, Except.bind]
  · refine .inr ⟨by simp [allowed], .unexpected record.recordType, by simp, ?_⟩
    simp [accept, allowed]

inductive Applied (session : HostSession) (record : Record) :
    Except SessionError (HostSession × HostEvent) → Prop
  | wait (type : record.recordType = .wait) : Applied session record (.ok (session, .wait))
  | ready (identity : Identity) (type : record.recordType = .ready)
      (carried : recordIdentity record = some identity) :
      Applied session record (.ok ({ session with identity := some identity, state := .attached },
          .attached identity))
  | rejected (code : ErrorCode) (type : record.recordType = .error) : Applied session record
        (.ok ({ session with state := .rejected }, .rejected code))
  | data (type : record.recordType = .data) (carried : session.identity = some record.identity) :
      Applied session record (.ok (session, .data record.payload))
  | reset (identity : Identity) (type : record.recordType = .reset) : Applied session record
        (.ok ({ session with state := .reset }, .reset identity))
  | refused (error : SessionError) (valid : error ≠ .invalidState)
      (noWait : record.recordType ≠ .wait)
      (noReady : record.recordType = .ready → recordIdentity record = none)
      (noData : record.recordType = .data → session.identity ≠ some record.identity) :
      Applied session record (.error error)

theorem applied (session : HostSession) (record : Record) :
    Applied session record (session.apply record) := by
  unfold apply
  split
  · exact .wait ‹_›
  · rename_i type
    split
    · exact .refused _ (by simp) (by simp [type]) (fun _ => ‹_›) (by simp [type])
    · exact .ready _ type ‹_›
  · rename_i type
    split
    · exact .refused _ (by simp) (by simp [type]) (by simp [type])
        (by simp [type])
    · exact .rejected _ type
  · rename_i identity type carried
    cases checked : checkIdentity record identity with
    | ok _ =>
      rw [checkIdentity_eq_ok_iff] at checked
      exact .data type (by rw [carried, checked])
    | error error =>
      refine .refused _ (checkIdentity_error checked) (by simp [type])
        (by simp [type]) fun _ same => ?_
      rw [carried, Option.some.injEq, eq_comm, ← checkIdentity_eq_ok_iff] at same
      rw [same] at checked
      cases checked
  · rename_i type _
    split
    · exact .refused _ (by simp) (by simp [type]) (by simp [type])
        (by simp [type])
    · split
      · exact .refused _ (by simp) (by simp [type]) (by simp [type])
          (by simp [type])
      · split
        · exact .refused _ (by simp) (by simp [type]) (by simp [type])
            (by simp [type])
        · exact .reset _ type
  · rename_i noWait noReady noError noData noReset
    refine .refused _ (by simp) noWait (fun type => absurd type noReady)
      fun type same => noData _ type same

theorem accept_error (refused : session.accept record = .error error) : error ≠ .invalidState := by
  rcases session.accept_eq record with ⟨_, _, _, same⟩ | ⟨_, other, valid, same⟩
  · have result := session.applied record
    rw [same] at refused
    generalize session.apply record = outcome at result refused
    cases result with
    | refused other valid => exact Except.error.inj refused ▸ valid
    | _ => cases refused
  · rw [same] at refused
    exact Except.error.inj refused ▸ valid

/-- An accepted record leaves the sequence of the host's own records, and only
READY sets the identity. -/
theorem accept_ok (accepted : session.accept record = .ok (next, event)) :
    next.sendSequence = session.sendSequence ∧ next.parser = session.parser ∧
      next.state ≠ .detached ∧
      (next.identity = session.identity ∨ ∃ identity, next.identity = some identity ∧
          event = .attached identity) := by
  rcases session.accept_eq record with ⟨allowed, _, _, same⟩ | ⟨_, _, _, same⟩
  · have live : session.state ≠ .detached := by
      intro detached
      simp [detached, allows] at allowed
    have result := session.applied record
    rw [same] at accepted
    generalize session.apply record = outcome at result accepted
    cases result with
    | refused => cases accepted
    | wait | data =>
      obtain ⟨rfl, rfl⟩ := Prod.mk.inj (Except.ok.inj accepted)
      exact ⟨rfl, rfl, live, .inl rfl⟩
    | ready identity =>
      obtain ⟨rfl, rfl⟩ := Prod.mk.inj (Except.ok.inj accepted)
      exact ⟨rfl, rfl, by simp, .inr ⟨identity, rfl, rfl⟩⟩
    | rejected | reset =>
      obtain ⟨rfl, rfl⟩ := Prod.mk.inj (Except.ok.inj accepted)
      exact ⟨rfl, rfl, by simp, .inl rfl⟩
  · rw [same] at accepted
    cases accepted

theorem state_of_accept (accepted : session.accept record = .ok (next, event)) :
    next.state.ended = event.final ∧ next.state.receives = !event.final := by
  rcases session.accept_eq record with ⟨allowed, _, _, same⟩ | ⟨_, _, _, same⟩
  · have live : session.state.ended = false ∧ session.state.receives = true := by
      revert allowed
      cases session.state <;> simp [allows, HostState.ended, HostState.receives]
    have result := session.applied record
    rw [same] at accepted
    generalize session.apply record = outcome at result accepted
    cases result with
    | refused => cases accepted
    | wait | data =>
      obtain ⟨rfl, rfl⟩ := Prod.mk.inj (Except.ok.inj accepted)
      exact live
    | _ =>
      obtain ⟨rfl, rfl⟩ := Prod.mk.inj (Except.ok.inj accepted)
      exact ⟨rfl, rfl⟩
  · rw [same] at accepted
    cases accepted

def reading (session : HostSession) : List Record → List HostEvent
  | [] => []
  | record :: records =>
    match session.accept record with
    | .ok (next, event) => event :: reading next records
    | .error _ => []

theorem reading_cons_ok (accepted : session.accept record = .ok (next, event))
    (records : List Record) :
    session.reading (record :: records) = event :: next.reading records := by
  rw [reading, accepted]

theorem reading_cons_error
    (refused : session.accept record = .error error) (records : List Record) :
    session.reading (record :: records) = [] := by
  rw [reading, refused]

theorem reading_frame (session : HostSession) (parser : RecordParser)
    (sendSequence : UInt64) (records : List Record) :
    reading { session with parser, sendSequence } records =
      reading session records := by
  induction records generalizing session with
  | nil => rfl
  | cons record records induction =>
    simp only [reading, accept_frame]
    cases session.accept record with
    | error error => rfl
    | ok result => exact congrArg _ (induction result.1)

theorem reading_of_not_receives (deaf : session.state.receives = false)
    (records : List Record) : session.reading records = [] := by
  cases records with
  | nil => rfl
  | cons record records =>
    apply reading_cons_error
    · rw [accept, if_pos]
      cases state : session.state <;>
        simp_all [HostState.receives, allows]

end HostSession

end Nvx.Protocol.Nvxs
