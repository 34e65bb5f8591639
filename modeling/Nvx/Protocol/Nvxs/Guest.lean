import Nvx.Data.Machine
import Nvx.Protocol.Nvxs.Session

namespace Nvx.Protocol.Nvxs

open Nvx.Data

inductive GuestState where
  | detached
  | attaching
  | resetting
  | active
  | closed
  | failed
  deriving DecidableEq, Repr

/-- The states in which the guest takes records from the broker. -/
def GuestState.receives : GuestState → Bool
  | .attaching | .resetting | .active => true
  | _ => false

def GuestState.ended : GuestState → Bool
  | .closed | .failed => true
  | _ => false

inductive GuestEvent where
  | reset (identity : Identity)
  | data (payload : List UInt8)
  deriving DecidableEq

structure GuestSession where
  state : GuestState
  parser : RecordParser
  identity : Option Identity
  receiveSequence : UInt64
  sendSequence : UInt64
  window : UInt32
  outstanding : UInt32

namespace GuestSession

def new : GuestSession where
  state := .detached
  parser := .new
  identity := none
  receiveSequence := 0
  sendSequence := 0
  window := 0
  outstanding := 0

def attach (session : GuestSession) (output : List UInt8) :
    GuestSession × List UInt8 × Except SessionError Unit :=
  if session.state ≠ .detached then (session, output, .error .invalidState)
  else
    match encodeRecord ⟨.guestAttach, Bytes.zero 16, 0, 0, []⟩ output with
    | (output, .error error) => (session, output, .error (.record error))
    | (output, .ok ()) =>
      ({ session with state := .attaching }, output, .ok ())

def checkAdvance (current : Option Identity) (identity : Identity) :
    Except SessionError Unit :=
  match current with
  | some current =>
    if current.instanceId = identity.instanceId ∧ identity.epoch ≤ current.epoch then
      .error (.staleEpoch current.epoch identity.epoch)
    else .ok ()
  | none => .ok ()

def reset (session : GuestSession) (record : Record) :
    Except SessionError (GuestSession × GuestEvent) :=
  match recordIdentity record with
  | none => .error (.missingIdentity .reset)
  | some identity => do
      checkAdvance session.identity identity
      let next ← nextSequence record.sequence .reset
      .ok ({ session with
        identity := some identity
        receiveSequence := next
        sendSequence := 0
        window := 0
        outstanding := 0
        state := .resetting }, .reset identity)

def saturatingSub (left right : UInt32) : UInt32 :=
  if right ≤ left then left - right else 0

def data (session : GuestSession) (record : Record) :
    Except SessionError (GuestSession × GuestEvent) :=
  match session.identity with
  | none => .error (.unexpected .data)
  | some identity => do
      checkSequence record session.receiveSequence
      checkIdentity record identity
      let next ← nextSequence session.receiveSequence .data
      let length := UInt32.ofNat record.payload.length
      if saturatingSub session.window session.outstanding < length then
        .error (.window session.window session.outstanding length)
      else
        .ok ({ session with
          receiveSequence := next
          outstanding := session.outstanding + length }, .data record.payload)

def accept (session : GuestSession) (record : Record) :
    Except SessionError (GuestSession × GuestEvent) :=
  match session.state, record.recordType with
  | .attaching, .reset | .resetting, .reset | .active, .reset =>
    session.reset record
  | .active, .data => session.data record
  | _, recordType => .error (.unexpected recordType)

def receive (session : GuestSession) (input : List UInt8) :
    GuestSession × Except SessionError (Nat × Option GuestEvent) :=
  if session.state.receives = false then (session, .error .invalidState)
  else
    match session.parser.push input with
    | (parser, .error error) =>
      ({ session with parser, state := .failed }, .error (.record error))
    | (parser, .ok (consumed, none)) =>
      ({ session with parser }, .ok (consumed, none))
    | (parser, .ok (consumed, some record)) =>
      match accept { session with parser } record with
      | .error error =>
        ({ session with parser, state := .failed }, .error error)
      | .ok (session, event) => (session, .ok (consumed, some event))

def acknowledge (session : GuestSession) (window : UInt32) (output : List UInt8) :
    GuestSession × List UInt8 × Except SessionError Unit :=
  match session.state, session.identity with
  | .resetting, some identity =>
    match encodeRecord ⟨.ack, identity.instanceId, identity.epoch, 0,
      LittleEndian.ofUInt32 window⟩ output with
    | (output, .error error) => (session, output, .error (.record error))
    | (output, .ok ()) =>
      ({ session with
        sendSequence := 1
        window := window
        outstanding := 0
        state := .active }, output, .ok ())
  | _, _ => (session, output, .error .invalidState)

def send (session : GuestSession) (data output : List UInt8) :
    GuestSession × List UInt8 × Except SessionError Nat :=
  match session.state, session.identity with
  | .active, some identity =>
    let (sendSequence, output, result) :=
      encodeData identity session.sendSequence data output
    ({ session with sendSequence }, output, result)
  | _, _ => (session, output, .error .invalidState)

def credit (session : GuestSession) (bytes : UInt32) (output : List UInt8) :
    GuestSession × List UInt8 × Except SessionError Unit :=
  match session.state, session.identity with
  | .active, some identity =>
    if bytes = 0 ∨ session.outstanding < bytes then
      (session, output, .error (.credit session.outstanding bytes))
    else
      match encodeNext .credit identity session.sendSequence
        (LittleEndian.ofUInt32 bytes) output with
      | (sendSequence, output, .error error) =>
        ({ session with sendSequence }, output, .error error)
      | (sendSequence, output, .ok ()) =>
        ({ session with
          sendSequence
          outstanding := session.outstanding - bytes }, output, .ok ())
  | _, _ => (session, output, .error .invalidState)

def disconnect (session : GuestSession) : GuestSession × Except SessionError Unit :=
  if session.state.ended then (session, .ok ())
  else
    let buffered := session.parser.buffered
    if buffered ≠ 0 then
      ({ session with state := .failed }, .error (.truncated buffered))
    else ({ session with state := .closed }, .ok ())

end GuestSession

namespace Guest

inductive Call where
  | attach
  | receive (input : List UInt8)
  | acknowledge (window : UInt32)
  | send (data : List UInt8)
  | credit (bytes : UInt32)
  | disconnect

inductive Reply where
  | done
  | received (consumed : Nat) (event : Option GuestEvent)
  | sent (taken : Nat)
  deriving DecidableEq

abbrev Outcome := Except SessionError Reply

end Guest

structure Guest where
  session : GuestSession
  output : List UInt8

namespace Guest

def new : Guest := ⟨.new, []⟩

def step (guest : Guest) : Call → Guest × Outcome
  | .attach =>
    let (session, output, result) := guest.session.attach guest.output
    (⟨session, output⟩, result.map fun _ => .done)
  | .receive input =>
    let (session, result) := guest.session.receive input
    (⟨session, guest.output⟩, result.map fun (consumed, event) => .received consumed event)
  | .acknowledge window =>
    let (session, output, result) :=
      guest.session.acknowledge window guest.output
    (⟨session, output⟩, result.map fun _ => .done)
  | .send data =>
    let (session, output, result) := guest.session.send data guest.output
    (⟨session, output⟩, result.map .sent)
  | .credit bytes =>
    let (session, output, result) := guest.session.credit bytes guest.output
    (⟨session, output⟩, result.map fun _ => .done)
  | .disconnect =>
    let (session, result) := guest.session.disconnect
    (⟨session, guest.output⟩, result.map fun _ => .done)

def machine : Machine Guest Call Outcome := ⟨step⟩

inductive Change (guest : Guest) : Call → Guest → Outcome → Prop
  | refused (call : Call) (error : SessionError) : Change guest call guest (.error error)
  | kept : Change guest .disconnect guest (.ok .done)
  | attached (output : List UInt8) (fresh : guest.session.state = .detached) : Change guest .attach
        ⟨{ guest.session with state := .attaching }, output⟩ (.ok .done)
  | waited (input : List UInt8) (count : Nat) (parser : RecordParser)
      (receives : guest.session.state.receives = true)
      (pushed : guest.session.parser.push input = (parser, .ok (count, none))) :
      Change guest (.receive input) ⟨{ guest.session with parser }, guest.output⟩
        (.ok (.received count none))
  | reset (input : List UInt8) (count : Nat) (parser : RecordParser)
      (record : Record) (identity : Identity) (next : UInt64)
      (receives : guest.session.state.receives = true)
      (pushed : guest.session.parser.push input = (parser, .ok (count, some record)))
      (type : record.recordType = .reset)
      (carried : record.identity = identity)
      (advances : ∀ current, guest.session.identity = some current →
        current.instanceId ≠ identity.instanceId ∨ current.epoch < identity.epoch)
      (following : next.toNat = record.sequence.toNat + 1) :
      Change guest (.receive input)
        ⟨{ guest.session with
          parser
          identity := some identity
          receiveSequence := next
          sendSequence := 0
          window := 0
          outstanding := 0
          state := .resetting }, guest.output⟩
        (.ok (.received count (some (.reset identity))))
  | data (input : List UInt8) (count : Nat) (parser : RecordParser)
      (record : Record) (next : UInt64) (outstanding : UInt32)
      (active : guest.session.state = .active)
      (pushed : guest.session.parser.push input = (parser, .ok (count, some record)))
      (type : record.recordType = .data)
      (expected : record.sequence = guest.session.receiveSequence)
      (carried : guest.session.identity = some record.identity)
      (following : next.toNat = record.sequence.toNat + 1)
      (counted : outstanding.toNat = guest.session.outstanding.toNat + record.payload.length)
      (fits : outstanding ≤ guest.session.window) :
      Change guest (.receive input)
        ⟨{ guest.session with parser, receiveSequence := next, outstanding }, guest.output⟩
        (.ok (.received count (some (.data record.payload))))
  | failed (input : List UInt8) (parser : RecordParser) (error : SessionError)
      (receives : guest.session.state.receives = true) :
      Change guest (.receive input) ⟨{ guest.session with parser, state := .failed }, guest.output⟩
        (.error error)
  | acknowledged (window : UInt32) (identity : Identity)
      (resetting : guest.session.state = .resetting)
      (carried : guest.session.identity = some identity)
      (valid : checkRecord ⟨.ack, identity.instanceId, identity.epoch, 0,
        LittleEndian.ofUInt32 window⟩ = .ok ()) :
      Change guest (.acknowledge window)
        ⟨{ guest.session with
          sendSequence := 1
          window := window
          outstanding := 0
          state := .active },
          guest.output ++ Record.bytes ⟨.ack, identity.instanceId,
            identity.epoch, 0, LittleEndian.ofUInt32 window⟩⟩ (.ok .done)
  | sent (data : List UInt8) (taken : Nat) (identity : Identity) (next : UInt64)
      (active : guest.session.state = .active)
      (carried : guest.session.identity = some identity)
      (following : next.toNat = guest.session.sendSequence.toNat + 1)
      (valid : checkRecord ⟨.data, identity.instanceId, identity.epoch,
        guest.session.sendSequence, data.take taken⟩ = .ok ()) :
      Change guest (.send data) ⟨{ guest.session with sendSequence := next },
          guest.output ++ Record.bytes ⟨.data, identity.instanceId,
            identity.epoch, guest.session.sendSequence, data.take taken⟩⟩
        (.ok (.sent taken))
  | credited (bytes : UInt32) (identity : Identity) (next : UInt64)
      (active : guest.session.state = .active)
      (carried : guest.session.identity = some identity)
      (covered : bytes ≤ guest.session.outstanding)
      (following : next.toNat = guest.session.sendSequence.toNat + 1)
      (valid : checkRecord ⟨.credit, identity.instanceId, identity.epoch,
        guest.session.sendSequence, LittleEndian.ofUInt32 bytes⟩ = .ok ()) :
      Change guest (.credit bytes)
        ⟨{ guest.session with
          sendSequence := next
          outstanding := guest.session.outstanding - bytes },
          guest.output ++ Record.bytes ⟨.credit, identity.instanceId,
            identity.epoch, guest.session.sendSequence,
            LittleEndian.ofUInt32 bytes⟩⟩ (.ok .done)
  | truncated (error : SessionError) (live : guest.session.state.ended = false) :
      Change guest .disconnect
        ⟨{ guest.session with state := .failed }, guest.output⟩ (.error error)
  | closed (live : guest.session.state.ended = false) : Change guest .disconnect
        ⟨{ guest.session with state := .closed }, guest.output⟩ (.ok .done)

variable (guest : Guest)

theorem attach_change : guest.Change .attach (guest.step .attach).1 (guest.step .attach).2 := by
  simp only [step, GuestSession.attach]
  split
  · exact .refused _ _
  · rename_i fresh
    have result := encoded ⟨.guestAttach, Bytes.zero 16, 0, 0, []⟩ guest.output
    generalize encodeRecord _ guest.output = written at result ⊢
    cases result with
    | refused error => exact .refused _ _
    | encoded valid => exact .attached _ (not_not.mp fresh)

theorem acknowledge_change (window : UInt32) :
    guest.Change (.acknowledge window) (guest.step (.acknowledge window)).1
      (guest.step (.acknowledge window)).2 := by
  simp only [step, GuestSession.acknowledge]
  split
  · rename_i identity resetting carried
    have result := encoded ⟨.ack, identity.instanceId, identity.epoch, 0,
      LittleEndian.ofUInt32 window⟩ guest.output
    generalize encodeRecord _ guest.output = written at result ⊢
    cases result with
    | refused error => exact .refused _ _
    | encoded valid => exact .acknowledged window identity resetting carried valid
  · exact .refused _ _

theorem send_change (data : List UInt8) : guest.Change (.send data) (guest.step (.send data)).1
      (guest.step (.send data)).2 := by
  simp only [step, GuestSession.send]
  split
  · rename_i identity active carried
    have result := encodedData identity guest.session.sendSequence data guest.output
    generalize encodeData _ _ data guest.output = written at result ⊢
    cases result with
    | refused error => exact .refused _ _
    | encoded next taken following valid =>
      exact .sent data taken identity next active carried following valid
  · exact .refused _ _

theorem credit_change (bytes : UInt32) : guest.Change (.credit bytes) (guest.step (.credit bytes)).1
      (guest.step (.credit bytes)).2 := by
  simp only [step, GuestSession.credit]
  split
  · rename_i identity active carried
    split
    · exact .refused _ _
    · rename_i allowed
      have result := encodedNext .credit identity guest.session.sendSequence
        (LittleEndian.ofUInt32 bytes) guest.output
      generalize encodeNext _ _ _ _ guest.output = written at result ⊢
      cases result with
      | refused error => exact .refused _ _
      | encoded next following valid =>
        refine .credited bytes identity next active carried ?_ following valid
        exact UInt32.not_lt.mp fun less => allowed (.inr less)
  · exact .refused _ _

theorem disconnect_change : guest.Change .disconnect (guest.step .disconnect).1
      (guest.step .disconnect).2 := by
  simp only [step, GuestSession.disconnect]
  split
  · exact .kept
  · rename_i live
    rw [Bool.not_eq_true] at live
    split
    · exact .truncated _ live
    · exact .closed live

end Guest

namespace GuestSession

theorem checkAdvance_eq_ok {identity : Identity}
    (advances : checkAdvance current identity = .ok ()) (former : Identity)
    (held : current = some former) :
    former.instanceId ≠ identity.instanceId ∨ former.epoch < identity.epoch := by
  subst current
  simp only [checkAdvance] at advances
  split at advances
  · cases advances
  · rename_i stale
    by_cases same : former.instanceId = identity.instanceId
    · exact .inr (UInt64.not_le.mp fun less => stale ⟨same, less⟩)
    · exact .inl same

theorem reset_eq_ok (accepted : reset session record = .ok (next, event)) :
    ∃ identity following, record.identity = identity ∧ (∀ current, session.identity = some current →
        current.instanceId ≠ identity.instanceId ∨ current.epoch < identity.epoch) ∧
      following.toNat = record.sequence.toNat + 1 ∧
      next = { session with
        identity := some identity
        receiveSequence := following
        sendSequence := 0
        window := 0
        outstanding := 0
        state := .resetting } ∧
      event = .reset identity := by
  unfold reset at accepted
  cases carried : recordIdentity record with
  | none => simp [carried] at accepted
  | some identity =>
    simp only [carried, bind, Except.bind] at accepted
    split at accepted
    · cases accepted
    · rename_i advances
      split at accepted
      · cases accepted
      · rename_i following numbered
        obtain ⟨rfl, rfl⟩ := Prod.mk.inj (Except.ok.inj accepted)
        exact ⟨identity, following, recordIdentity_eq_some carried,
          checkAdvance_eq_ok advances, nextSequence_eq_ok numbered, rfl, rfl⟩

theorem toNat_saturatingSub (left right : UInt32) :
    (saturatingSub left right).toNat = left.toNat - right.toNat := by
  unfold saturatingSub
  split
  · rename_i fits
    exact UInt32.toNat_sub_of_le _ _ fits
  · rename_i less
    rw [UInt32.le_iff_toNat_le] at less
    rw [UInt32.toNat_zero]
    omega

theorem data_eq_ok (positive : 1 ≤ record.payload.length)
    (small : record.payload.length ≤ outerMaxPayload)
    (accepted : data session record = .ok (next, event)) :
    ∃ following outstanding, record.sequence = session.receiveSequence ∧
      session.identity = some record.identity ∧
      following.toNat = record.sequence.toNat + 1 ∧
      outstanding.toNat = session.outstanding.toNat + record.payload.length ∧
      outstanding ≤ session.window ∧
      next = { session with receiveSequence := following, outstanding } ∧
      event = .data record.payload := by
  unfold data at accepted
  cases carried : session.identity with
  | none => simp [carried] at accepted
  | some identity =>
    simp only [carried, bind, Except.bind] at accepted
    split at accepted
    · cases accepted
    rename_i expected
    rw [checkSequence_eq_ok_iff] at expected
    split at accepted
    · cases accepted
    rename_i same
    rw [checkIdentity_eq_ok_iff] at same
    split at accepted
    · cases accepted
    rename_i following numbered
    split at accepted
    · cases accepted
    rename_i fits
    obtain ⟨rfl, rfl⟩ := Prod.mk.inj (Except.ok.inj accepted)
    have length : (UInt32.ofNat record.payload.length).toNat =
        record.payload.length := by
      exact UInt32.toNat_ofNat_of_lt' (Nat.lt_of_le_of_lt small (by decide))
    rw [UInt32.lt_iff_toNat_lt, toNat_saturatingSub, length] at fits
    have bound := session.window.toNat_lt
    have counted : (session.outstanding + UInt32.ofNat record.payload.length).toNat =
          session.outstanding.toNat + record.payload.length := by
      rw [UInt32.toNat_add, length]
      exact Nat.mod_eq_of_lt (by omega)
    refine ⟨following, _, expected, by rw [same],
      expected ▸ nextSequence_eq_ok numbered, counted, ?_, rfl, rfl⟩
    rw [UInt32.le_iff_toNat_le, counted]
    omega

theorem accept_eq_ok (accepted : accept session record = .ok (next, event)) :
    record.recordType = .reset ∧ session.reset record = .ok (next, event) ∨
      session.state = .active ∧ record.recordType = .data ∧
        session.data record = .ok (next, event) := by
  unfold accept at accepted
  split at accepted
  · exact .inl ⟨by assumption, accepted⟩
  · exact .inl ⟨by assumption, accepted⟩
  · exact .inl ⟨by assumption, accepted⟩
  · exact .inr ⟨by assumption, by assumption, accepted⟩
  · cases accepted

end GuestSession

namespace Guest

theorem receive_change (guest : Guest) (input : List UInt8) :
    guest.Change (.receive input) (guest.step (.receive input)).1
      (guest.step (.receive input)).2 := by
  simp only [step, GuestSession.receive]
  split
  · exact .refused _ _
  rename_i receives
  rw [Bool.not_eq_false] at receives
  split
  · exact .failed input _ _ receives
  · rename_i parser count pushed
    exact .waited input count parser receives pushed
  · rename_i parser count record pushed
    split
    · exact .failed input parser _ receives
    · rename_i next event accepted
      rcases GuestSession.accept_eq_ok accepted with
        ⟨type, accepted⟩ | ⟨active, type, accepted⟩
      · obtain ⟨identity, following, carried, advances, numbered, rfl, rfl⟩ :=
          GuestSession.reset_eq_ok accepted
        exact .reset input count parser record identity following receives
          pushed type carried advances numbered
      · obtain ⟨positive, small⟩ :=
          length_data (RecordParser.checkRecord_of_push pushed) type
        obtain ⟨following, outstanding, expected, carried, numbered, counted,
          fits, rfl, rfl⟩ := GuestSession.data_eq_ok positive small accepted
        exact .data input count parser record following outstanding active
          pushed type expected carried numbered counted fits

theorem change (guest : Guest) (call : Call) :
    guest.Change call (guest.step call).1 (guest.step call).2 := by
  cases call with
  | attach => exact guest.attach_change
  | receive input => exact guest.receive_change input
  | acknowledge window => exact guest.acknowledge_change window
  | send data => exact guest.send_change data
  | credit bytes => exact guest.credit_change bytes
  | disconnect => exact guest.disconnect_change

end Guest

end Nvx.Protocol.Nvxs
