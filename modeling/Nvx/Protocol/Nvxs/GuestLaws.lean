import Nvx.Data.History
import Nvx.Protocol.Nvxs.Guest

namespace Nvx.Protocol.Nvxs.Guest

open Nvx.Data

/-! What a run of the guest's session tells. -/

abbrev Entry := Call × Outcome

def Entry.event : Entry → Option GuestEvent
  | (_, .ok (.received _ event)) => event
  | _ => none

def Entry.consumed : Entry → List UInt8
  | (.receive input, .ok (.received count _)) => input.take count
  | _ => []

def Entry.acknowledged : Entry → Option UInt32
  | (.acknowledge window, .ok _) => some window
  | _ => none

def Entry.received (entry : Entry) : Nat :=
  match entry.event with
  | some (.data payload) => payload.length
  | _ => 0

def Entry.credited : Entry → Nat
  | (.credit bytes, .ok _) => bytes.toNat
  | _ => 0

def resetIdentity : GuestEvent → Option Identity
  | .reset identity => some identity
  | .data _ => none

def Entry.opens (entry : Entry) : Bool :=
  entry.acknowledged.isSome || (entry.event.bind resetIdentity).isSome

def events (trace : List Entry) : List GuestEvent :=
  trace.filterMap Entry.event

def consumed (trace : List Entry) : List UInt8 :=
  trace.flatMap Entry.consumed

def latestReset (events : List GuestEvent) : Option Identity :=
  (events.filterMap resetIdentity).getLast?

def advertised (trace : List Entry) : UInt32 :=
  (trace.filterMap Entry.acknowledged).getLast?.getD 0

def receivedBytes (trace : List Entry) : Nat :=
  (trace.map Entry.received).sum

def creditedBytes (trace : List Entry) : Nat :=
  (trace.map Entry.credited).sum

theorem events_concat (trace : List Entry) (entry : Entry) :
    events (trace ++ [entry]) = events trace ++ entry.event.toList := by
  cases event : entry.event <;> simp [events, event]

theorem consumed_concat (trace : List Entry) (entry : Entry) :
    consumed (trace ++ [entry]) = consumed trace ++ entry.consumed := by
  simp [consumed]

structure Windowed (trace : List Entry) (session : GuestSession) : Prop where
  counted : session.outstanding.toNat + creditedBytes (since Entry.opens trace) =
    receivedBytes (since Entry.opens trace)
  bounded : session.outstanding ≤ session.window
  window : session.window = 0 ∨ session.window = advertised trace

namespace Windowed

variable {session next : GuestSession}

/-- Within an open window, data adds to what is outstanding and credit takes
from it. -/
theorem move (windowed : Windowed trace session)
    (unopened : entry.opens = false) (sameWindow : next.window = session.window)
    (moved : next.outstanding.toNat + entry.credited = session.outstanding.toNat + entry.received)
    (bounded : next.outstanding ≤ next.window) :
    Windowed (trace ++ [entry]) next := by
  have before := windowed.counted
  have silent : entry.acknowledged = none := by
    simp only [Entry.opens, Bool.or_eq_false_iff, Option.isSome_eq_false_iff,
      Option.isNone_iff_eq_none] at unopened
    exact unopened.1
  refine ⟨?_, bounded, ?_⟩
  · simp only [since_concat, unopened, creditedBytes, receivedBytes,
      List.map_append, List.sum_append, List.map_cons, List.map_nil,
      List.sum_singleton, Bool.false_eq_true, if_false] at before ⊢
    omega
  · simpa [advertised, silent, sameWindow] using windowed.window

theorem keep (windowed : Windowed trace session)
    (unopened : entry.opens = false) (nothing : entry.received = 0)
    (uncredited : entry.credited = 0) (sameOutstanding : next.outstanding = session.outstanding)
    (sameWindow : next.window = session.window) :
    Windowed (trace ++ [entry]) next := by
  apply windowed.move unopened sameWindow
  · rw [sameOutstanding, nothing, uncredited]
  · rw [sameOutstanding, sameWindow]
    exact windowed.bounded

theorem opened (opened : entry.opens = true) (nothing : next.outstanding = 0)
    (window : next.window = 0 ∨ entry.acknowledged = some next.window) :
    Windowed (trace ++ [entry]) next := by
  refine ⟨?_, ?_, ?_⟩
  · simp [since_concat, opened, creditedBytes, receivedBytes, nothing]
  · rw [nothing, UInt32.le_iff_toNat_le]
    exact Nat.zero_le _
  · refine window.imp_right fun advertises => ?_
    simp [advertised, advertises]

theorem change {guest next : Guest} (windowed : Windowed trace guest.session)
    (change : guest.Change call next outcome) :
    Windowed (trace ++ [(call, outcome)]) next.session := by
  cases change with
  | refused _ error =>
    exact windowed.keep (by cases call <;> rfl) rfl (by cases call <;> rfl)
      rfl rfl
  | kept | attached | waited | failed | sent | truncated | closed =>
    exact windowed.keep rfl rfl rfl rfl rfl
  | reset => exact opened rfl rfl (.inl rfl)
  | acknowledged => exact opened rfl rfl (.inr rfl)
  | data input count parser record following outstanding active pushed type
    expected carried numbered counted fits =>
    exact windowed.move rfl rfl counted fits
  | credited bytes identity following active carried covered numbered valid =>
    have left := UInt32.toNat_sub_of_le _ _ covered
    have bounded := windowed.bounded
    rw [UInt32.le_iff_toNat_le] at covered bounded
    refine windowed.move rfl rfl ?_ ?_
    · rw [left]
      exact Nat.sub_add_cancel covered
    · rw [UInt32.le_iff_toNat_le, left]
      exact Nat.le_trans (Nat.sub_le _ _) bounded

end Windowed

/-- What holds of a record that led to an event, after those before it. -/
def Follows (earlier : List (Record × GuestEvent)) (accepted : Record × GuestEvent) : Prop :=
  match accepted.2 with
  | .reset identity =>
    accepted.1.recordType = .reset ∧ accepted.1.identity = identity ∧
      ∀ former, latestReset (earlier.map Prod.snd) = some former →
        former.instanceId ≠ identity.instanceId ∨ former.epoch < identity.epoch
  | .data payload =>
    accepted.1.recordType = .data ∧ accepted.1.payload = payload ∧
      latestReset (earlier.map Prod.snd) = some accepted.1.identity ∧
      ∃ previous, earlier.getLast? = some previous ∧
        accepted.1.sequence.toNat = previous.1.sequence.toNat + 1

/-- The stream that the guest consumed is the records that it accepted, and the
part of a record that its parser holds. -/
structure Streamed (trace : List Entry) (session : GuestSession)
    (accepted : List (Record × GuestEvent)) (parser : RecordParser) : Prop where
  scanned : RecordParser.reader.scan .new (consumed trace) = ⟨accepted.map Prod.fst, parser, none⟩
  ready : RecordParser.reader.Ready parser
  current : session.state.ended = false → session.parser = parser
  reported : events trace = accepted.map Prod.snd
  lawful : Throughout Follows accepted
  identity : session.identity = latestReset (events trace)
  sequence : ∀ last, accepted.getLast? = some last →
    session.receiveSequence.toNat = last.1.sequence.toNat + 1

namespace Streamed

variable {session next : GuestSession}

theorem new : Streamed [] .new [] .new where
  scanned := rfl
  ready := RecordParser.ready_new
  current := fun _ => rfl
  reported := rfl
  lawful := throughout_nil _
  identity := rfl
  sequence := by simp

theorem keep (streamed : Streamed trace session accepted parser)
    (nothing : entry.consumed = []) (silent : entry.event = none)
    (sameIdentity : next.identity = session.identity)
    (sameSequence : next.receiveSequence = session.receiveSequence)
    (current : next.state.ended = false →
      session.state.ended = false ∧ next.parser = session.parser) :
    Streamed (trace ++ [entry]) next accepted parser where
  scanned := by simpa [consumed_concat, nothing] using streamed.scanned
  ready := streamed.ready
  current := fun live =>
    (current live).2.trans (streamed.current (current live).1)
  reported := by simpa [events_concat, silent] using streamed.reported
  lawful := streamed.lawful
  identity := by
    simpa [events_concat, silent, sameIdentity] using streamed.identity
  sequence := by rw [sameSequence]; exact streamed.sequence

theorem scan_receive (streamed : Streamed trace session accepted parser)
    (receives : session.state.receives = true)
    (pushed : session.parser.push input = (following, .ok (count, record)))
    (event : Option GuestEvent) :
    RecordParser.reader.scan .new (consumed
        (trace ++ [(.receive input, .ok (.received count event))])) =
      ⟨accepted.map Prod.fst ++ record.toList, following, none⟩ ∧
        RecordParser.reader.Ready following := by
  have live : session.state.ended = false := by
    cases state : session.state <;> simp_all [GuestState.receives, GuestState.ended]
  rw [streamed.current live] at pushed
  have more := RecordParser.reader.scan_push streamed.scanned streamed.ready pushed
  rwa [consumed_concat]

theorem identity_ne_none (streamed : Streamed trace session accepted parser)
    {identity : Identity} (carried : session.identity = some identity) :
    ∃ previous, accepted.getLast? = some previous := by
  cases last : accepted.getLast? with
  | some previous => exact ⟨previous, rfl⟩
  | none =>
    rw [List.getLast?_eq_none_iff] at last
    have none := streamed.identity
    rw [streamed.reported, last, carried] at none
    simp [latestReset] at none

theorem change {guest next : Guest} (streamed : Streamed trace guest.session accepted parser)
    (change : guest.Change call next outcome) :
    ∃ accepted parser, Streamed (trace ++ [(call, outcome)]) next.session accepted parser := by
  cases change with
  | refused _ error =>
    exact ⟨accepted, parser, streamed.keep (by cases call <;> rfl) rfl rfl rfl
      fun live => ⟨live, rfl⟩⟩
  | kept | sent | credited =>
    exact ⟨accepted, parser, streamed.keep rfl rfl rfl rfl fun live => ⟨live, rfl⟩⟩
  | attached output fresh =>
    exact ⟨accepted, parser, streamed.keep rfl rfl rfl rfl fun _ => ⟨by rw [fresh]; rfl, rfl⟩⟩
  | failed | truncated | closed =>
    exact ⟨accepted, parser, streamed.keep rfl rfl rfl rfl
      fun live => by simp [GuestState.ended] at live⟩
  | acknowledged window identity resetting =>
    exact ⟨accepted, parser, streamed.keep rfl rfl rfl rfl fun _ => ⟨by rw [resetting]; rfl, rfl⟩⟩
  | waited input count following receives pushed =>
    obtain ⟨scanned, ready⟩ := streamed.scan_receive receives pushed none
    refine ⟨accepted, following, ?_, ready, fun _ => rfl, ?_,
      streamed.lawful, ?_, streamed.sequence⟩
    · simpa using scanned
    · simpa [events_concat, Entry.event] using streamed.reported
    · simpa [events_concat, Entry.event] using streamed.identity
  | reset input count following record identity number receives pushed type
    carried advances numbered =>
    obtain ⟨scanned, ready⟩ := streamed.scan_receive receives pushed (some (.reset identity))
    refine ⟨accepted ++ [(record, .reset identity)], following, ?_, ready,
      fun _ => rfl, ?_, ?_, ?_, ?_⟩
    · simpa using scanned
    · simpa [events_concat, Entry.event] using streamed.reported
    · apply streamed.lawful.concat
      refine ⟨type, carried, fun former latest => ?_⟩
      rw [← streamed.reported, ← streamed.identity] at latest
      exact advances former latest
    · simp [events_concat, Entry.event, latestReset, resetIdentity]
    · intro last
      simp only [List.getLast?_append, List.getLast?_singleton, Option.some_or, Option.some.injEq]
      rintro rfl
      exact numbered
  | data input count following record number outstanding active pushed type
    expected carried numbered counted fits =>
    obtain ⟨scanned, ready⟩ := streamed.scan_receive
      (by rw [active]; rfl) pushed (some (.data record.payload))
    refine ⟨accepted ++ [(record, .data record.payload)], following, ?_,
      ready, fun _ => rfl, ?_, ?_, ?_, ?_⟩
    · simpa using scanned
    · simpa [events_concat, Entry.event] using streamed.reported
    · apply streamed.lawful.concat
      obtain ⟨previous, last⟩ := streamed.identity_ne_none carried
      refine ⟨type, rfl, ?_, previous, last, ?_⟩
      · rw [← streamed.reported, ← streamed.identity, carried]
      · rw [expected, streamed.sequence previous last]
    · simpa [events_concat, Entry.event, latestReset, resetIdentity] using streamed.identity
    · intro last
      simp only [List.getLast?_append, List.getLast?_singleton, Option.some_or, Option.some.injEq]
      rintro rfl
      exact numbered

end Streamed

/-- An ACK at sequence 0, then DATA and CREDIT at the sequences after it, all
with the same identity. -/
structure Epoch (identity : Identity) (records : List Record) : Prop where
  starts : ∃ ack rest, records = ack :: rest ∧ ack.recordType = .ack ∧
    ∀ record ∈ rest, record.recordType = .data ∨ record.recordType = .credit
  numbered : NumberedFrom 0 records
  identified : ∀ record ∈ records, record.identity = identity

theorem Epoch.concat (epoch : Epoch identity records)
    (type : record.recordType = .data ∨ record.recordType = .credit)
    (next : record.sequence.toNat = records.length) (carried : record.identity = identity) :
    Epoch identity (records ++ [record]) := by
  obtain ⟨ack, rest, rfl, isAck, others⟩ := epoch.starts
  refine ⟨⟨ack, rest ++ [record], by simp, isAck, ?_⟩,
    numberedFrom_concat epoch.numbered (by omega), ?_⟩
  · intro other member
    rcases List.mem_append.mp member with earlier | last
    · exact others other earlier
    · rw [List.mem_singleton.mp last]
      exact type
  · intro other member
    rcases List.mem_append.mp member with earlier | last
    · exact epoch.identified other earlier
    · rw [List.mem_singleton.mp last]
      exact carried

/-- The guest appended `records` since the acknowledge of an epoch. -/
structure Appended (start : List UInt8) (identity : Identity)
    (records : List Record) (guest : Guest) : Prop where
  output : guest.output = start ++ records.flatMap Record.bytes
  valid : ∀ record ∈ records, checkRecord record = .ok ()
  epoch : Epoch identity records
  started : guest.session.state ≠ .detached
  current : guest.session.state = .active → guest.session.identity = some identity ∧
      guest.session.sendSequence.toNat = records.length

namespace Appended

theorem keep (appended : Appended start identity records guest) (same : next.output = guest.output)
    (started : next.session.state ≠ .detached)
    (current : next.session.state = .active → guest.session.state = .active ∧
        next.session.identity = guest.session.identity ∧
        next.session.sendSequence = guest.session.sendSequence) :
    Appended start identity records next where
  output := same.trans appended.output
  valid := appended.valid
  epoch := appended.epoch
  started := started
  current := fun active => by
    obtain ⟨wasActive, sameIdentity, sameSequence⟩ := current active
    rw [sameIdentity, sameSequence]
    exact appended.current wasActive

theorem append (appended : Appended start identity records guest)
    (active : guest.session.state = .active) (valid : checkRecord record = .ok ())
    (type : record.recordType = .data ∨ record.recordType = .credit)
    (carried : guest.session.identity = some record.identity)
    (sequence : record.sequence = guest.session.sendSequence)
    (output : next.output = guest.output ++ record.bytes)
    (sameState : next.session.state = guest.session.state)
    (sameIdentity : next.session.identity = guest.session.identity)
    (following : next.session.sendSequence.toNat = guest.session.sendSequence.toNat + 1) :
    Appended start identity (records ++ [record]) next := by
  obtain ⟨held, counted⟩ := appended.current active
  have same : record.identity = identity :=
    Option.some.inj (carried.symm.trans held)
  refine ⟨?_, ?_, appended.epoch.concat type (by rw [sequence, counted]) same,
    by rw [sameState]; exact appended.started, fun _ => ⟨?_, ?_⟩⟩
  · simp [output, appended.output]
  · intro other member
    rcases List.mem_append.mp member with earlier | last
    · exact appended.valid other earlier
    · rw [List.mem_singleton.mp last]
      exact valid
  · rw [sameIdentity, held]
  · rw [following, counted, List.length_append, List.length_singleton]

theorem change (appended : Appended start identity records guest)
    (change : guest.Change call next outcome) (silent : Entry.acknowledged (call, outcome) = none) :
    ∃ records, Appended start identity records next := by
  cases change with
  | refused | kept => exact ⟨records, appended⟩
  | attached output fresh => exact absurd fresh appended.started
  | waited | data =>
    exact ⟨records, appended.keep rfl appended.started fun active => ⟨active, rfl, rfl⟩⟩
  | reset | failed | truncated | closed => exact ⟨records, appended.keep rfl (by simp) (by simp)⟩
  | acknowledged => simp [Entry.acknowledged] at silent
  | sent data taken identity following active carried numbered valid =>
    exact ⟨_, appended.append active valid (.inl rfl) carried rfl rfl rfl rfl numbered⟩
  | credited bytes identity following active carried covered numbered valid =>
    exact ⟨_, appended.append active valid (.inr rfl) carried rfl rfl rfl rfl numbered⟩

end Appended

theorem appended_of_acknowledge {guest : Guest}
    (acknowledged : (guest.step (.acknowledge window)).2 = .ok reply) :
    ∃ identity records, guest.session.identity = some identity ∧
      Appended guest.output identity records (guest.step (.acknowledge window)).1 := by
  have change := guest.change (.acknowledge window)
  rw [acknowledged] at change
  generalize (guest.step (.acknowledge window)).1 = next at change ⊢
  generalize called : Call.acknowledge window = call at change
  cases change with
  | acknowledged window identity resetting carried valid =>
    refine ⟨identity, [⟨.ack, identity.instanceId, identity.epoch, 0,
      LittleEndian.ofUInt32 window⟩], carried, by simp, by simpa using valid,
      ⟨⟨_, [], rfl, rfl, by simp⟩, ?_, ?_⟩, by simp, fun _ => ⟨carried, rfl⟩⟩
    · intro index record found
      cases index with
      | zero =>
        obtain rfl := Option.some.inj found
        rfl
      | succ index => simp at found
    · intro record member
      rw [List.mem_singleton.mp member]
      rfl
  | _ => cases called

theorem appended_after (appended : Appended start identity records guest) (calls : List Call)
    (silent : ∀ entry ∈ machine.trace guest calls, Entry.acknowledged entry = none) :
    ∃ records, Appended start identity records (machine.after guest calls) := by
  induction calls using List.reverseRecOn with
  | nil => exact ⟨records, appended⟩
  | append_singleton calls call induction =>
    simp only [Machine.trace_concat, List.mem_append, List.mem_singleton] at silent
    obtain ⟨records, appended⟩ := induction fun entry member =>
      silent entry (.inl member)
    rw [Machine.after_concat]
    exact appended.change (change _ call) (silent _ (.inr rfl))

theorem windowed (calls : List Call) :
    Windowed (machine.trace .new calls) (machine.after .new calls).session := by
  apply machine.invariant fun trace guest => Windowed trace guest.session
  · exact ⟨rfl, Nat.le_refl _, .inl rfl⟩
  · intro calls call before
    exact before.change (change _ call)

theorem streamed (calls : List Call) : ∃ accepted parser, Streamed (machine.trace .new calls)
      (machine.after .new calls).session accepted parser := by
  apply machine.invariant fun trace guest =>
    ∃ accepted parser, Streamed trace guest.session accepted parser
  · exact ⟨[], .new, .new⟩
  · rintro calls call ⟨accepted, parser, before⟩
    exact before.change (change _ call)

theorem step_of_ended {guest : Guest} (ended : guest.session.state.ended = true) (call : Call) :
    (guest.step call).1 = guest ∧
      ((guest.step call).2 = .error .invalidState ∨ call = .disconnect) := by
  rcases guest with ⟨⟨state, parser, identity, receiveSequence, sendSequence,
    window, outstanding⟩, output⟩
  cases state <;> cases ended
  all_goals
    cases call <;> exact ⟨rfl, by first | exact .inl rfl | exact .inr rfl⟩

/-- A call that fails changes nothing, except that a `receive` or a `disconnect`
can end the session. -/
theorem step_of_error {guest : Guest} (failed : (guest.step call).2 = .error error) :
    (guest.step call).1 = guest ∨ (guest.step call).1.output = guest.output ∧
        ((∃ input, call = .receive input) ∨ call = .disconnect) := by
  have change := guest.change call
  rw [failed] at change
  generalize (guest.step call).1 = next at change ⊢
  cases change with
  | refused => exact .inl rfl
  | failed input => exact .inr ⟨rfl, .inl ⟨input, rfl⟩⟩
  | truncated => exact .inr ⟨rfl, .inr rfl⟩

/-- The window, sequence and epoch laws of the guest's session, over every run
of it: what is outstanding is the data since the window opened less the credit,
and fits the window that was advertised; an epoch's records are an ACK and the
DATA and CREDIT records after it, numbered without a gap, with the identity of
the RESET that was acknowledged; the records accepted from the broker follow
one another; a refused call changes nothing; and an ended session stays ended. -/
theorem guest_session_keeps_its_laws (calls : List Call) :
    let trace := machine.trace .new calls
    let guest := machine.after .new calls
    guest.session.outstanding.toNat + creditedBytes (since Entry.opens trace) =
      receivedBytes (since Entry.opens trace) ∧
    guest.session.outstanding ≤ advertised trace ∧
    (∀ before window after, calls = before ++ .acknowledge window :: after →
      let resetting := machine.after .new before
      let acknowledged := resetting.step (.acknowledge window)
      acknowledged.2 = .ok .done →
      (∀ entry ∈ machine.trace acknowledged.1 after, Entry.acknowledged entry = none) →
      ∃ identity appended records,
        latestReset (events (machine.trace .new before)) = some identity ∧
        guest.output = resetting.output ++ appended ∧
        parseStream [appended] = ⟨records, .new, none⟩ ∧
        Epoch identity records) ∧
    (∃ accepted, (parseStream [consumed trace]).items = accepted.map Prod.fst ∧
      (parseStream [consumed trace]).failure = none ∧
      events trace = accepted.map Prod.snd ∧ Throughout Follows accepted) ∧
    (∀ call error, (guest.step call).2 = .error error → (guest.step call).1.output = guest.output ∧
      ((∀ input, call ≠ .receive input) → call ≠ .disconnect → (guest.step call).1 = guest)) ∧
    (guest.session.state.ended = true → ∀ call, (guest.step call).1 = guest ∧
      (call ≠ .disconnect → (guest.step call).2 = .error .invalidState)) := by
  intro trace guest
  obtain ⟨accepted, parser, received⟩ := streamed calls
  have window := windowed calls
  refine ⟨window.counted, ?_, ?_, ⟨accepted, ?_⟩, ?_, ?_⟩
  · have bounded := window.bounded
    rcases window.window with none | same
    · rw [none] at bounded
      exact Nat.le_trans bounded (Nat.zero_le _)
    · rwa [same] at bounded
  · rintro before window after rfl resetting acknowledged done silent
    obtain ⟨identity, first, carried, appended⟩ := appended_of_acknowledge done
    obtain ⟨records, appended⟩ := appended_after appended after silent
    obtain ⟨_, _, earlier⟩ := streamed before
    refine ⟨identity, records.flatMap Record.bytes, records, ?_, ?_, ?_, appended.epoch⟩
    · rw [← earlier.identity, carried]
    · have last := appended.output
      rwa [show guest = machine.after acknowledged.1 after from
        machine.after_append .new before _]
    · exact parseStream_of_records appended.valid List.flatten_singleton
  · have agrees := parseStream_agrees [consumed trace]
    rw [List.flatten_singleton, received.scanned] at agrees
    generalize parseStream [consumed trace] = fed at agrees ⊢
    cases agrees with
    | done => exact ⟨rfl, rfl, received.reported, received.lawful⟩
  · intro call error failed
    rcases step_of_error failed with same | ⟨same, ends⟩
    · rw [same]
      exact ⟨rfl, fun _ _ => rfl⟩
    · refine ⟨same, fun notReceive notDisconnect => ?_⟩
      rcases ends with ⟨input, rfl⟩ | rfl
      · exact absurd rfl (notReceive input)
      · exact absurd rfl notDisconnect
  · intro ended call
    obtain ⟨same, refused⟩ := step_of_ended ended call
    exact ⟨same, fun different => refused.resolve_right different⟩

/-- A RESET that is not acknowledged yet has nothing outstanding, whatever data
came since the last acknowledge. -/
theorem reset_clears_outstanding : ∃ calls,
      let trace := machine.trace .new calls
      let sinceAcknowledge :=
        since (fun entry => (Entry.acknowledged entry).isSome) trace
      (machine.after .new calls).session.outstanding.toNat + creditedBytes sinceAcknowledge ≠
        receivedBytes sinceAcknowledge := by
  let instanceId : Bytes 16 := ⟨List.replicate 16 1, rfl⟩
  let reset (epoch sequence : UInt64) : Record :=
    ⟨.reset, instanceId, epoch, sequence, []⟩
  refine ⟨[.attach, .receive (reset 1 0).bytes, .acknowledge 65536,
    .receive (Record.bytes ⟨.data, instanceId, 1, 1, [7]⟩),
    .receive (reset 2 2).bytes], ?_⟩
  decide +kernel

end Nvx.Protocol.Nvxs.Guest
