import Mathlib.Data.List.TakeWhile
import Nvx.Protocol.Nvxs.Host

namespace Nvx.Protocol.Nvxs.Host

open Nvx.Data

/-! What the host is to deliver of the records in a stream. -/

/-- The records that are numbered from `expected` on, while the numbers stay
below `bound`. -/
def inSequence (bound expected : Nat) : List Record → List Record
  | [] => []
  | record :: records =>
    if record.sequence.toNat = expected ∧ expected < bound then
      record :: inSequence bound (expected + 1) records
    else []

def carries (identity : Identity) (record : Record) : Bool :=
  decide (record.recordType = .data ∧ record.identity = identity)

/-- The payloads of the DATA records that follow READY with its identity. -/
def afterReady (records : List Record) : List (List UInt8) :=
  match records.dropWhile (fun record => decide (record.recordType = .wait)) with
  | [] => []
  | ready :: rest =>
    match decide (ready.recordType = .ready), recordIdentity ready with
    | true, some identity =>
      (rest.takeWhile (carries identity)).map Record.payload
    | _, _ => []

/-- What the host delivers of a stream that has these records. -/
def delivered (bound : Nat) (records : List Record) : List (List UInt8) :=
  afterReady (inSequence bound 0 records)

/-- The numbers that a record of a session can take: the last one is left for no
record, because there is none after it. -/
def sequenceBound : Nat := 2 ^ 64 - 1

def payload : HostEvent → Option (List UInt8)
  | .data payload => some payload
  | _ => none

section Reading

open HostSession

variable {session next : HostSession} {record : Record} {event : HostEvent}

theorem inSequence_cons_pos (numbered : record.sequence.toNat = expected) (fits : expected < bound)
    (records : List Record) :
    inSequence bound expected (record :: records) =
      record :: inSequence bound (expected + 1) records := by
  rw [inSequence, if_pos ⟨numbered, fits⟩]

theorem inSequence_cons_neg (unfit : ¬ (record.sequence.toNat = expected ∧ expected < bound))
    (records : List Record) :
    inSequence bound expected (record :: records) = [] := by
  rw [inSequence, if_neg unfit]

theorem toNat_next (fits : session.receiveSequence.toNat + 1 < 2 ^ 64) :
    (session.receiveSequence + 1).toNat = session.receiveSequence.toNat + 1 := by
  rw [UInt64.toNat_add]
  exact Nat.mod_eq_of_lt fits

theorem inSequence_cases (session : HostSession) (record : Record) (records : List Record) :
    (allows session.state record.recordType = true ∧ session.receiveSequence.toNat + 1 < 2 ^ 64 ∧
      inSequence sequenceBound session.receiveSequence.toNat (record :: records) =
        record :: inSequence sequenceBound (session.receiveSequence + 1).toNat records ∧
      accept session record = (session.apply record).map fun (next, event) =>
        ({ next with receiveSequence := session.receiveSequence + 1 }, event)) ∨
    (∃ error, accept session record = .error error) ∧
      (allows session.state record.recordType = false ∨
        inSequence sequenceBound session.receiveSequence.toNat (record :: records) = []) := by
  rcases session.accept_eq record with
    ⟨allowed, expected, fits, same⟩ | ⟨unfit, error, _, refused⟩
  · refine .inl ⟨allowed, fits, ?_, same⟩
    rw [toNat_next fits, inSequence_cons_pos (by rw [expected])]
    unfold sequenceBound
    omega
  · refine .inr ⟨⟨error, refused⟩, ?_⟩
    cases allowed : allows session.state record.recordType with
    | false => exact .inl rfl
    | true =>
      refine .inr (inSequence_cons_neg (fun place => unfit ⟨allowed, ?_, ?_⟩) _)
      · exact UInt64.toNat_inj.mp place.1
      · have fits := place.2
        unfold sequenceBound at fits
        omega

theorem reading_attached {identity : Identity} (attached : session.state = .attached)
    (held : session.identity = some identity) (records : List Record) :
    (session.reading records).filterMap payload =
      ((inSequence sequenceBound session.receiveSequence.toNat
        records).takeWhile (carries identity)).map Record.payload := by
  induction records generalizing session with
  | nil => rfl
  | cons record records induction =>
    rcases inSequence_cases session record records with
      ⟨allowed, fits, inOrder, same⟩ | ⟨⟨error, refused⟩, unfit⟩
    · rw [inOrder]
      have result := session.applied record
      generalize session.apply record = outcome at result same
      cases result with
      | wait type | ready _ type | rejected _ type => simp [attached, type, allows] at allowed
      | data type carried =>
        have fitting : carries identity record = true := by
          simpa [carries, type, eq_comm] using carried.symm.trans held
        rw [reading_cons_ok same, List.takeWhile_cons_of_pos fitting]
        apply congrArg (record.payload :: ·)
        exact induction attached held
      | reset _ type =>
        have unfitting : ¬ carries identity record = true := by
          simp [carries, type]
        rw [reading_cons_ok same, List.takeWhile_cons_of_neg unfitting, reading_of_not_receives rfl]
        rfl
      | refused _ _ _ _ noData =>
        have unfitting : ¬ carries identity record = true := by
          intro fitting
          simp only [carries, decide_eq_true_eq] at fitting
          exact noData fitting.1 (by rw [held, fitting.2])
        rw [reading_cons_error same, List.takeWhile_cons_of_neg unfitting]
        rfl
    · rw [reading_cons_error refused]
      rcases unfit with disallowed | outOfOrder
      · rw [inSequence]
        split
        · rw [List.takeWhile_cons_of_neg]
          · rfl
          · intro fitting
            simp only [carries, decide_eq_true_eq] at fitting
            simp [attached, fitting.1, allows] at disallowed
        · rfl
      · rw [outOfOrder]
        rfl

theorem afterReady_wait (type : record.recordType = .wait) (records : List Record) :
    afterReady (record :: records) = afterReady records := by
  simp [afterReady, type]

theorem afterReady_ready {identity : Identity} (type : record.recordType = .ready)
    (carried : recordIdentity record = some identity) (records : List Record) :
    afterReady (record :: records) = (records.takeWhile (carries identity)).map Record.payload := by
  simp [afterReady, type, carried]

theorem afterReady_other (noWait : record.recordType ≠ .wait)
    (noReady : record.recordType = .ready → recordIdentity record = none)
    (records : List Record) : afterReady (record :: records) = [] := by
  by_cases type : record.recordType = .ready
  · simp [afterReady, type, noReady type]
  · simp [afterReady, noWait, type]

theorem reading_attaching (attaching : session.state = .attaching) (records : List Record) :
    (session.reading records).filterMap payload =
      afterReady (inSequence sequenceBound session.receiveSequence.toNat records) := by
  induction records generalizing session with
  | nil => rfl
  | cons record records induction =>
    rcases inSequence_cases session record records with
      ⟨allowed, fits, inOrder, same⟩ | ⟨⟨error, refused⟩, unfit⟩
    · rw [inOrder]
      have result := session.applied record
      generalize session.apply record = outcome at result same
      cases result with
      | data type | reset _ type => simp [attaching, type, allows] at allowed
      | wait type =>
        rw [reading_cons_ok same, afterReady_wait type, List.filterMap_cons_none rfl]
        exact induction attaching
      | ready identity type carried =>
        rw [reading_cons_ok same, afterReady_ready type carried, List.filterMap_cons_none rfl]
        exact reading_attached rfl rfl records
      | rejected _ type =>
        rw [reading_cons_ok same, afterReady_other (by simp [type]) (by simp [type]),
          reading_of_not_receives rfl]
        rfl
      | refused _ _ noWait noReady =>
        rw [reading_cons_error same, afterReady_other noWait noReady]
        rfl
    · rw [reading_cons_error refused]
      rcases unfit with disallowed | outOfOrder
      · rw [inSequence]
        split
        · rw [afterReady_other]
          · rfl
          · intro type
            simp [attaching, type, allows] at disallowed
          · intro type
            simp [attaching, type, allows] at disallowed
        · rfl
      · rw [outOfOrder]
        rfl

end Reading

abbrev Entry := Call × Outcome

def Entry.event : Entry → Option HostEvent
  | (_, .ok (.received _ event)) => event
  | _ => none

/-- The bytes that a `receive` took of the stream.  One that ends the session
took all of its input. -/
def Entry.stream : Entry → List UInt8
  | (.receive input, .ok (.received count _)) => input.take count
  | (.receive input, .error error) =>
    if error = .invalidState then [] else input
  | _ => []

/-- The record or the malformed bytes after which the session delivers nothing:
the `receive` failed, or it reported a RESET or a refusal. -/
def Entry.stops : Entry → Bool
  | (.receive _, .error error) => decide (error ≠ .invalidState)
  | (.receive _, .ok (.received _ (some (.reset _)))) => true
  | (.receive _, .ok (.received _ (some (.rejected _)))) => true
  | _ => false

theorem stops_received (input : List UInt8) (count : Nat) (event : HostEvent) :
    Entry.stops (.receive input, .ok (.received count (some event))) = event.final := by
  cases event <;> rfl

def Entry.attachment : Entry → List UInt8
  | (.attach capability, .ok _) =>
    Record.bytes ⟨.hostAttach, Bytes.zero 16, 0, 0, capability.val⟩
  | _ => []

def Entry.sent : Entry → Option (List UInt8)
  | (.send data, .ok (.sent taken)) => some (data.take taken)
  | _ => none

def events (trace : List Entry) : List HostEvent :=
  trace.filterMap Entry.event

def stream (trace : List Entry) : List UInt8 :=
  trace.flatMap Entry.stream

def attachments (trace : List Entry) : List UInt8 :=
  trace.flatMap Entry.attachment

def sends (trace : List Entry) : List (List UInt8) :=
  trace.filterMap Entry.sent

theorem events_concat (trace : List Entry) (entry : Entry) :
    events (trace ++ [entry]) = events trace ++ entry.event.toList := by
  cases event : entry.event <;> simp [events, event]

theorem stream_concat (trace : List Entry) (entry : Entry) :
    stream (trace ++ [entry]) = stream trace ++ entry.stream := by
  simp [stream]

theorem sends_concat (trace : List Entry) (entry : Entry) :
    sends (trace ++ [entry]) = sends trace ++ entry.sent.toList := by
  cases sent : entry.sent <;> simp [sends, sent]

theorem attachments_concat (trace : List Entry) (entry : Entry) : attachments (trace ++ [entry]) =
      attachments trace ++ entry.attachment := by
  simp [attachments]

theorem ended_of_receives (receives : HostState.receives state = true) : state.ended = false := by
  cases state <;> first | rfl | cases receives

theorem ne_detached_of_receives
    (receives : HostState.receives state = true) : state ≠ .detached := by
  rintro rfl
  cases receives

def start : HostSession := { HostSession.new with state := .attaching }

/-- The events so far are those of the records so far, and go on with what the
session makes of the records to come. -/
structure Reports (trace : List Entry) (session : HostSession) : Prop where
  here : start.reading (RecordParser.reader.scan .new (stream trace)).items = events trace
  fresh : session.state = .detached → session = .new ∧ stream trace = [] ∧ events trace = []
  live : session.state.receives = true → ∃ records, RecordParser.reader.scan .new (stream trace) =
      ⟨records, session.parser, none⟩ ∧
    RecordParser.reader.Ready session.parser ∧
    ∀ more, start.reading (records ++ more) = events trace ++ session.reading more
  stopped : (∃ entry ∈ trace, Entry.stops entry = true) → session.state.ended = true ∧
    ∀ rest, start.reading (RecordParser.reader.scan .new (stream trace ++ rest)).items =
        events trace

namespace Reports

variable {entry : Entry} {session next : HostSession}

theorem new : Reports [] .new where
  here := rfl
  fresh := fun _ => ⟨rfl, rfl, rfl⟩
  live := fun receives => by cases receives
  stopped := by simp

theorem exists_stop_of_concat (goes : entry.stops = false)
    (stopped : ∃ other ∈ trace ++ [entry], Entry.stops other = true) :
    ∃ other ∈ trace, Entry.stops other = true := by
  obtain ⟨stop, member, stops⟩ := stopped
  rcases List.mem_append.mp member with earlier | last
  · exact ⟨stop, earlier, stops⟩
  · rw [List.mem_singleton.mp last, goes] at stops
    cases stops

theorem keep (reports : Reports trace session)
    (nothing : entry.stream = []) (silent : entry.event = none) (goes : entry.stops = false)
    (fresh : next.state = .detached → next = session)
    (live : next.state.receives = true → session.state.receives = true ∧
      next.parser = session.parser ∧ next.reading = session.reading)
    (ended : session.state.ended = true → next.state.ended = true) :
    Reports (trace ++ [entry]) next where
  here := by simpa [stream_concat, events_concat, nothing, silent] using
    reports.here
  fresh := fun detached => by
    obtain rfl := fresh detached
    simpa [stream_concat, events_concat, nothing, silent] using reports.fresh detached
  live := fun receives => by
    obtain ⟨still, sameParser, sameReading⟩ := live receives
    simpa [stream_concat, events_concat, nothing, silent, sameParser,
      sameReading] using reports.live still
  stopped := fun stopped => by
    obtain ⟨isOver, same⟩ := reports.stopped (exists_stop_of_concat goes stopped)
    simpa [stream_concat, events_concat, nothing, silent] using ⟨ended isOver, same⟩

theorem stop (ended : next.state.ended = true)
    (same : ∀ rest, start.reading (RecordParser.reader.scan .new
      (stream (trace ++ [entry]) ++ rest)).items = events (trace ++ [entry])) :
    Reports (trace ++ [entry]) next where
  here := by simpa using same []
  fresh := fun detached => by simp [detached, HostState.ended] at ended
  live := fun receives => by
    rw [ended_of_receives receives] at ended
    cases ended
  stopped := fun _ => ⟨ended, same⟩

theorem goOn (reports : Reports trace session)
    (live : session.state.ended = false) (goes : entry.stops = false)
    (started : next.state ≠ .detached) (records : List Record)
    (scanned : RecordParser.reader.scan .new (stream (trace ++ [entry])) =
      ⟨records, next.parser, none⟩)
    (ready : RecordParser.reader.Ready next.parser)
    (reading : ∀ more, start.reading (records ++ more) =
      events (trace ++ [entry]) ++ next.reading more) :
    Reports (trace ++ [entry]) next where
  here := by
    have all := reading []
    rw [List.append_nil, HostSession.reading, List.append_nil] at all
    rw [scanned, all]
  fresh := fun detached => absurd detached started
  live := fun _ => ⟨records, scanned, ready, reading⟩
  stopped := fun stopped => by
    rw [(reports.stopped (exists_stop_of_concat goes stopped)).1] at live
    cases live

theorem change {host next : Host} (reports : Reports trace host.session)
    (change : host.Change call next outcome) :
    Reports (trace ++ [(call, outcome)]) next.session := by
  cases change with
  | refused _ error quiet =>
    refine reports.keep ?_ rfl ?_ (fun _ => rfl) (fun receives => ⟨receives, rfl, rfl⟩) id
    · cases call <;> simp_all [Entry.stream]
    · cases call <;> simp_all [Entry.stops]
  | kept =>
    exact reports.keep rfl rfl rfl (fun _ => rfl) (fun receives => ⟨receives, rfl, rfl⟩) id
  | truncated | closed =>
    exact reports.keep rfl rfl rfl (by simp) (fun receives => by cases receives)
      fun _ => rfl
  | sent data taken identity following attached =>
    refine reports.keep rfl rfl rfl (by simp [attached])
      (fun receives => ⟨receives, rfl, ?_⟩) id
    funext records
    exact host.session.reading_frame host.session.parser _ records
  | attached capability fresh =>
    obtain ⟨same, nothing, silent⟩ := reports.fresh fresh
    refine reports.goOn (by rw [fresh]; rfl) rfl (by simp) [] ?_ ?_
      fun more => ?_
    · rw [stream_concat, nothing, same]
      rfl
    · rw [same]
      exact RecordParser.ready_new
    · rw [events_concat, silent, same]
      rfl
  | waited input count parser receives pushed =>
    obtain ⟨records, scanned, ready, reading⟩ := reports.live receives
    obtain ⟨more, still⟩ :=
      RecordParser.reader.scan_push scanned ready pushed
    rw [Option.toList_none, List.append_nil] at more
    refine reports.goOn (ended_of_receives receives) rfl ?_ records ?_ still ?_
    · exact ne_detached_of_receives receives
    · rw [stream_concat]
      exact more
    · intro more
      rw [reading, events_concat]
      apply congrArg₂ _ (List.append_nil _).symm
      exact (host.session.reading_frame parser _ more).symm
  | accepted input count parser record session event receives pushed accepted =>
    obtain ⟨records, scanned, ready, reading⟩ := reports.live receives
    obtain ⟨_, sameParser, started, _⟩ := HostSession.accept_ok accepted
    obtain ⟨taken, still⟩ :=
      RecordParser.reader.scan_push scanned ready pushed
    rw [Option.toList_some] at taken
    have reads : ∀ more, start.reading (records ++ [record] ++ more) =
        events (trace ++ [(.receive input, .ok (.received count (some event)))])
          ++ session.reading more := by
      intro more
      rw [List.append_assoc, reading, events_concat, List.append_assoc,
        ← host.session.reading_frame parser host.session.sendSequence]
      exact congrArg _ (HostSession.reading_cons_ok accepted more)
    obtain ⟨ended, deaf⟩ := HostSession.state_of_accept accepted
    cases final : event.final with
    | false =>
      exact reports.goOn (ended_of_receives receives)
        ((stops_received input count event).trans final) started _
        (by rw [stream_concat, sameParser]; exact taken) (by rw [sameParser]; exact still) reads
    | true =>
      rw [final] at ended deaf
      refine stop ended fun rest => ?_
      rw [stream_concat]
      have items := RecordParser.reader.items_scan_append taken rest
      rw [show Entry.stream _ = input.take count from rfl, items, reads,
        HostSession.reading_of_not_receives deaf, List.append_nil]
  | malformed input parser error receives pushed =>
    obtain ⟨records, scanned, ready, reading⟩ := reports.live receives
    refine stop rfl fun rest => ?_
    have items := RecordParser.reader.items_scan_failed scanned ready pushed rest
    have all := reading []
    rw [List.append_nil, HostSession.reading, List.append_nil] at all
    rw [stream_concat, List.append_assoc, events_concat]
    rw [show Entry.stream _ = input from rfl, items, all]
    exact (List.append_nil _).symm
  | unfit input count parser record error receives pushed refused =>
    obtain ⟨records, scanned, ready, reading⟩ := reports.live receives
    obtain ⟨taken, _⟩ := RecordParser.reader.scan_push scanned ready pushed
    have valid := HostSession.accept_error refused
    refine stop rfl fun rest => ?_
    have items := RecordParser.reader.items_scan_append taken (input.drop count ++ rest)
    rw [List.append_assoc, ← List.append_assoc (input.take count),
      List.take_append_drop, Option.toList_some, List.append_assoc] at items
    rw [stream_concat, List.append_assoc, events_concat]
    rw [show Entry.stream (.receive input, .error error) = input from
      if_neg valid, items, reading,
      ← host.session.reading_frame parser host.session.sendSequence]
    exact congrArg _ (HostSession.reading_cons_error refused _)

end Reports

structure Sends (trace : List Entry) (host : Host) (records : List Record) : Prop where
  output : host.output = attachments trace ++ records.flatMap Record.bytes
  fresh : host.session.state = .detached → records = []
  valid : ∀ record ∈ records, checkRecord record = .ok ()
  numbered : NumberedFrom 0 records
  sequence : host.session.sendSequence.toNat = records.length
  identified : ∀ record ∈ records, record.recordType = .data ∧
    .attached record.identity ∈ events trace
  payloads : records.map Record.payload = sends trace
  identity : ∀ identity, host.session.identity = some identity → .attached identity ∈ events trace

namespace Sends

variable {entry : Entry} {host next : Host} {records : List Record}

theorem new : Sends [] .new [] where
  output := rfl
  fresh := fun _ => rfl
  valid := by simp
  numbered := fun index record found => by simp at found
  sequence := rfl
  identified := by simp
  payloads := rfl
  identity := by simp [Host.new, HostSession.new]

theorem keep (sent : Sends trace host records) (nothing : entry.sent = none)
    (output : next.output = host.output ++ entry.attachment)
    (unsent : entry.attachment = [] ∨ host.session.state = .detached)
    (fresh : next.session.state = .detached → host.session.state = .detached)
    (sequence : next.session.sendSequence = host.session.sendSequence)
    (identity : next.session.identity = host.session.identity ∨
      ∃ identity, next.session.identity = some identity ∧ entry.event = some (.attached identity)) :
    Sends (trace ++ [entry]) next records where
  output := by
    rw [output, sent.output, attachments_concat]
    rcases unsent with none | detached
    · simp [none]
    · simp [sent.fresh detached]
  fresh := fun detached => sent.fresh (fresh detached)
  valid := sent.valid
  numbered := sent.numbered
  sequence := by rw [sequence, sent.sequence]
  identified := fun record member => by
    rw [events_concat]
    exact (sent.identified record member).imp_right (List.mem_append_left _)
  payloads := by simpa [sends_concat, nothing] using sent.payloads
  identity := fun found held => by
    rw [events_concat, List.mem_append]
    rcases identity with same | ⟨other, set, event⟩
    · exact .inl (sent.identity found (same ▸ held))
    · obtain rfl := Option.some.inj (set.symm.trans held)
      exact .inr (by simp [event])

theorem append (sent : Sends trace host records)
    (attached : host.session.state = .attached) (data : List UInt8)
    (taken : Nat) (identity : Identity) (next : UInt64)
    (carried : host.session.identity = some identity)
    (following : next.toNat = host.session.sendSequence.toNat + 1)
    (valid : checkRecord ⟨.data, identity.instanceId, identity.epoch,
      host.session.sendSequence, data.take taken⟩ = .ok ()) :
    Sends (trace ++ [(.send data, .ok (.sent taken))]) ⟨{ host.session with sendSequence := next },
        host.output ++ Record.bytes ⟨.data, identity.instanceId,
          identity.epoch, host.session.sendSequence, data.take taken⟩⟩
      (records ++ [⟨.data, identity.instanceId, identity.epoch,
        host.session.sendSequence, data.take taken⟩]) where
  output := by
    simp [sent.output, attachments_concat, Entry.attachment]
  fresh := by simp [attached]
  valid := by
    rw [List.forall_mem_append]
    exact ⟨sent.valid, by simpa using valid⟩
  numbered := by
    apply numberedFrom_concat sent.numbered
    rw [Nat.zero_add]
    exact sent.sequence
  sequence := by
    rw [List.length_append, List.length_singleton]
    exact following.trans (by rw [sent.sequence])
  identified := by
    rw [events_concat, List.forall_mem_append]
    constructor
    · intro record member
      exact (sent.identified record member).imp_right (List.mem_append_left _)
    · rw [List.forall_mem_singleton]
      exact ⟨rfl, List.mem_append_left _ (sent.identity identity carried)⟩
  payloads := by
    simp [sends_concat, Entry.sent, sent.payloads]
  identity := fun found held => by
    rw [events_concat]
    exact List.mem_append_left _ (sent.identity found held)

theorem change (sent : Sends trace host records) (change : host.Change call next outcome) :
    ∃ records, Sends (trace ++ [(call, outcome)]) next records := by
  cases change with
  | refused _ error =>
    have nothing : Entry.attachment (call, .error error) = [] := by
      cases call <;> rfl
    exact ⟨records, sent.keep (by cases call <;> rfl)
      (by rw [nothing, List.append_nil]) (.inl nothing) id rfl (.inl rfl)⟩
  | attached capability fresh =>
    exact ⟨records, sent.keep rfl rfl (.inr fresh) (by simp) rfl (.inl rfl)⟩
  | kept | waited =>
    exact ⟨records, sent.keep rfl (List.append_nil _).symm (.inl rfl) id rfl (.inl rfl)⟩
  | accepted input count parser record session event receives pushed accepted =>
    obtain ⟨sequence, _, started, identity⟩ := HostSession.accept_ok accepted
    refine ⟨records, sent.keep rfl (List.append_nil _).symm (.inl rfl)
      (fun detached => absurd detached started) sequence ?_⟩
    refine identity.imp_right fun ⟨identity, set, same⟩ => ?_
    exact ⟨identity, set, congrArg some same⟩
  | malformed | unfit | truncated | closed =>
    exact ⟨records, sent.keep rfl (List.append_nil _).symm (.inl rfl) (by simp) rfl (.inl rfl)⟩
  | sent data taken identity following attached carried numbered valid =>
    exact ⟨_, sent.append attached data taken identity following carried numbered valid⟩

end Sends

theorem reports (calls : List Call) :
    Reports (machine.trace .new calls) (machine.after .new calls).session := by
  apply machine.invariant fun trace host => Reports trace host.session
  · exact .new
  · intro calls call before
    exact before.change (change _ call)

/-- The host is attached, not disconnected, and nothing stopped the session. -/
def Open (trace : List Entry) : Prop :=
  (∃ capability, (.attach capability, .ok .done) ∈ trace) ∧
    ∀ entry ∈ trace, entry.1 ≠ .disconnect ∧ Entry.stops entry = false

theorem receives_of_change {host next : Host}
    (before : Open trace → host.session.state.receives = true)
    (change : host.Change call next outcome) (isOpen : Open (trace ++ [(call, outcome)])) :
    next.session.state.receives = true := by
  obtain ⟨⟨capability, member⟩, going⟩ := isOpen
  rw [List.forall_mem_append, List.forall_mem_singleton] at going
  obtain ⟨earlier, stays, goes⟩ := going
  cases change with
  | refused =>
    simp only [List.mem_append, List.mem_singleton, Prod.mk.injEq, reduceCtorEq, and_false,
      or_false] at member
    exact before ⟨⟨capability, member⟩, earlier⟩
  | attached => rfl
  | waited _ _ _ receives => exact receives
  | accepted input count _ _ _ event _ _ accepted =>
    rw [stops_received] at goes
    rw [(HostSession.state_of_accept accepted).2, goes]
    rfl
  | malformed => cases goes
  | unfit _ _ _ _ _ _ _ refused =>
    exact absurd (of_decide_eq_false goes) (not_not.mpr (HostSession.accept_error refused))
  | sent _ _ _ _ attached =>
    simp only [attached]
    rfl
  | _ => exact absurd rfl stays

theorem receives_of_open (calls : List Call) : Open (machine.trace .new calls) →
    (machine.after .new calls).session.state.receives = true := by
  apply machine.invariant fun trace host => Open trace → host.session.state.receives = true
  · rintro ⟨⟨_, none⟩, _⟩
    cases none
  · intro calls call before
    exact receives_of_change before (change _ call)

/-- What a `receive` takes of its input when the stream so far is `before`: all of
it, or what completes the next record. -/
def Takes (before input : List UInt8) : Outcome → Prop
  | .ok (.received count none) => count = input.length
  | .ok (.received count (some _)) => count ≤ input.length ∧ ∃ record,
      parseStream [before ++ input.take count] =
        ⟨(parseStream [before]).items ++ [record], .new, none⟩
  | .error error => error ≠ .invalidState
  | _ => False

theorem takes_receive {host : Host} (reports : Reports trace host.session)
    (receives : host.session.state.receives = true) (input : List UInt8) :
    Takes (stream trace) input (host.step (.receive input)).2 := by
  obtain ⟨records, scanned, ready, _⟩ := reports.live receives
  have pushes := RecordParser.reader.pushed ready input
  have change := host.change (.receive input)
  generalize (host.step (.receive input)).1 = next at change
  generalize (host.step (.receive input)).2 = outcome at change ⊢
  cases change with
  | refused _ _ quiet =>
    rw [(quiet input rfl).2] at receives
    cases receives
  | waited _ count parser _ pushed =>
    rw [show RecordParser.reader.push _ input = _ from pushed] at pushes
    cases pushes with
    | all => rfl
  | accepted _ count parser record _ _ _ pushed =>
    have taken := (RecordParser.reader.scan_push scanned ready pushed).1
    obtain rfl := RecordParser.new_of_push pushed
    rw [show RecordParser.reader.push _ input = _ from pushed] at pushes
    cases pushes with
    | item _ _ _ _ fits =>
      refine ⟨fits, record, ?_⟩
      rw [parseStream_of_scan taken List.flatten_singleton,
        parseStream_of_scan scanned List.flatten_singleton]
      rfl
  | malformed => exact nofun
  | unfit _ _ _ _ _ _ _ refused => exact HostSession.accept_error refused

theorem sent (calls : List Call) :
    ∃ records, Sends (machine.trace .new calls) (machine.after .new calls)
      records := by
  apply machine.invariant fun trace host => ∃ records, Sends trace host records
  · exact ⟨[], .new⟩
  · rintro calls call ⟨records, before⟩
    exact before.change (change _ call)

theorem trace_of_ended (ended : host.session.state.ended = true)
    (calls : List Call) : events (machine.trace host calls) = [] := by
  induction calls with
  | nil => rfl
  | cons call calls induction =>
    obtain ⟨same, refused⟩ := step_of_ended ended call
    have silent : Entry.event (call, (host.step call).2) = none := by
      rcases refused with refused | rfl
      · rw [refused]
        rfl
      · simp only [step, HostSession.disconnect, ended]
        rfl
    rw [Machine.trace, show machine.step = step from rfl, same, events,
      List.filterMap_cons_none silent]
    exact induction

theorem step_of_error {host : Host} (failed : (host.step call).2 = .error error)
    (asked : (∃ data, call = .send data) ∨ ∃ capability, call = .attach capability) :
    (host.step call).1 = host := by
  have change := host.change call
  rw [failed] at change
  generalize (host.step call).1 = next at change ⊢
  cases change with
  | refused => rfl
  | malformed | unfit | truncated => simp at asked

theorem items_parseStream (bytes : List UInt8) : (parseStream [bytes]).items =
      (RecordParser.reader.scan .new bytes).items := by
  have agrees := parseStream_agrees [bytes]
  rw [List.flatten_singleton] at agrees
  generalize parseStream [bytes] = fed at agrees ⊢
  generalize RecordParser.reader.scan .new bytes = scanned at agrees ⊢
  cases agrees <;> rfl

theorem reading_start (records : List Record) : (start.reading records).filterMap payload =
      delivered sequenceBound records :=
  reading_attaching rfl records

theorem delivers (calls : List Call) : (events (machine.trace .new calls)).filterMap payload =
      delivered sequenceBound (parseStream [stream (machine.trace .new calls)]).items := by
  rw [← (reports calls).here, reading_start, items_parseStream]

/-- The host delivers what the stream has for it, in order, up to the record
that stops the session, whatever follows that; the records it sends carry what
it took, numbered from zero with the identity of READY; a `send` or an `attach`
that fails changes nothing; and an open session takes its input up to the end of
the next record. -/
theorem host_session_delivers_the_stream (calls : List Call) :
    let trace := machine.trace .new calls
    let host := machine.after .new calls
    (events trace).filterMap payload = delivered sequenceBound (parseStream [stream trace]).items ∧
    ((∃ entry ∈ trace, Entry.stops entry = true) → (∀ rest, (events trace).filterMap payload =
        delivered sequenceBound (parseStream [stream trace ++ rest]).items) ∧
      ∀ more, events (machine.trace host more) = []) ∧
    (∃ records, host.output = attachments trace ++ records.flatMap Record.bytes ∧
      parseStream [records.flatMap Record.bytes] = ⟨records, .new, none⟩ ∧
      NumberedFrom 0 records ∧
      (∀ record ∈ records, record.recordType = .data ∧ .attached record.identity ∈ events trace) ∧
      records.map Record.payload = sends trace) ∧
    (∀ call error, (host.step call).2 = .error error →
      (∃ data, call = .send data) ∨ (∃ capability, call = .attach capability) →
      (host.step call).1 = host) ∧
    (Open trace → ∀ input, Takes (stream trace) input (host.step (.receive input)).2) := by
  intro trace host
  refine ⟨delivers calls, fun stops => ?_, ?_, fun call error => step_of_error,
    fun isOpen => takes_receive (reports calls) (receives_of_open calls isOpen)⟩
  · obtain ⟨ended, same⟩ := (reports calls).stopped stops
    refine ⟨fun rest => ?_, trace_of_ended ended⟩
    rw [← same rest, reading_start, items_parseStream]
  · obtain ⟨records, sent⟩ := sent calls
    exact ⟨records, sent.output,
      parseStream_of_records sent.valid List.flatten_singleton, sent.numbered,
      sent.identified, sent.payloads⟩

theorem length_inSequence (bound expected : Nat) (records : List Record) :
    (inSequence bound expected records).length ≤ bound - expected := by
  induction records generalizing expected with
  | nil => exact Nat.zero_le _
  | cons record records induction =>
    rw [inSequence]
    split
    · have rest := induction (expected + 1)
      rw [List.length_cons]
      omega
    · exact Nat.zero_le _

theorem length_afterReady (records : List Record) :
    (afterReady records).length ≤ records.length - 1 := by
  have fewer := (@List.dropWhile_suffix _ records
    fun record => decide (record.recordType = .wait)).length_le
  unfold afterReady
  split
  · exact Nat.zero_le _
  · rename_i ready rest dropped
    rw [dropped, List.length_cons] at fewer
    split
    · rename_i identity _ _
      have taken := (@List.takeWhile_prefix _ rest (carries identity)).length_le
      rw [List.length_map]
      exact Nat.le_trans taken (Nat.le_sub_one_of_lt fewer)
    · exact Nat.zero_le _

def datum (identity : Identity) (number : Nat) : Record :=
  ⟨.data, identity.instanceId, identity.epoch, UInt64.ofNat number, [0]⟩

def datums (identity : Identity) (number count : Nat) : List Record :=
  (List.range' number count).map (datum identity)

theorem inSequence_datums (identity : Identity) (number count : Nat)
    (fits : number + count ≤ 2 ^ 64) :
    inSequence (2 ^ 64) number (datums identity number count) =
      datums identity number count := by
  induction count generalizing number with
  | zero => rfl
  | succ count induction =>
    rw [datums, List.range'_succ, List.map_cons, inSequence_cons_pos, ← datums,
      induction _ (by omega)]
    · have small : number < 2 ^ 64 := by omega
      exact UInt64.toNat_ofNat_of_lt' small
    · omega

/-- An attached session at a record boundary that expects this number. -/
structure Awaits (identity : Identity) (number : Nat) (host : Host) : Prop where
  attached : host.session.state = .attached
  held : host.session.identity = some identity
  fresh : host.session.parser = .new
  expects : host.session.receiveSequence.toNat = number

theorem step_receive {host : Host} {record : Record} (receives : host.session.state.receives = true)
    (fresh : host.session.parser = .new) (valid : checkRecord record = .ok ()) :
    host.step (.receive record.bytes) =
      match host.session.accept record with
      | .ok (next, event) => (⟨next, host.output⟩, .ok (.received record.bytes.length (some event)))
      | .error error =>
        (⟨{ host.session with state := .failed }, host.output⟩, .error error) := by
  rcases host with ⟨⟨state, parser, identity, receiveSequence, sendSequence⟩, output⟩
  simp only at fresh receives
  subst fresh
  have pushed := RecordParser.push_record valid []
  rw [List.append_nil] at pushed
  simp only [step, HostSession.receive, receives, pushed]
  cases HostSession.accept _ record <;> rfl

/-- A datum is taken whole, even the one whose successor has no number. -/
theorem step_datum (awaits : Awaits identity number host) :
    Entry.stream (.receive (datum identity number).bytes,
      (host.step (.receive (datum identity number).bytes)).2) = (datum identity number).bytes ∧
    (number + 1 < 2 ^ 64 →
      Awaits identity (number + 1) (host.step (.receive (datum identity number).bytes)).1) := by
  obtain ⟨attached, held, fresh, expects⟩ := awaits
  rw [step_receive (by rw [attached]; rfl) fresh rfl]
  rcases host.session.accept_eq (datum identity number) with
    ⟨_, _, fits, accepted⟩ | ⟨unfit, error, valid, refused⟩
  · have applied : host.session.apply (datum identity number) = .ok (host.session, .data [0]) := by
      simp [HostSession.apply, datum, held, checkIdentity, bind, Except.bind]
    rw [accepted, applied]
    refine ⟨List.take_length, fun _ => ⟨attached, held, fresh, ?_⟩⟩
    exact (toNat_next fits).trans (by rw [expects])
  · rw [refused]
    refine ⟨if_neg valid, fun fits => absurd ⟨?_, ?_, by rwa [expects]⟩ unfit⟩
    · rw [attached]
      rfl
    · apply UInt64.toNat_inj.mp
      rw [expects]
      exact UInt64.toNat_ofNat_of_lt' (Nat.lt_of_succ_lt fits)

theorem after_datums {host : Host} {identity : Identity} {number : Nat}
    (awaits : Awaits identity number host) (count : Nat) (fits : number + count < 2 ^ 64) :
    let calls := (datums identity number count).map fun record =>
      Call.receive record.bytes
    Awaits identity (number + count) (machine.after host calls) ∧
      stream (machine.trace host calls) = (datums identity number count).flatMap Record.bytes := by
  induction count generalizing number host with
  | zero => exact ⟨awaits, rfl⟩
  | succ count induction =>
    obtain ⟨taken, next⟩ := step_datum awaits
    obtain ⟨last, rest⟩ := induction (next (by omega)) (by omega)
    refine ⟨?_, ?_⟩
    · rw [show number + (count + 1) = number + 1 + count by omega]
      exact last
    · have first : stream (machine.trace host (.receive (datum identity number).bytes ::
            (datums identity (number + 1) count).map fun record =>
              Call.receive record.bytes)) =
          (datum identity number).bytes ++ _ :=
        congrArg₂ (· ++ ·) taken rest
      exact first

def readyRecord (identity : Identity) : Record :=
  ⟨.ready, identity.instanceId, identity.epoch, 0, []⟩

def opening (identity : Identity) : List Call :=
  [.attach (Bytes.zero capabilityLen), .receive (readyRecord identity).bytes]

theorem awaits_opening (known : recordIdentity (readyRecord identity) = some identity) :
    Awaits identity 1 (machine.after .new (opening identity)) ∧
      stream (machine.trace .new (opening identity)) = (readyRecord identity).bytes := by
  have accepted : start.accept (readyRecord identity) =
      .ok ({ start with
        identity := some identity, state := .attached, receiveSequence := 1 },
        .attached identity) := by
    rcases start.accept_eq (readyRecord identity) with
      ⟨_, _, _, same⟩ | ⟨unfit, _⟩
    · rw [same]
      simp only [HostSession.apply, readyRecord] at known ⊢
      rw [known]
      rfl
    · exact absurd ⟨rfl, rfl, by decide⟩ unfit
  have attached : (Host.new.step (.attach (Bytes.zero capabilityLen))).1.session =
      start := rfl
  have received := @step_receive
    (Host.new.step (.attach (Bytes.zero capabilityLen))).1 (readyRecord identity)
    rfl rfl rfl
  rw [attached, accepted] at received
  refine ⟨?_, ?_⟩
  · change Awaits identity 1 (Host.step (Host.step _ (.attach _)).1 (.receive _)).1
    rw [received]
    exact ⟨rfl, rfl, rfl, rfl⟩
  · change [] ++ (Entry.stream (_,
      (Host.step (Host.step _ (.attach _)).1 (.receive _)).2) ++ []) = _
    rw [received, List.append_nil]
    exact List.take_length

theorem delivered_datums (known : recordIdentity (readyRecord identity) = some identity)
    (fits : 1 + count ≤ 2 ^ 64) :
    (delivered (2 ^ 64) (readyRecord identity :: datums identity 1 count)).length = count := by
  have first : (readyRecord identity).sequence.toNat = 0 := rfl
  rw [delivered, inSequence_cons_pos first (by decide),
    inSequence_datums identity 1 count fits, afterReady_ready rfl known,
    List.length_map, List.takeWhile_eq_self_iff.mpr, datums, List.length_map, List.length_range']
  intro record member
  obtain ⟨number, _, rfl⟩ := List.mem_map.mp member
  simp [carries, datum, Record.identity]

/-- A run of data up to the last sequence number delivers all but the last. -/
theorem overflow_stops {identity : Identity}
    (known : recordIdentity (readyRecord identity) = some identity)
    (count : Nat) (all : count + 2 = 2 ^ 64) :
    ∃ calls, (events (machine.trace .new calls)).filterMap payload ≠ delivered (2 ^ 64)
          (parseStream [stream (machine.trace .new calls)]).items := by
  let records := readyRecord identity :: datums identity 1 (count + 1)
  let calls := opening identity ++
    ((datums identity 1 count).map (fun record => Call.receive record.bytes) ++
      [.receive (datum identity (1 + count)).bytes])
  obtain ⟨opened, ready⟩ := awaits_opening known
  obtain ⟨awaits, fed⟩ := after_datums opened count (by omega)
  have last := (step_datum awaits).1
  have whole : stream (machine.trace .new calls) = records.flatMap Record.bytes := by
    simp only [calls, records, Machine.trace_append, stream,
      List.flatMap_append, datums, List.range'_1_concat, List.map_append, List.flatMap_cons]
    exact congrArg₂ (· ++ ·) ready (congrArg₂ (· ++ ·) fed (congrArg (· ++ []) last))
  have valid : ∀ record ∈ records, checkRecord record = .ok () := by
    intro record member
    rcases List.mem_cons.mp member with rfl | later
    · rfl
    · obtain ⟨number, _, rfl⟩ := List.mem_map.mp later
      rfl
  have items : (parseStream [stream (machine.trace .new calls)]).items =
      records := by
    rw [parseStream_of_records valid (List.flatten_singleton.trans whole)]
  refine ⟨calls, fun same => ?_⟩
  have fewer := Nat.le_trans (length_afterReady (inSequence sequenceBound 0 records))
    (Nat.sub_le_sub_right (length_inSequence sequenceBound 0 records) 1)
  have many := delivered_datums known (show 1 + (count + 1) ≤ 2 ^ 64 by omega)
  rw [delivers, items] at same
  have lengths := congrArg List.length same
  rw [many, delivered] at lengths
  unfold sequenceBound at lengths fewer
  omega

/-- The record that takes the last sequence number is refused, although its
identity, sequence and type fit. -/
theorem last_sequence_number_is_refused : ∃ calls,
      (events (machine.trace .new calls)).filterMap payload ≠ delivered (2 ^ 64)
          (parseStream [stream (machine.trace .new calls)]).items :=
  @overflow_stops ⟨⟨List.replicate 16 1, rfl⟩, 1⟩ (by decide) (2 ^ 64 - 2)
    (by decide)

end Nvx.Protocol.Nvxs.Host
