import Nvx.Exec.SystemOutput

namespace Nvx.Exec

open Nvx.Data

/-! The bytes of the input, from the messages that carry them to the workload,
and the two ways in which the input closes. -/

namespace Runner

def writtenBy : Event → List UInt8
  | (_, .written bytes) => bytes
  | _ => []

/-- The bytes of the input that a message handed to the runner carries. -/
def receivedBy : Event → List UInt8
  | (.receive _ _ message, _) => message.inputBytes
  | _ => []

def writtenBytes (trace : List Event) : List UInt8 := trace.flatMap writtenBy

def receivedBytes (trace : List Event) : List UInt8 := trace.flatMap receivedBy

/-- Nothing is missing of what the input received: it drops what it holds when
it is closed early, and not when it closes because the workload took all. -/
def Input.Whole (input : Input) : Prop :=
  input.closed = false ∨ input.closeRequested = true

def InputPipe (entered passed : List UInt8) (runner : Runner) : Prop :=
  Pipe entered passed runner.input.inbox.bytes runner.input.Whole

section InputPipe

variable {runner next : Runner}

theorem InputPipe.change (change : Change runner next) (consistent : runner.Consistent)
    (pipe : runner.InputPipe entered passed) :
    next.InputPipe entered passed := by
  cases change with
  | closeInput stillOpen =>
    refine pipe.drop fun whole => ?_
    have requested : runner.input.closeRequested = true := by
      simpa [Input.Whole, setInput] using whole
    simp [consistent.input.closeRequested requested] at stillOpen
  | requestClose peerEnded stillOpen empty =>
    exact pipe.mono fun _ => .inl stillOpen
  | _ => exact pipe

theorem inputPipe_locallyKept (entered passed : List UInt8) :
    LocallyKept (fun call => ∀ bytes, call ≠ .inputWritten bytes) Consistent
      (InputPipe entered passed) where
  change := fun step consistent pipe => pipe.change step consistent
  report := fun report _ _ pipe => by cases report <;> exact pipe
  output := fun {runner} stream bytes _ _ pipe => by
    obtain ⟨_, _, _, _, same⟩ := output_frame runner stream bytes
    rw [same]
    exact pipe
  popInput := fun bytes permitted => absurd rfl (permitted bytes)
  requests := fun requests _ pipe => by
    cases requests with
    | closeInput waiting =>
      refine pipe.mono fun whole => .inl ?_
      simpa [Input.Whole, setInput] using whole
    | _ => exact pipe

theorem InputPipe.evolves (chain : Evolves runner next) (consistent : runner.Consistent)
    (pipe : runner.InputPipe entered passed) :
    next.InputPipe entered passed :=
  ((LocallyKept.and Consistent.kept (inputPipe_locallyKept entered passed)).evolves chain
      ⟨consistent, pipe⟩).2

theorem InputPipe.inputWritten (consistent : runner.Consistent)
    (pipe : runner.InputPipe entered passed) (bytes : Nat) :
    (runner.inputWritten bytes).InputPipe entered (passed ++ if runner.input.closed then []
        else runner.input.inbox.bytes.take bytes) := by
  unfold Runner.inputWritten
  cases closed : runner.input.closed with
  | true =>
    simp only [if_true, List.append_nil]
    exact pipe
  | false =>
    have popped : (runner.popInput bytes).InputPipe entered
        (passed ++ runner.input.inbox.bytes.take bytes) := by
      have passes := pipe.pass bytes
      simpa only [InputPipe, popInput, setInput, Inbox.pop_bytes, Input.Whole] using passes
    simp only [Bool.false_eq_true, if_false]
    exact popped.evolves (closeInputWhenTaken_evolves _)
      (Consistent.kept.popInput bytes trivial closed trivial consistent)

theorem InputPipe.act (consistent : runner.Consistent)
    (pipe : runner.InputPipe entered passed) (call : LocalCall) :
    (runner.act call).1.InputPipe entered
      (passed ++ writtenBy (.act call, (runner.act call).2)) := by
  by_cases writes : ∃ bytes, call = .inputWritten bytes
  · obtain ⟨bytes, rfl⟩ := writes
    exact pipe.inputWritten consistent bytes
  · have others : ∀ bytes, call ≠ .inputWritten bytes :=
      fun bytes same => writes ⟨bytes, same⟩
    have unwritten : writtenBy (.act call, (runner.act call).2) = [] := by
      cases call with
      | inputWritten bytes => exact absurd rfl (others bytes)
      | _ => rfl
    rw [unwritten, List.append_nil]
    exact ((LocallyKept.and Consistent.kept
      (inputPipe_locallyKept entered passed)).act runner others ⟨consistent, pipe⟩).2

theorem InputPipe.emits (emits : Emits runner capacity next message)
    (pipe : runner.InputPipe entered passed) :
    next.InputPipe entered passed := by
  cases emits <;> exact pipe

theorem InputPipe.lose_of_closed (consistent : runner.Consistent)
    (pipe : runner.InputPipe entered passed) (closed : runner.input.closed = true)
    (unended : runner.input.peerEnded = false) (bytes : List UInt8) :
    runner.InputPipe (entered ++ bytes) passed := by
  refine pipe.lose fun whole => ?_
  rcases whole with stillOpen | requested
  · simp [closed] at stillOpen
  · simp [consistent.input.taken requested] at unended

theorem InputPipe.receiveInput (consistent : runner.Consistent)
    (pipe : runner.InputPipe entered passed) (unended : runner.input.peerEnded = false)
    (sized : 0 < bytes.length ∧ bytes.length ≤ runner.limits.chunk)
    (fits : runner.input.window.window.cost bytes.length ≤ runner.input.window.opened) :
    (runner.receiveInput runner.key bytes).1.InputPipe (entered ++ bytes)
      passed := by
  cases finished : runner.finished with
  | true =>
    have exited := (consistent.life.finished finished).2.1
    have same := receive_of_finished finished 0 runner.key (.input bytes)
    simp only [Runner.receive] at same
    rw [same]
    exact pipe.lose_of_closed consistent (consistent.life.exitCloses exited) unended bytes
  | false =>
    rw [receiveInput_eq finished unended sized fits]
    split
    · rename_i closed
      exact pipe.lose_of_closed consistent closed unended bytes
    · rename_i stillOpen
      simp only [InputPipe, holdInput, noteBuffered, setInput, Inbox.push]
      exact pipe.push (.inl (Bool.eq_false_iff.mpr stillOpen)) bytes

theorem InputPipe.receive (consistent : runner.Consistent)
    (pipe : runner.InputPipe entered passed) (now : Instant) (message : Peer.Message)
    (taken : ∀ bytes, message = .input bytes → runner.input.peerEnded = false ∧
        (0 < bytes.length ∧ bytes.length ≤ runner.limits.chunk) ∧
        runner.input.window.window.cost bytes.length ≤ runner.input.window.opened) :
    (runner.receive now runner.key message).1.InputPipe (entered ++ message.inputBytes) passed := by
  cases message with
  | cancel cause =>
    simp only [Peer.Message.inputBytes, List.append_nil]
    exact pipe.evolves (runner.cancel_evolves now runner.key cause) consistent
  | credit pool units =>
    simp only [Peer.Message.inputBytes, List.append_nil, Runner.receive]
    rcases runner.credit_cases runner.key pool units with
      same | ⟨_, _, _, _, _, granting⟩
    · rwa [same]
    · rw [granting]
      exact pipe
  | input bytes =>
    obtain ⟨unended, sized, fits⟩ := taken bytes rfl
    exact pipe.receiveInput consistent unended sized fits
  | inputEnd =>
    simp only [Peer.Message.inputBytes, List.append_nil, Runner.receive]
    rcases runner.endInput_cases runner.key with
      same | ⟨unfinished, unended, accepted⟩
    · rwa [same]
    · have ended : (runner.setInput { runner.input with
          peerEnded := true }).InputPipe entered passed := pipe
      rw [accepted]
      exact ended.evolves (closeInputWhenTaken_evolves _)
        (Consistent.kept.peerEnds unfinished unended trivial consistent)

end InputPipe

theorem Requests.closeRequested (requests : Requests runner next (some .closeInput)) :
    runner.input.closeRequested = true := by
  cases requests with
  | closeInput waiting => exact waiting

theorem requests_concat (trace : List Event) (event : Event) :
    requests (trace ++ [event]) = requests trace ++ (asked event).toList := by
  rw [requests, List.filterMap_append]
  cases returned : asked event <;> simp [returned, requests]

theorem close_told_one_way (consistent : start.Consistent) (calls : List Call) :
    ¬ (.inputClosed ∈ messages (machine.trace start calls) ∧
      .closeInput ∈ requests (machine.trace start calls)) := by
  have told := run_invariant (fun trace runner =>
    (.inputClosed ∈ messages trace ∨ .closeInput ∈ requests trace → runner.CloseTold) ∧
    ¬ (.inputClosed ∈ messages trace ∧ .closeInput ∈ requests trace))
    consistent (by simp [messages, requests]) ?_ calls
  · exact told.2
  · intro trace runner call consistent held
    obtain ⟨told, oneWay⟩ := held
    simp only [messages_concat, requests_concat, List.mem_append, Option.mem_toList]
    have message (returned : sent (call, (runner.step call).2) = some .inputClosed) :
        ¬ runner.CloseTold ∧ (runner.step call).1.CloseTold := by
      obtain ⟨capacity, emits⟩ := emits_of_sent consistent returned
      exact emits.tellsClose consistent
    have request (returned : asked (call, (runner.step call).2) = some .closeInput) :
        ¬ runner.CloseTold ∧ (runner.step call).1.CloseTold :=
      (requests_of_asked returned).tellsClose consistent
    constructor
    · rintro ((earlier | last) | (earlier | last))
      · exact (consistent.later call).closeTold (told (.inl earlier))
      · exact (message last).2
      · exact (consistent.later call).closeTold (told (.inr earlier))
      · exact (request last).2
    · rintro ⟨earlier | last, alsoEarlier | alsoLast⟩
      · exact oneWay ⟨earlier, alsoEarlier⟩
      · exact (request alsoLast).1 (told (.inl earlier))
      · exact (message last).1 (told (.inr alsoEarlier))
      · generalize (runner.step call).2 = value at last alsoLast
        cases value with
        | message => simp [asked] at alsoLast
        | _ => simp [sent] at last

theorem closed_of_inputClosed_mem (consistent : start.Consistent) (calls : List Call) :
    .inputClosed ∈ messages (machine.trace start calls) →
      (machine.after start calls).input.closed = true := by
  refine run_invariant (fun trace runner =>
    .inputClosed ∈ messages trace → runner.input.closed = true)
    consistent (by simp [messages]) ?_ calls
  intro trace runner call consistent held member
  rw [messages_concat, List.mem_append, Option.mem_toList] at member
  rcases member with earlier | last
  · exact (consistent.later call).inputClosed (held earlier)
  · obtain ⟨capacity, emits⟩ := emits_of_sent consistent last
    exact (emits.tellsClose consistent).2.1

theorem nothing_pending_of_closed
    (consistent : start.Consistent) (closed : start.input.closed = true) (calls : List Call) :
    (∀ slice, (machine.after start calls).PendingInput slice → slice = []) ∧
      writtenBytes (machine.trace start calls) = [] := by
  have still := run_invariant (fun trace runner =>
    runner.input.closed = true ∧ writtenBytes trace = []) consistent
    ⟨closed, rfl⟩ ?_ calls
  · refine ⟨fun slice pending => ?_, still.2⟩
    simpa only [PendingInput, still.1, if_true] using pending
  · intro trace runner call consistent ⟨closed, unwritten⟩
    refine ⟨(consistent.later call).inputClosed closed, ?_⟩
    rw [writtenBytes, List.flatMap_append, List.flatMap_singleton]
    rw [writtenBytes] at unwritten
    rw [unwritten, List.nil_append]
    cases call with
    | act call =>
      cases call with
      | inputWritten bytes =>
        simp [writtenBy, Runner.step, Runner.act, closed]
      | _ => rfl
    | _ => rfl

end Runner

theorem InputNext.nothing_left (reads : Reads InputNext true messages last) :
    last = true ∧ messages.flatMap Peer.Message.inputBytes = [] := by
  induction messages with
  | nil => exact ⟨reads.eq_of_nil, rfl⟩
  | cons message rest induction =>
    obtain ⟨middle, first, others⟩ := reads.exists_of_cons
    obtain rfl := first.eq_of_ended
    obtain ⟨same, none⟩ := induction others
    refine ⟨same, ?_⟩
    rw [List.flatMap_cons, none, List.append_nil]
    cases first with
    | input unended => simp at unended
    | _ => rfl

namespace System

structure InputFlow (trace : List Event) (system : System) : Prop where
  onWay : Pipe (Peer.sentBytes (peerTrace trace)) (Runner.receivedBytes (runnerTrace trace))
    (system.toRunner.flatMap Peer.Message.inputBytes) True
  atRunner : system.runner.InputPipe (Runner.receivedBytes (runnerTrace trace))
    (Runner.writtenBytes (runnerTrace trace))

theorem Sound.input_taken {system : System} (sound : system.Sound limits)
    (delivered : system.toRunner = message :: rest)
    (bytes : List UInt8) (carried : message = .input bytes) :
    system.runner.input.peerEnded = false ∧
      (0 < bytes.length ∧ bytes.length ≤ system.runner.limits.chunk) ∧
      system.runner.input.window.window.cost bytes.length ≤
        system.runner.input.window.opened := by
  subst message
  have sized := sound.sized.toRunner _ (delivered ▸ List.mem_cons_self)
  rw [← sound.paired.runnerLimits] at sized
  refine ⟨?_, sized, sound.funded.input_fits sound.paired delivered⟩
  by_contra ended
  have reads := sound.ordered.input (.inr (by simpa using ended))
  rw [delivered] at reads
  obtain ⟨_, first, _⟩ := reads.exists_of_cons
  cases first with
  | input unended => exact ended unended

theorem InputFlow.steps (flow : system.InputFlow trace) (sound : system.Sound limits)
    (steps : Steps system next event) :
    next.InputFlow (trace ++ [event]) := by
  obtain ⟨onWay, atRunner⟩ := flow
  have consistent := sound.paired.runner
  -- What the step adds to each of the three histories.
  suffices added : Pipe (Peer.sentBytes (peerTrace trace) ++ (peerEvent event).elim [] Peer.sentBy)
        (Runner.receivedBytes (runnerTrace trace) ++ (runnerEvent event).elim [] Runner.receivedBy)
        (next.toRunner.flatMap Peer.Message.inputBytes) True ∧
      next.runner.InputPipe (Runner.receivedBytes (runnerTrace trace) ++
          (runnerEvent event).elim [] Runner.receivedBy)
        (Runner.writtenBytes (runnerTrace trace) ++ (runnerEvent event).elim [] Runner.writtenBy) by
    simp only [← flatMap_toList] at added
    constructor
    · rw [runnerTrace_concat, peerTrace_concat, Peer.sentBytes,
        Runner.receivedBytes, List.flatMap_append, List.flatMap_append]
      exact added.1
    · rw [runnerTrace_concat, Runner.receivedBytes, Runner.writtenBytes,
        List.flatMap_append, List.flatMap_append]
      exact added.2
  cases steps with
  | runnerActs call =>
    simp only [runnerEvent, peerEvent, Option.elim, Runner.receivedBy, List.append_nil]
    exact ⟨onWay, atRunner.act consistent call⟩
  | peerActs call =>
    have unsent : Peer.sentBy (.act call, (system.peer.act call).2) = [] := by
      cases call <;> rfl
    simp only [runnerEvent, peerEvent, Option.elim, unsent, List.append_nil]
    exact ⟨onWay, atRunner⟩
  | runnerSends capacity =>
    have emits := consistent.emits capacity
    simp only [runnerEvent, peerEvent, Option.elim, Runner.receivedBy,
      Runner.writtenBy, List.append_nil]
    exact ⟨onWay, atRunner.emits emits⟩
  | peerSends capacity =>
    simp only [runnerEvent, peerEvent, Option.elim, Peer.sentBy, Peer.sent,
      List.append_nil, List.flatMap_append]
    exact ⟨onWay.push trivial _, atRunner⟩
  | runnerReceives now message rest delivered =>
    simp only [runnerEvent, peerEvent, Option.elim, Runner.receivedBy,
      Runner.writtenBy, List.append_nil]
    constructor
    · have passes := onWay.pass message.inputBytes.length
      rw [delivered, List.flatMap_cons, List.take_left, List.drop_left] at passes
      exact passes
    · rw [← sound.paired.key]
      exact atRunner.receive consistent now message (sound.input_taken delivered)
  | peerReceives now message rest delivered =>
    simp only [runnerEvent, peerEvent, Option.elim, Peer.sentBy, Peer.sent,
      Option.toList_none, List.flatMap_nil, List.append_nil]
    exact ⟨onWay, atRunner⟩
  | idle call =>
    simp only [runnerEvent, peerEvent, Option.elim, List.append_nil]
    exact ⟨onWay, atRunner⟩

theorem InputFlow.after (sound : start.Sound limits) (sent : start.toRunner = [])
    (empty : start.runner.input.inbox.bytes = []) (calls : List Call) :
    (machine.after start calls).InputFlow (machine.trace start calls) := by
  refine machine.invariant InputFlow ⟨?_, ?_⟩ (fun calls call flow =>
      flow.steps (sound.after calls) (step_steps _ call)) calls
  · rw [sent]
    exact .nil
  · rw [Runner.InputPipe, empty]
    exact .nil

section Runs

variable (key : Key) (limits : Limits) (runnerTimers peerTimers : Timers)
  (runnerStart peerStart : Instant)

/-- What the workload takes is the start of what the caller handed over.  A
request to close the input comes when the workload has taken all that was handed
over before its end, and never together with the message that the input closed;
once the input is closed, the runner hands out nothing more. -/
theorem input_is_whole_at_close (calls : List Call) :
    let start := System.new key limits runnerTimers peerTimers runnerStart peerStart
    let trace := machine.trace start calls
    let system := machine.after start calls
    let written := Runner.writtenBytes (runnerTrace trace)
    written <+: Peer.taken (peerTrace trace) ∧
    (system.runner.nextRequest.2 = some .closeInput →
      .act .endInput ∈ (peerTrace trace).map Prod.fst ∧
      written = Peer.taken (Peer.untilEndInput (peerTrace trace))) ∧
    ¬ (.inputClosed ∈ Runner.messages (runnerTrace trace) ∧
      .closeInput ∈ Runner.requests (runnerTrace trace)) ∧
    (.inputClosed ∈ Runner.messages (runnerTrace trace) ∨ system.runner.input.closed = true →
      ∀ more, (∀ slice, (machine.after system more).runner.PendingInput slice → slice = []) ∧
        Runner.writtenBytes (runnerTrace (machine.trace system more)) = []) := by
  intro start trace system written
  have sound : start.Sound limits :=
    .new key limits runnerTimers peerTimers runnerStart peerStart
  have reached : system.Sound limits := sound.after calls
  have flow := InputFlow.after sound rfl rfl calls
  obtain ⟨runnerCalls, runs, seen⟩ := exists_runner_run start calls
  obtain ⟨peerCalls, peerRuns, peerSeen⟩ := exists_peer_run start calls
  have pipe := Peer.inputPipe_after sound.paired.peer rfl peerCalls
  rw [← peerSeen, ← peerRuns] at pipe
  refine ⟨flow.atRunner.passed_prefix.trans
    (flow.onWay.passed_prefix.trans pipe.passed_prefix), ?_, ?_, ?_⟩
  · intro requested
    have requests := system.runner.nextRequest_requests
    rw [requested] at requests
    have waiting := requests.closeRequested
    have input := reached.paired.runner.input
    have ended := input.taken waiting
    have reads := reached.ordered.input (.inr ended)
    rw [ended] at reads
    obtain ⟨endSent, nothing⟩ := InputNext.nothing_left reads
    obtain ⟨isEnded, empty⟩ := reached.paired.peer.input.endSent endSent
    have atRunner := flow.atRunner
    rw [Runner.InputPipe, input.empty (input.closeRequested waiting)] at atRunner
    have onWay := flow.onWay
    rw [nothing] at onWay
    rw [Peer.InputPipe, empty] at pipe
    rw [peerRuns] at isEnded
    refine ⟨peerSeen ▸ Peer.endInput_mem sound.paired.peer rfl peerCalls isEnded, ?_⟩
    calc written
      _ = Runner.receivedBytes (runnerTrace trace) :=
          atRunner.passed_eq (.inr waiting)
      _ = Peer.sentBytes (peerTrace trace) := onWay.passed_eq trivial
      _ = Peer.taken (peerTrace trace) := pipe.passed_eq (.inr endSent)
      _ = Peer.taken (Peer.untilEndInput (peerTrace trace)) := by
          rw [peerSeen, Peer.taken_untilEndInput sound.paired.peer]
  · rw [seen]
    exact Runner.close_told_one_way sound.paired.runner runnerCalls
  · intro told more
    have closed : system.runner.input.closed = true := by
      rcases told with message | closed
      · rw [seen] at message
        exact runs ▸ Runner.closed_of_inputClosed_mem sound.paired.runner runnerCalls message
      · exact closed
    obtain ⟨moreCalls, moreRuns, moreSeen⟩ := exists_runner_run system more
    rw [moreRuns, moreSeen]
    exact Runner.nothing_pending_of_closed reached.paired.runner closed moreCalls

end Runs

end System

end Nvx.Exec
