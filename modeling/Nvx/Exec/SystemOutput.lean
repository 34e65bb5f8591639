import Nvx.Exec.PeerBytes
import Nvx.Exec.SystemFlow

namespace Nvx.Exec

open Nvx.Data

/-! The bytes of the output, from the messages that carry them to the sink. -/

namespace Peer

/-- Nothing is missing of what the stream received: it marks what it drops, and
it drops something only when it discards. -/
def Incoming.Whole (incoming : Incoming) : Prop :=
  incoming.truncated = false ∨ incoming.discarding = false

def OutputPipe (stream : Stream) (entered passed : List UInt8) (peer : Peer) :
    Prop :=
  Pipe entered passed (peer.outputs stream).inbox.bytes (peer.Listens ∧ (peer.outputs stream).Whole)

theorem Emits.terminal_eq (emits : Emits peer capacity next message) :
    next.terminal = peer.terminal := by
  cases emits <;> rfl

section OutputPipe

variable {stream : Stream} {entered passed : List UInt8} {peer next : Peer}

theorem OutputPipe.of_outputs (pipe : peer.OutputPipe stream entered passed)
    (same : next.outputs = peer.outputs) (listens : next.Listens → peer.Listens) :
    next.OutputPipe stream entered passed := by
  unfold OutputPipe
  rw [same]
  exact pipe.mono fun whole => ⟨listens whole.1, whole.2⟩

theorem OutputPipe.setOutput (pipe : peer.OutputPipe stream entered passed)
    (inbox : incoming.inbox = (peer.outputs other).inbox)
    (truncated : incoming.truncated = (peer.outputs other).truncated)
    (discarding : incoming.discarding = (peer.outputs other).discarding) :
    (peer.setOutput other incoming).OutputPipe stream entered passed := by
  have sameInbox := update_field Incoming.inbox inbox stream
  have sameMark := update_field Incoming.truncated truncated stream
  have sameFlag := update_field Incoming.discarding discarding stream
  simp only [OutputPipe, Incoming.Whole, Peer.setOutput, sameInbox, sameMark, sameFlag]
  exact pipe

theorem OutputPipe.change (change : Change peer next)
    (pipe : peer.OutputPipe stream entered passed) :
    next.OutputPipe stream entered passed := by
  have listened (listens : next.Listens) : peer.Listens :=
    listens.of_later (.change change) (by cases change <;> rfl)
  cases change with
  | endGrace ending unfinished =>
    have silent := peer.endGrace_silent stream
    rw [OutputPipe, silent.1]
    refine pipe.drop fun ⟨listens, whole⟩ => ?_
    have unmarked := whole.resolve_right (by simp [silent.2])
    rw [endGrace_outputs] at unmarked
    simp only [Incoming.dropInbox, Bool.or_eq_false_iff, Inbox.clear] at unmarked
    have empty := of_decide_eq_false unmarked.2
    refine ⟨⟨listened listens, .inl unmarked.1⟩, ?_⟩
    exact List.length_eq_zero_iff.mp (by omega)
  | _ => exact pipe.of_outputs rfl listened

theorem OutputPipe.evolves (chain : Evolves peer next)
    (pipe : peer.OutputPipe stream entered passed) :
    next.OutputPipe stream entered passed :=
  chain.preserves (fun _ _ step held => held.change step) pipe

theorem outputPipe_locallyKept (stream : Stream) (entered passed : List UInt8) :
    LocallyKept (fun call => ∀ bytes, call ≠ .consumed stream bytes)
      (fun _ => True) (OutputPipe stream entered passed) where
  change := fun step _ pipe => pipe.change step
  takeInput := fun _ _ _ pipe => pipe.of_outputs rfl id
  endInput := fun _ _ _ pipe => pipe.of_outputs rfl id
  consumed := fun {peer} other bytes permitted _ pipe => by
    have different : stream ≠ other := fun same =>
      permitted bytes (by rw [same])
    simp only [OutputPipe, Peer.consumed, Peer.setOutput, setWindow,
      Function.update_of_ne different]
    exact pipe
  tells := fun {peer next event} tells _ pipe => by
    have listened (listens : next.Listens) : peer.Listens :=
      listens.of_later (.tells tells) (by cases tells <;> rfl)
    cases tells with
    | streamEnd other ending => exact pipe.setOutput rfl rfl rfl
    | nothing quiet => exact pipe
    | _ => exact pipe.of_outputs rfl listened

theorem OutputPipe.consumed (pipe : peer.OutputPipe stream entered passed) (bytes : Nat) :
    (peer.consumed stream bytes).OutputPipe stream entered
      (passed ++ (peer.outputs stream).inbox.bytes.take bytes) := by
  have passes := pipe.pass bytes
  simp only [OutputPipe, Peer.consumed, Peer.setOutput, setWindow,
    Function.update_self, Inbox.pop_bytes]
  exact passes

theorem OutputPipe.act (pipe : peer.OutputPipe stream entered passed) (call : LocalCall) :
    (peer.act call).1.OutputPipe stream entered
      (passed ++ consumedBy stream (.act call, (peer.act call).2)) := by
  by_cases consumes : ∃ bytes, call = .consumed stream bytes
  · obtain ⟨bytes, rfl⟩ := consumes
    simpa [consumedBy, Peer.act] using pipe.consumed bytes
  · have others : ∀ bytes, call ≠ .consumed stream bytes :=
      fun bytes same => consumes ⟨bytes, same⟩
    have untaken : consumedBy stream (.act call, (peer.act call).2) = [] := by
      cases call with
      | consumed other bytes =>
        have different : other ≠ stream := fun same =>
          others bytes (by rw [same])
        simp [consumedBy, Peer.act, different]
      | _ => rfl
    rw [untaken, List.append_nil]
    exact (outputPipe_locallyKept stream entered passed).act peer others pipe

theorem OutputPipe.emits (emits : Emits peer capacity next message)
    (pipe : peer.OutputPipe stream entered passed) :
    next.OutputPipe stream entered passed := by
  have listened (listens : next.Listens) : peer.Listens :=
    listens.of_later (.emits emits) emits.terminal_eq
  cases emits <;> exact pipe.of_outputs rfl listened

theorem OutputPipe.receive_of_ignores (pipe : peer.OutputPipe stream entered passed)
    (ignores : peer.ignoresRunner = true) (running : peer.terminal = none)
    (now : Instant) (key : Key) (message : Runner.Message) :
    (peer.receive now key message).1.OutputPipe stream
      (entered ++ message.outputBytes stream) passed := by
  have deaf {peer : Peer} (ignores : peer.ignoresRunner = true)
      (running : peer.terminal = none) : ¬ peer.Listens := by
    simp [Listens, ignores, running]
  rcases Peer.receive_of_ignores ignores now key message with same | ticks
  · rw [same]
    exact pipe.lose fun whole => absurd whole.1 (deaf ignores running)
  · have chain := peer.tick_evolves now
    have later := (Later.kept peer).toLocallyKept.evolves chain (.refl peer)
    rw [ticks]
    refine (pipe.evolves chain).lose fun whole => absurd whole.1 (deaf ?_ ?_)
    · exact later.ignoresRunner ignores
    · rw [(Framed.evolves chain).terminal, running]

theorem OutputPipe.output (pipe : peer.OutputPipe stream entered passed)
    (listening : peer.ignoresRunner = false) (other : Stream)
    (window : Granted) (bytes : List UInt8) :
    (if (peer.outputs other).discarding then
        peer.refuseOutput other window bytes
      else peer.holdOutput other window bytes).OutputPipe stream
      (entered ++ Runner.Message.outputBytes stream (.output other bytes))
      passed := by
  by_cases same : other = stream
  · subst other
    simp only [Runner.Message.outputBytes, if_true]
    split
    · rename_i discarding
      simp only [OutputPipe, refuseOutput, setWindow, Peer.setOutput, Function.update_self]
      exact pipe.lose fun whole => by
        simp [Incoming.Whole, discarding] at whole
    · rename_i keeps
      simp only [OutputPipe, holdOutput, noteBuffered, setWindow,
        Peer.setOutput, Function.update_self, Inbox.push]
      exact pipe.push ⟨.inl listening, .inr (Bool.eq_false_iff.mpr keeps)⟩ bytes
  · have kept : (if (peer.outputs other).discarding then
          peer.refuseOutput other window bytes
        else peer.holdOutput other window bytes).outputs stream =
        peer.outputs stream := by
      split <;> exact Function.update_of_ne (Ne.symm same) _ _
    simp only [Runner.Message.outputBytes, same, if_false, List.append_nil, OutputPipe, kept]
    refine pipe.mono fun whole => ⟨?_, whole.2⟩
    exact .inl listening

theorem OutputPipe.receive (pipe : peer.OutputPipe stream entered passed)
    (listening : peer.ignoresRunner = false) (now : Instant) (key : Key) (message : Runner.Message)
    (taken : ∀ other bytes, message = .output other bytes → ∃ window,
      (peer.output key other bytes).1 =
        if (peer.outputs other).discarding then
          peer.refuseOutput other window bytes
        else peer.holdOutput other window bytes) :
    (peer.receive now key message).1.OutputPipe stream
      (entered ++ message.outputBytes stream) passed := by
  cases message with
  | credit units =>
    simp only [Runner.Message.outputBytes, List.append_nil, Peer.receive]
    rcases peer.receiveCredit_cases key units with
      same | ⟨granted, _, _, granting⟩
    · rwa [same]
    · rw [granting]
      exact pipe.of_outputs rfl id
  | started =>
    simp only [Runner.Message.outputBytes, List.append_nil, Peer.receive]
    rcases peer.receiveStarted_cases key with same | ⟨_, _, _, starting⟩
    · rwa [same]
    · rw [starting]
      exact pipe.of_outputs rfl id
  | output other bytes =>
    obtain ⟨window, accepted⟩ := taken other bytes rfl
    rw [Peer.receive, accepted]
    exact pipe.output listening other window bytes
  | streamEnd other =>
    simp only [Runner.Message.outputBytes, List.append_nil, Peer.receive]
    rcases peer.endOutput_cases key other with same | ⟨_, _, ending⟩
    · rwa [same]
    · rw [ending]
      exact pipe.setOutput rfl rfl rfl
  | inputClosed =>
    simp only [Runner.Message.outputBytes, List.append_nil]
    exact pipe.evolves (peer.inputClosed_evolves key)
  | terminal outcome =>
    have ticked := pipe.evolves (peer.tick_evolves now)
    simp only [Runner.Message.outputBytes, List.append_nil, Peer.receive]
    rcases peer.receiveTerminal_cases now key outcome with
      same | ticks | ⟨still, _, _, accepted⟩
    · rwa [same]
    · rwa [ticks]
    · have unfinished : (peer.tick now).finished = false := by
        simp only [ignoresRunner, Bool.or_eq_false_iff] at still
        exact still.1.1
      have closed := ticked.evolves (closeInput_evolves _)
      have recorded : ((peer.tick now).closeInput.recordTerminal
          outcome).OutputPipe stream entered passed := by
        refine closed.of_outputs rfl fun _ => .inl ?_
        rw [closeInput_eq]
        exact still
      rw [accepted]
      exact recorded.evolves (acceptTerminal_evolves now outcome unfinished)

end OutputPipe

theorem Tells.outcome_eq {outcome : Outcome} (tells : Tells peer next (some (.finished outcome))) :
    peer.outcome = some outcome := by
  cases tells with
  | finished _ ended => exact ended

/-- An outcome that does not mark a stream as truncated is the runner's, and
neither side has marked the stream. -/
theorem terminal_of_untruncated {outcome : Outcome}
    (ended : Peer.outcome peer = some outcome) (unmarked : outcome.isTruncated stream = false) :
    ∃ terminal, peer.terminal = some terminal ∧ terminal.isTruncated stream = false ∧
      (peer.outputs stream).truncated = false ∧
      (peer.outputs stream).inbox.bytes = [] := by
  obtain ⟨empty, base, told, rfl⟩ := outcome_eq_some_iff.mp ended
  simp only [markOutcome_eq, Outcome.isTruncated, Bool.or_eq_false_iff] at unmarked
  unfold baseOutcome at told
  split at told
  · rename_i terminal same
    obtain rfl := Option.some.inj told
    exact ⟨terminal, same, unmarked.1, unmarked.2, empty stream⟩
  · split at told
    · obtain rfl := Option.some.inj told
      cases stream <;> simp [Outcome.withTruncated] at unmarked
    · simp at told

theorem receive_terminal (peer : Peer) (now : Instant) (key : Key) (message : Runner.Message) :
    (peer.receive now key message).1.terminal = peer.terminal ∨
      ∃ outcome, message = .terminal outcome ∧
        (peer.receive now key message).1.terminal = some outcome := by
  cases message with
  | credit units =>
    left
    rcases peer.receiveCredit_cases key units with same | ⟨_, _, _, granting⟩
    · rw [Peer.receive, same]
    · rw [Peer.receive, granting]
      rfl
  | started =>
    left
    rcases peer.receiveStarted_cases key with same | ⟨_, _, _, starting⟩
    · rw [Peer.receive, same]
    · rw [Peer.receive, starting]
  | output stream bytes =>
    left
    rcases peer.output_cases key stream bytes with
      same | ⟨_, _, _, _, _, accepted⟩
    · rw [Peer.receive, same]
    · rw [Peer.receive, accepted]
      split <;> rfl
  | streamEnd stream =>
    left
    rcases peer.endOutput_cases key stream with same | ⟨_, _, ending⟩
    · rw [Peer.receive, same]
    · rw [Peer.receive, ending]
      rfl
  | inputClosed =>
    exact .inl (Framed.evolves (peer.inputClosed_evolves key)).terminal
  | terminal outcome =>
    rcases peer.receiveTerminal_cases now key outcome with
      same | ticks | ⟨listening, _, _, accepted⟩
    · left
      rw [Peer.receive, same]
    · left
      rw [Peer.receive, ticks]
      exact (Framed.evolves (peer.tick_evolves now)).terminal
    · right
      have unfinished : (peer.tick now).finished = false := by
        simp only [ignoresRunner, Bool.or_eq_false_iff] at listening
        exact listening.1.1
      refine ⟨outcome, rfl, ?_⟩
      rw [Peer.receive, accepted]
      exact (Framed.evolves (acceptTerminal_evolves now outcome unfinished)).terminal

end Peer

namespace System

theorem runnerTrace_concat (trace : List Event) (event : Event) : runnerTrace (trace ++ [event]) =
      runnerTrace trace ++ (runnerEvent event).toList := by
  rw [runnerTrace, List.filterMap_append]
  cases seen : runnerEvent event <;> simp [seen, runnerTrace]

theorem peerTrace_concat (trace : List Event) (event : Event) : peerTrace (trace ++ [event]) =
      peerTrace trace ++ (peerEvent event).toList := by
  rw [peerTrace, List.filterMap_append]
  cases seen : peerEvent event <;> simp [seen, peerTrace]

theorem posted_outputBytes (runner : Runner) (message : Option Runner.Message) (stream : Stream) :
    (posted runner message).flatMap (Runner.Message.outputBytes stream) =
      message.toList.flatMap (Runner.Message.outputBytes stream) := by
  rcases message with _ | message
  · rfl
  · cases message with
    | terminal outcome =>
      simp only [posted]
      split <;> rfl
    | _ => rfl

theorem mem_of_posted {runner : Runner}
    (member : message ∈ posted runner returned) : returned = some message := by
  unfold posted at member
  split at member
  · simp at member
  · split at member
    · simp at member
    · rw [List.mem_singleton.mp member]
  · rw [List.mem_singleton.mp member]

structure Sourced (trace : List Event) (system : System) : Prop where
  toPeer : ∀ message ∈ system.toPeer, message ∈ Runner.messages (runnerTrace trace)
  terminal : ∀ outcome, system.peer.terminal = some outcome →
    .terminal outcome ∈ Runner.messages (runnerTrace trace)

theorem mem_messages_concat (event : Event)
    (member : message ∈ Runner.messages (runnerTrace trace)) :
    message ∈ Runner.messages (runnerTrace (trace ++ [event])) := by
  rw [runnerTrace_concat, Runner.messages, List.filterMap_append]
  exact List.mem_append_left _ member

theorem Sourced.steps (sourced : system.Sourced trace)
    (paired : system.Paired limits) (steps : Steps system next event) :
    next.Sourced (trace ++ [event]) := by
  have toPeer : ∀ message ∈ system.toPeer,
      message ∈ Runner.messages (runnerTrace (trace ++ [event])) :=
    fun message member => mem_messages_concat event (sourced.toPeer message member)
  have terminal (outcome : Outcome) (ended : system.peer.terminal = some outcome) :=
    mem_messages_concat event (sourced.terminal outcome ended)
  cases steps with
  | runnerActs call | runnerReceives now message rest delivered | idle call =>
    exact ⟨toPeer, terminal⟩
  | peerActs call =>
    refine ⟨toPeer, fun outcome ended => terminal outcome ?_⟩
    rw [← ended]
    exact (Peer.Framed.act system.peer call).terminal.symm
  | runnerSends capacity =>
    refine ⟨fun message member => ?_, terminal⟩
    rcases List.mem_append.mp member with earlier | last
    · exact toPeer message earlier
    · rw [runnerTrace_concat, Runner.messages, List.filterMap_append]
      refine List.mem_append_right _ (List.mem_filterMap.mpr ⟨_, List.mem_singleton_self _, ?_⟩)
      exact mem_of_posted last
  | peerSends capacity =>
    refine ⟨toPeer, fun outcome ended => terminal outcome ?_⟩
    rw [← ended]
    exact (paired.peer.emits capacity).terminal_eq.symm
  | peerReceives now message rest delivered =>
    refine ⟨fun other member => toPeer other
      (delivered ▸ List.mem_cons_of_mem _ member), fun outcome ended => ?_⟩
    rcases system.peer.receive_terminal now system.runner.key message with
      same | ⟨_, rfl, brought⟩
    · exact terminal outcome (same ▸ ended)
    · obtain rfl := Option.some.inj (ended.symm.trans brought)
      exact toPeer _ (delivered ▸ List.mem_cons_self)

theorem Sourced.after (sound : start.Sound limits) (sent : start.toPeer = [])
    (running : start.peer.terminal = none) (calls : List Call) :
    (machine.after start calls).Sourced (machine.trace start calls) :=
  machine.invariant Sourced ⟨by simp [sent], by simp [running]⟩
    (fun calls call sourced =>
      sourced.steps (sound.after calls).paired (step_steps _ call)) calls

structure OutputFlow (stream : Stream) (trace : List Event) (system : System) : Prop where
  onWay : Pipe (Runner.sentBytes stream (runnerTrace trace))
    (Peer.receivedBytes stream (peerTrace trace))
    (system.toPeer.flatMap (Runner.Message.outputBytes stream)) True
  atPeer : system.peer.OutputPipe stream (Peer.receivedBytes stream (peerTrace trace))
    (Peer.consumedBytes stream (peerTrace trace))

theorem Sound.output_taken {system : System} (sound : system.Sound limits)
    (delivered : system.toPeer = message :: rest)
    (listening : system.peer.ignoresRunner = false) (stream : Stream)
    (bytes : List UInt8) (carried : message = .output stream bytes) :
    ∃ window, (system.peer.output system.runner.key stream bytes).1 =
      if (system.peer.outputs stream).discarding then
        system.peer.refuseOutput stream window bytes
      else system.peer.holdOutput stream window bytes := by
  subst message
  have sized := sound.sized.toPeer _ (delivered ▸ List.mem_cons_self)
  obtain ⟨_, reads, _⟩ := sound.ordered.output (.inl listening)
  rw [delivered] at reads
  obtain ⟨view, first, _⟩ := reads.exists_of_cons
  rw [← sound.paired.peerLimits] at sized
  cases first with
  | output _ _ unended =>
    have accepted := Peer.output_eq listening unended sized
      (sound.funded.output_fits sound.paired delivered)
    rw [sound.paired.key]
    exact ⟨_, (congrArg Prod.fst accepted).trans (apply_ite Prod.fst _ _ _)⟩

theorem flatMap_toList {Item : Type} (added : Item → List UInt8)
    (item : Option Item) : item.toList.flatMap added = item.elim [] added := by
  cases item <;> simp

theorem OutputFlow.steps (flow : system.OutputFlow stream trace) (sound : system.Sound limits)
    (steps : Steps system next event) :
    next.OutputFlow stream (trace ++ [event]) := by
  obtain ⟨onWay, atPeer⟩ := flow
  -- What the step adds to each of the three histories.
  suffices added : Pipe (Runner.sentBytes stream (runnerTrace trace) ++
          Runner.sentBytes stream (runnerEvent event).toList)
        (Peer.receivedBytes stream (peerTrace trace) ++
          (peerEvent event).elim [] (Peer.receivedBy stream))
        (next.toPeer.flatMap (Runner.Message.outputBytes stream)) True ∧
      next.peer.OutputPipe stream (Peer.receivedBytes stream (peerTrace trace) ++
          (peerEvent event).elim [] (Peer.receivedBy stream))
        (Peer.consumedBytes stream (peerTrace trace) ++
          (peerEvent event).elim [] (Peer.consumedBy stream)) by
    simp only [← flatMap_toList] at added
    constructor
    · rw [runnerTrace_concat, peerTrace_concat, Runner.sentBytes_append,
        Peer.receivedBytes, List.flatMap_append]
      exact added.1
    · rw [peerTrace_concat, Peer.receivedBytes, Peer.consumedBytes,
        List.flatMap_append, List.flatMap_append]
      exact added.2
  have silent : Runner.sentBytes stream [] = [] := rfl
  cases steps with
  | runnerActs call =>
    have unsent : Runner.sentBytes stream [(.act call, (system.runner.act call).2)] = [] := by
      rw [Runner.sentBytes_singleton]
      cases call <;> rfl
    simp only [runnerEvent, peerEvent, Option.toList_some, Option.elim, unsent, List.append_nil]
    exact ⟨onWay, atPeer⟩
  | peerActs call =>
    simp only [runnerEvent, peerEvent, Option.toList_none, Option.elim, silent,
      Peer.receivedBy, List.append_nil]
    exact ⟨onWay, atPeer.act call⟩
  | runnerSends capacity =>
    simp only [runnerEvent, peerEvent, Option.toList_some, Option.elim,
      Runner.sentBytes_singleton, Runner.sent, List.append_nil,
      List.flatMap_append, posted_outputBytes]
    exact ⟨onWay.push trivial _, atPeer⟩
  | peerSends capacity =>
    have emits := sound.paired.peer.emits capacity
    simp only [runnerEvent, peerEvent, Option.toList_none, Option.elim, silent,
      Peer.receivedBy, Peer.consumedBy, List.append_nil]
    exact ⟨onWay, atPeer.emits emits⟩
  | runnerReceives now message rest delivered =>
    simp only [runnerEvent, peerEvent, Option.toList_some, Option.elim,
      Runner.sentBytes_singleton, Runner.sent, Option.toList_none,
      List.flatMap_nil, List.append_nil]
    exact ⟨onWay, atPeer⟩
  | peerReceives now message rest delivered =>
    simp only [runnerEvent, peerEvent, Option.toList_none, Option.elim, silent,
      Peer.receivedBy, Peer.consumedBy, List.append_nil]
    constructor
    · have passes := onWay.pass (message.outputBytes stream).length
      rw [delivered, List.flatMap_cons, List.take_left, List.drop_left] at passes
      exact passes
    · cases ignores : system.peer.ignoresRunner with
      | true =>
        have running : system.peer.terminal = none := by
          by_contra ended
          rw [sound.ordered.toPeer_eq_nil (Option.isSome_iff_ne_none.mpr ended)] at delivered
          simp at delivered
        exact atPeer.receive_of_ignores ignores running now _ message
      | false =>
        exact atPeer.receive ignores now _ message (sound.output_taken delivered ignores)
  | idle call =>
    simp only [runnerEvent, peerEvent, Option.toList_none, Option.elim, silent, List.append_nil]
    exact ⟨onWay, atPeer⟩

theorem OutputFlow.after (stream : Stream) (sound : start.Sound limits) (sent : start.toPeer = [])
    (empty : (start.peer.outputs stream).inbox.bytes = []) (calls : List Call) :
    (machine.after start calls).OutputFlow stream (machine.trace start calls) := by
  refine machine.invariant (OutputFlow stream) ⟨?_, ?_⟩ (fun calls call flow =>
      flow.steps (sound.after calls) (step_steps _ call)) calls
  · rw [sent]
    exact .nil
  · rw [Peer.OutputPipe, empty]
    exact .nil

section Runs

variable (key : Key) (limits : Limits) (runnerTimers peerTimers : Timers)
  (runnerStart peerStart : Instant)

/-- What the sink takes is the start of what the workload wrote.  An outcome
that does not mark a stream as truncated says that the sink took all of it, and
that the runner's adapter reported no loss before the runner's outcome. -/
theorem output_is_whole_or_marked (calls : List Call) (stream : Stream) :
    let start := System.new key limits runnerTimers peerTimers runnerStart peerStart
    let trace := machine.trace start calls
    let written := Runner.taken stream (runnerTrace trace)
    let consumed := Peer.consumedBytes stream (peerTrace trace)
    consumed <+: written ∧
    ∀ outcome, (machine.after start calls).peer.nextEvent.2 =
        some (.finished outcome) → outcome.isTruncated stream = false →
      consumed = written ∧
      ∀ event ∈ Runner.untilTerminal (runnerTrace trace), Runner.loses stream event = false := by
  intro start trace written consumed
  have sound : start.Sound limits :=
    .new key limits runnerTimers peerTimers runnerStart peerStart
  have flow := OutputFlow.after stream sound rfl rfl calls
  obtain ⟨runnerCalls, _, seen⟩ := exists_runner_run start calls
  have pipe := Runner.outputPipe_after sound.paired.runner stream rfl runnerCalls
  rw [← seen] at pipe
  refine ⟨flow.atPeer.passed_prefix.trans (flow.onWay.passed_prefix.trans pipe.passed_prefix), ?_⟩
  intro outcome finished unmarked
  have reached := sound.after calls
  have tells := (machine.after start calls).peer.nextEvent_tells
  rw [finished] at tells
  obtain ⟨terminal, ended, told, whole, empty⟩ :=
    Peer.terminal_of_untruncated tells.outcome_eq unmarked
  have member := (Sourced.after sound rfl rfl calls).terminal terminal ended
  rw [seen] at member
  obtain ⟨allSent, noLoss⟩ := Runner.whole_of_untruncated sound.paired.runner stream rfl member told
  rw [← seen] at allSent noLoss
  have isSome : (machine.after start calls).peer.terminal.isSome = true := by
    rw [ended]
    rfl
  have delivered := flow.onWay
  rw [reached.ordered.toPeer_eq_nil isSome] at delivered
  have allTaken := flow.atPeer
  rw [Peer.OutputPipe, empty] at allTaken
  refine ⟨?_, noLoss⟩
  calc consumed
    _ = Peer.receivedBytes stream (peerTrace trace) :=
        allTaken.passed_eq ⟨.inr isSome, .inl whole⟩
    _ = Runner.sentBytes stream (runnerTrace trace) :=
        delivered.passed_eq trivial
    _ = written := allSent

end Runs

end System

end Nvx.Exec
