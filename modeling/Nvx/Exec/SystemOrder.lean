import Nvx.Data.Channel
import Nvx.Exec.System

namespace Nvx.Exec

open Nvx.Data

/-! The order in which messages may come, for a reader that knows nothing but
the messages before. -/

structure View where
  started : Bool
  ended : Stream → Bool
  terminal : Bool

/-- The runner's messages that may come next, and what each tells. -/
inductive View.Next (view : View) : Runner.Message → View → Prop
  | credit (running : view.terminal = false) (units : Nat) : View.Next view (.credit units) view
  | started (running : view.terminal = false) (first : view.started = false) :
      View.Next view .started { view with started := true }
  | output (running : view.terminal = false) (stream : Stream)
      (unended : view.ended stream = false) (bytes : List UInt8) :
      View.Next view (.output stream bytes) view
  | streamEnd (running : view.terminal = false) (stream : Stream)
      (unended : view.ended stream = false) :
      View.Next view (.streamEnd stream)
        { view with ended := Function.update view.ended stream true }
  | inputClosed (running : view.terminal = false) : View.Next view .inputClosed view
  | terminal (running : view.terminal = false)
      (ended : ∀ stream, view.ended stream = true) (outcome : Outcome) :
      View.Next view (.terminal outcome) { view with terminal := true }

theorem View.Next.running (reads : Next view message next) : view.terminal = false := by
  cases reads <;> assumption

/-- The peer's messages that may come next, and whether the input ended. -/
inductive InputNext (ended : Bool) : Peer.Message → Bool → Prop
  | cancel (cause : Cause) : InputNext ended (.cancel cause) ended
  | credit (pool : Pool) (units : Nat) : InputNext ended (.credit pool units) ended
  | input (unended : ended = false) (bytes : List UInt8) : InputNext ended (.input bytes) ended
  | inputEnd (unended : ended = false) : InputNext ended .inputEnd true

theorem InputNext.eq_of_ended (reads : InputNext true message last) : last = true := by
  cases reads with
  | input unended => simp at unended
  | inputEnd unended => rfl
  | _ => rfl

namespace Runner

/-- The runner may go on from `view`, which all that it sent leads to. -/
structure Seen (runner : Runner) (view : View) : Prop where
  started : view.started = true → runner.startedMessage = false ∧ runner.awaitsLaunch = false
  ended : ∀ stream, view.ended stream = (runner.outputs stream).ended
  terminal : view.terminal = true → runner.finished = true

namespace Seen

variable {runner next : Runner}

theorem of_unsent (seen : runner.Seen view) (later : runner.Later next)
    (unsent : runner.Unsent next) : next.Seen view where
  started := fun started => by
    obtain ⟨noMessage, launched⟩ := seen.started started
    constructor
    · by_contra message
      rcases later.startedMessage (by simpa using message) with earlier | awaits
      · simp [noMessage] at earlier
      · simp [launched] at awaits
    · by_contra awaits
      simp [later.awaitsLaunch (by simpa using awaits)] at launched
  ended := fun stream => (seen.ended stream).trans (unsent.ended stream).symm
  terminal := fun ended => unsent.finished.trans (seen.terminal ended)

theorem running (seen : runner.Seen view)
    (unfinished : runner.finished = false) : view.terminal = false := by
  by_contra ended
  simp [seen.terminal (by simpa using ended)] at unfinished

theorem emits (seen : runner.Seen view) (consistent : runner.Consistent)
    (emits : Emits runner capacity next message) :
    ∃ last, Reads View.Next view (System.posted runner message) last ∧
      next.Seen last := by
  cases emits with
  | credit speaks accepts positive =>
    exact ⟨view, .singleton (.credit (seen.running speaks.unfinished) _), { seen with }⟩
  | started speaks waiting =>
    have first : view.started = false := by
      by_contra started
      simp [(seen.started (by simpa using started)).1] at waiting
    have launched := (consistent.life.started waiting).1
    refine ⟨{ view with started := true },
      .singleton (.started (seen.running speaks.unfinished) first),
      { seen with started := fun _ => ⟨rfl, ?_⟩ }⟩
    simp [awaitsLaunch, Option.isSome_iff_ne_none.mp launched]
  | inputClosed speaks waiting =>
    exact ⟨view, .singleton (.inputClosed (seen.running speaks.unfinished)), { seen with }⟩
  | streamEnd stream speaks started launched ending =>
    have unended : view.ended stream = false := by
      simp only [endsNow, Bool.and_eq_true, Bool.not_eq_true'] at ending
      rw [seen.ended, ending.2]
    refine ⟨{ view with ended := Function.update view.ended stream true }, .singleton
        (.streamEnd (seen.running speaks.unfinished) stream unended),
      { started := fun _ => ⟨started, launched⟩
        ended := fun other => ?_
        terminal := seen.terminal }⟩
    simp only [Function.update_apply]
    split
    · rfl
    · exact seen.ended other
  | output stream length speaks started launched positive queued =>
    have unended : view.ended stream = false := by
      rw [seen.ended]
      by_contra ended
      rw [((consistent.outputs stream).ended (by simpa using ended)).2,
        List.length_nil] at queued
      omega
    refine ⟨view, .singleton (.output (seen.running speaks.unfinished) stream unended _),
      { started := fun _ => ⟨started, launched⟩
        ended := fun other => ?_
        terminal := seen.terminal }⟩
    rw [seen.ended]
    refine (update_field Output.ended ?_ other).symm
    rfl
  | terminal outcome unfinished ended quiet =>
    cases detached : runner.detached with
    | true =>
      simp only [System.posted, detached, if_true]
      exact ⟨view, .nil view, { seen with terminal := fun _ => rfl }⟩
    | false =>
      have concluded := (outcome_eq_some_iff.mp ended).1
      have told (stream : Stream) : view.ended stream = true := by
        rw [seen.ended]
        simpa [detached] using (delivered_iff.mp (concluded.delivered stream)).2
      simp only [System.posted, detached, Bool.false_eq_true, if_false]
      exact ⟨{ view with terminal := true },
        .singleton (.terminal (seen.running unfinished) told outcome),
        { seen with terminal := fun _ => rfl }⟩
  | nothing quiet => exact ⟨view, .nil view, seen⟩

end Seen

end Runner

namespace Peer

def view (peer : Peer) : View where
  started := peer.started
  ended := fun stream => (peer.outputs stream).ended
  terminal := peer.terminal.isSome

/-- A peer that takes the runner's messages, or has taken the last one. -/
def Listens (peer : Peer) : Prop :=
  peer.ignoresRunner = false ∨ peer.terminal.isSome = true

theorem Framed.view_eq (framed : Framed peer next) :
    next.view = peer.view := by
  simp only [view, framed.started, framed.terminal, framed.ended]

theorem Later.ignoresRunner (later : Later peer next)
    (ignores : peer.ignoresRunner = true) : next.ignoresRunner = true := by
  simp only [Peer.ignoresRunner, Bool.or_eq_true] at ignores ⊢
  exact ignores.imp (Or.imp later.finished later.detached) later.gaveUp

/-- A peer that listens after a change that brings no outcome listened
before. -/
theorem Listens.of_later (listens : Listens next)
    (later : Later peer next) (terminal : next.terminal = peer.terminal) :
    peer.Listens := by
  rcases listens with listening | ended
  · left
    by_contra ignores
    simp [later.ignoresRunner (by simpa using ignores)] at listening
  · right
    rw [← terminal]
    exact ended

theorem Framed.evolves (chain : Evolves peer next) :
    peer.Framed next :=
  (Framed.locallyKept peer).evolves chain (.refl peer)

theorem Emits.view_eq (emits : Emits peer capacity next message) :
    next.view = peer.view := by
  cases emits <;> rfl

theorem acceptTerminal_view (now : Instant) (outcome : Outcome)
    (unfinished : finished peer = false) :
    (peer.acceptTerminal now outcome).view = { peer.view with terminal := true } := by
  rw [(Framed.evolves (acceptTerminal_evolves now outcome unfinished)).view_eq, closeInput_eq]
  rfl

theorem charged_view (peer : Peer) (stream : Stream) (window : Granted) (bytes : List UInt8) :
    (if (peer.outputs stream).discarding then
        peer.refuseOutput stream window bytes
      else peer.holdOutput stream window bytes).view = peer.view := by
  have ended {incoming : Incoming} (same : incoming.ended = (peer.outputs stream).ended) :
      (peer.setOutput stream incoming).view = peer.view := by
    simp only [view, setOutput, View.mk.injEq, true_and, and_true]
    funext other
    exact update_field Incoming.ended same other
  split
  · exact ended rfl
  · exact ended rfl

/-- A message in order has the effect that it has on the view, unless it comes
so late that the peer gives up before it. -/
theorem receive_view (listening : ignoresRunner peer = false)
    (reads : peer.view.Next message last) (now : Instant) :
    (peer.receive now peer.key message).1.view = last ∨
      (peer.receive now peer.key message).1.ignoresRunner = true ∧
        (peer.receive now peer.key message).1.terminal = none := by
  have running : peer.terminal = none := by
    simpa [view] using reads.running
  cases reads with
  | credit _ units =>
    left
    rcases peer.receiveCredit_cases peer.key units with
      same | ⟨granted, _, _, granting⟩
    · rw [receive, same]
    · rw [receive, granting]
      rfl
  | started _ first =>
    left
    have unstarted : peer.started = false := first
    simp [receive, receiveStarted, listening, unstarted, running, view]
  | output _ stream unended bytes =>
    left
    rcases peer.output_cases peer.key stream bytes with
      same | ⟨window, _, _, _, _, accepted⟩
    · rw [receive, same]
    · rw [receive, accepted]
      exact peer.charged_view stream window bytes
  | streamEnd _ stream unended =>
    left
    have notYet : (peer.outputs stream).ended = false := unended
    simp only [receive, endOutput, Key.receive_self, listening, notYet,
      Bool.false_eq_true, if_false, view, setOutput, View.mk.injEq, true_and,
      and_true]
    funext other
    simp only [Function.update_apply]
    split <;> rfl
  | inputClosed _ =>
    left
    exact (Framed.evolves (peer.inputClosed_evolves peer.key)).view_eq
  | terminal _ ended outcome =>
    have framed := Framed.evolves (peer.tick_evolves now)
    simp only [receive, receiveTerminal, Key.receive_self, framed.terminal, framed.ended, running]
    split
    · rename_i ignores
      exact .inr ⟨ignores, framed.terminal.trans running⟩
    · rename_i still
      left
      have told (stream : Stream) : (peer.outputs stream).ended = true :=
        ended stream
      have unfinished : (peer.tick now).finished = false := by
        simp only [ignoresRunner, Bool.or_eq_true, not_or, Bool.not_eq_true] at still
        exact still.1.1
      simp only [Option.isSome_none, Bool.false_eq_true, if_false, told,
        Bool.and_self, Bool.not_true]
      rw [acceptTerminal_view now outcome unfinished, framed.view_eq]

theorem receive_of_ignores (ignores : ignoresRunner peer = true)
    (now : Instant) (key : Key) (message : Runner.Message) :
    (peer.receive now key message).1 = peer ∨ (peer.receive now key message).1 = peer.tick now := by
  have still {holds : Prop} (listening : peer.ignoresRunner = false) : holds :=
    (Bool.eq_false_iff.mp listening ignores).elim
  cases message with
  | credit units =>
    left
    rcases peer.receiveCredit_cases key units with same | ⟨_, _, listening, _⟩
    · exact same
    · exact still listening
  | started =>
    left
    rcases peer.receiveStarted_cases key with same | ⟨listening, _⟩
    · exact same
    · exact still listening
  | output stream bytes =>
    left
    rcases peer.output_cases key stream bytes with
      same | ⟨_, _, _, listening, _⟩
    · exact same
    · exact still listening
  | streamEnd stream =>
    left
    rcases peer.endOutput_cases key stream with same | ⟨listening, _⟩
    · exact same
    · exact still listening
  | inputClosed =>
    left
    simp only [receive, inputClosed, ignores, Bool.true_or, if_true]
    rcases Key.receive_cases peer.key key peer (peer, .ok .late) with
      same | same
    · exact same
    · rw [same]
  | terminal outcome =>
    have ticked : (peer.tick now).ignoresRunner = true :=
      ((Later.kept peer).toLocallyKept.evolves (peer.tick_evolves now)
        (.refl peer)).ignoresRunner ignores
    rcases peer.receiveTerminal_cases now key outcome with
      same | ticks | ⟨listening, _⟩
    · exact .inl same
    · exact .inr ticks
    · exact absurd ticked (Bool.eq_false_iff.mp listening)

end Peer

namespace Runner

theorem Framed.evolves (chain : Evolves runner next) :
    runner.Framed next :=
  (Framed.locallyKept runner).evolves chain (.refl runner)

theorem receive_of_finished (finished : finished runner = true)
    (now : Instant) (key : Key) (message : Peer.Message) :
    (runner.receive now key message).1 = runner := by
  have still {holds : Prop} (unfinished : runner.finished = false) : holds :=
    (Bool.eq_false_iff.mp unfinished finished).elim
  cases message with
  | cancel cause =>
    have late : (runner.cancel now key cause).1 = runner := by
      have ticked : runner.tick now = runner := by simp [tick, finished]
      simp only [cancel, ticked, finished, Bool.true_or, if_true]
      rcases Key.receive_cases runner.key key runner (runner, .ok .late) with
        same | same
      · exact same
      · rw [same]
    exact late
  | credit pool units =>
    rcases runner.credit_cases key pool units with
      same | ⟨_, _, _, _, unfinished, _⟩
    · exact same
    · exact still unfinished
  | input bytes =>
    rcases runner.receiveInput_cases key bytes with
      same | ⟨_, _, _, unfinished, _⟩
    · exact same
    · exact still unfinished
  | inputEnd =>
    rcases runner.endInput_cases key with same | ⟨unfinished, _⟩
    · exact same
    · exact still unfinished

theorem receive_peerEnded (unfinished : finished runner = false)
    (reads : InputNext runner.input.peerEnded message ended) (now : Instant) :
    (runner.receive now runner.key message).1.input.peerEnded = ended := by
  cases reads with
  | cancel cause =>
    exact (Framed.evolves (runner.cancel_evolves now runner.key cause)).peerEnded
  | credit pool units =>
    rcases runner.credit_cases runner.key pool units with
      same | ⟨_, _, _, _, _, granting⟩
    · rw [receive, same]
    · rw [receive, granting]
  | input unended bytes =>
    rcases runner.receiveInput_cases runner.key bytes with
      same | ⟨_, _, _, _, _, accepted⟩
    · rw [receive, same]
    · rw [receive, accepted]
      split <;> rfl
  | inputEnd unended =>
    simp only [receive, endInput, Key.receive_self, unfinished, unended,
      Bool.false_eq_true, if_false]
    split
    · rfl
    · exact (Framed.evolves (closeInputWhenTaken_evolves _)).peerEnded

end Runner

namespace System

structure Ordered (system : System) : Prop where
  output : system.peer.Listens → ∃ last, Reads View.Next system.peer.view system.toPeer last ∧
      system.runner.Seen last
  input : system.runner.finished = false ∨ system.runner.input.peerEnded = true →
    Reads InputNext system.runner.input.peerEnded system.toRunner system.peer.input.endSent

namespace Ordered

theorem new (key : Key) (limits : Limits) (runnerTimers peerTimers : Timers)
    (runnerStart peerStart : Instant) :
    (System.new key limits runnerTimers peerTimers runnerStart peerStart).Ordered where
  output := fun _ => ⟨_, .nil _, by
    constructor <;> simp [System.new, Peer.new, Peer.view, Peer.Incoming.new,
      Runner.new, Runner.Output.new]⟩
  input := fun _ => .nil _

variable {system : System}

theorem toPeer_eq_nil (ordered : system.Ordered)
    (ended : system.peer.terminal.isSome = true) : system.toPeer = [] := by
  obtain ⟨last, reads, _⟩ := ordered.output (.inr ended)
  refine reads.eq_nil_of_stuck fun message middle first => ?_
  have running := first.running
  simp [Peer.view, ended] at running

theorem runnerActs (ordered : system.Ordered) (paired : system.Paired limits)
    (call : Runner.LocalCall) :
    { system with runner := (system.runner.act call).1 }.Ordered := by
  have framed := Runner.Framed.act system.runner call
  have later := paired.runner.later (.act call)
  refine ⟨fun listens => ?_, ?_⟩
  · obtain ⟨last, reads, seen⟩ := ordered.output listens
    exact ⟨last, reads, seen.of_unsent later framed.toUnsent⟩
  · simp only [framed.finished, framed.peerEnded]
    exact ordered.input

theorem peerActs (ordered : system.Ordered) (paired : system.Paired limits)
    (call : Peer.LocalCall) :
    { system with peer := (system.peer.act call).1 }.Ordered := by
  have framed := Peer.Framed.act system.peer call
  have later := paired.peer.later (.act call)
  refine ⟨fun listens => ?_, ?_⟩
  · simp only [framed.view_eq]
    exact ordered.output (listens.of_later later framed.terminal)
  · simp only [framed.endSent]
    exact ordered.input

theorem runnerSends (ordered : system.Ordered) (paired : system.Paired limits)
    (emits : Runner.Emits system.runner capacity next message) :
    { system with
      runner := next
      toPeer := system.toPeer ++ posted system.runner message }.Ordered := by
  refine ⟨fun listens => ?_, fun live => ?_⟩
  · obtain ⟨middle, reads, seen⟩ := ordered.output listens
    obtain ⟨last, others, stillSeen⟩ := seen.emits paired.runner emits
    exact ⟨last, reads.append others, stillSeen⟩
  · have same : next.input.peerEnded = system.runner.input.peerEnded := by
      cases emits <;> rfl
    have later := Runner.Later.emits emits
    simp only [same] at live ⊢
    exact ordered.input (live.imp (Runner.Later.false_of_kept later.finished) id)

theorem peerSends (ordered : system.Ordered) (paired : system.Paired limits)
    (emits : Peer.Emits system.peer capacity next message) :
    { system with
      peer := next
      toRunner := system.toRunner ++ message.toList }.Ordered := by
  refine ⟨fun listens => ?_, fun live => ?_⟩
  · have terminal : next.terminal = system.peer.terminal := by
      cases emits <;> rfl
    simp only [emits.view_eq]
    exact ordered.output (listens.of_later (.emits emits) terminal)
  · refine (ordered.input live).append ?_
    cases emits with
    | cancel speaks waiting => exact .singleton (.cancel _)
    | credit index pool turn => exact .singleton (.credit pool _)
    | input length turn speaks stillOpen positive queued =>
      have unended : system.peer.input.endSent = false := by
        by_contra ended
        rw [(paired.peer.input.endSent (by simpa using ended)).2,
          List.length_nil] at queued
        omega
      exact .singleton (.input unended _)
    | inputEnd turn speaks stillOpen ended empty first =>
      exact .singleton (.inputEnd first)
    | nothing quiet => exact .nil _

theorem runnerReceives (ordered : system.Ordered) (paired : system.Paired limits) (now : Instant)
    (delivered : system.toRunner = message :: rest) :
    { system with
      runner := (system.runner.receive now system.peer.key message).1
      toRunner := rest }.Ordered := by
  have unsent := Runner.Unsent.receive system.runner now system.peer.key message
  have later := paired.runner.later (.receive now system.peer.key message)
  refine ⟨fun listens => ?_, fun live => ?_⟩
  · obtain ⟨last, reads, seen⟩ := ordered.output listens
    exact ⟨last, reads, seen.of_unsent later unsent⟩
  · have reads := ordered.input
    rw [delivered] at reads
    cases finished : system.runner.finished with
    | true =>
      rw [Runner.receive_of_finished finished] at live ⊢
      have ended : system.runner.input.peerEnded = true :=
        live.resolve_left (by simp [finished])
      obtain ⟨middle, first, others⟩ := (reads (.inr ended)).exists_of_cons
      rw [ended] at first
      simpa only [first.eq_of_ended, ended] using others
    | false =>
      obtain ⟨middle, first, others⟩ := (reads (.inl finished)).exists_of_cons
      rw [← paired.key]
      simp only [Runner.receive_peerEnded finished first now]
      exact others

theorem peerReceives (ordered : system.Ordered) (paired : system.Paired limits) (now : Instant)
    (delivered : system.toPeer = message :: rest) :
    { system with
      peer := (system.peer.receive now system.runner.key message).1
      toPeer := rest }.Ordered := by
  refine ⟨fun listens => ?_, fun live => ?_⟩
  · cases ignores : system.peer.ignoresRunner with
    | true =>
      exfalso
      have later := paired.peer.later (.receive now system.runner.key message)
      have terminal : (system.peer.receive now system.runner.key
          message).1.terminal = system.peer.terminal := by
        rcases Peer.receive_of_ignores ignores now system.runner.key message with same | ticks
        · rw [same]
        · rw [ticks]
          exact (Peer.Framed.evolves (system.peer.tick_evolves now)).terminal
      have ended : system.peer.terminal.isSome = true :=
        (listens.of_later later terminal).resolve_left (by simp [ignores])
      simp [ordered.toPeer_eq_nil ended] at delivered
    | false =>
      obtain ⟨last, reads, seen⟩ := ordered.output (.inl ignores)
      rw [delivered] at reads
      obtain ⟨middle, first, others⟩ := reads.exists_of_cons
      rw [paired.key] at listens ⊢
      rcases Peer.receive_view ignores first now with same | ⟨gone, none⟩
      · refine ⟨last, ?_, seen⟩
        rw [same]
        exact others
      · rcases listens with listening | ended
        · simp [gone] at listening
        · simp [none] at ended
  · have same := (Peer.remotelyKept_unended system.peer).receive system.peer now
      system.runner.key message ⟨rfl, rfl, rfl⟩
    simp only [same.2.2]
    exact ordered.input live

theorem kept (limits : Limits) : KeptUnder (Paired limits) Ordered where
  runnerActs := fun call paired ordered => ordered.runnerActs paired call
  peerActs := fun call paired ordered => ordered.peerActs paired call
  runnerSends := fun emits paired ordered => ordered.runnerSends paired emits
  peerSends := fun emits paired ordered => ordered.peerSends paired emits
  runnerReceives := fun now _ _ delivered paired ordered =>
    ordered.runnerReceives paired now delivered
  peerReceives := fun now _ _ delivered paired ordered =>
    ordered.peerReceives paired now delivered

end Ordered

end System

end Nvx.Exec
