import Nvx.Exec.PeerHistory
import Nvx.Exec.RunnerHistory

namespace Nvx.Exec

open Nvx.Data

/-! The two sides of an execution, joined by a reliable channel each way. -/

structure System where
  runner : Runner
  peer : Peer
  toPeer : List Runner.Message
  toRunner : List Peer.Message

namespace System

def new (key : Key) (limits : Limits) (runnerTimers peerTimers : Timers)
    (runnerStart peerStart : Instant) : System where
  runner := Runner.new key limits runnerTimers runnerStart
  peer := Peer.new key limits peerTimers peerStart
  toPeer := []
  toRunner := []

/-- What goes to the peer of what the runner returned: a terminal outcome of a
runner without a peer is kept. -/
def posted (runner : Runner) : Option Runner.Message → List Runner.Message
  | none => []
  | some (.terminal outcome) =>
    if runner.detached then [] else [.terminal outcome]
  | some message => [message]

/-- The calls on either side, and the deliveries of the oldest message of each
channel. -/
inductive Call where
  | runner (call : Runner.LocalCall)
  | peer (call : Peer.LocalCall)
  | runnerSends (capacity : Nat)
  | peerSends (capacity : Nat)
  | runnerReceives (now : Instant)
  | peerReceives (now : Instant)

/-- The call that was made on a side, with what it returned there; none, if
there was nothing to deliver. -/
inductive Return where
  | runner (event : Runner.Call × Runner.Return)
  | peer (event : Peer.Call × Peer.Return)
  | idle

def callRunner (system : System) (call : Runner.Call) : System × Return :=
  ({ system with runner := (system.runner.step call).1 },
    .runner (call, (system.runner.step call).2))

def callPeer (system : System) (call : Peer.Call) : System × Return :=
  ({ system with peer := (system.peer.step call).1 }, .peer (call, (system.peer.step call).2))

def step (system : System) : Call → System × Return
  | .runner call => system.callRunner (.act call)
  | .peer call => system.callPeer (.act call)
  | .runnerSends capacity =>
    let message := (system.runner.nextMessage capacity).2
    { system with
      toPeer := system.toPeer ++ posted system.runner message
      }.callRunner (.nextMessage capacity)
  | .peerSends capacity =>
    let message := (system.peer.nextMessage capacity).2
    { system with
      toRunner := system.toRunner ++ message.toList
      }.callPeer (.nextMessage capacity)
  | .runnerReceives now =>
    match system.toRunner with
    | [] => (system, .idle)
    | message :: rest =>
      { system with toRunner := rest }.callRunner (.receive now system.peer.key message)
  | .peerReceives now =>
    match system.toPeer with
    | [] => (system, .idle)
    | message :: rest =>
      { system with toPeer := rest }.callPeer (.receive now system.runner.key message)

def machine : Machine System Call Return := ⟨step⟩

abbrev Event := Call × Return

def runnerEvent : Event → Option (Runner.Call × Runner.Return)
  | (_, .runner event) => some event
  | _ => none

def peerEvent : Event → Option (Peer.Call × Peer.Return)
  | (_, .peer event) => some event
  | _ => none

def runnerTrace (trace : List Event) : List (Runner.Call × Runner.Return) :=
  trace.filterMap runnerEvent

def peerTrace (trace : List Event) : List (Peer.Call × Peer.Return) :=
  trace.filterMap peerEvent

/-- What a step does: a call on one side, with what it puts on a channel or takes
from one, or nothing. -/
inductive Steps (system : System) : System → Event → Prop
  | runnerActs (call : Runner.LocalCall) :
      Steps system { system with runner := (system.runner.act call).1 }
        (.runner call, .runner (.act call, (system.runner.act call).2))
  | peerActs (call : Peer.LocalCall) : Steps system { system with peer := (system.peer.act call).1 }
        (.peer call, .peer (.act call, (system.peer.act call).2))
  | runnerSends (capacity : Nat) : Steps system
        { system with
          runner := (system.runner.nextMessage capacity).1
          toPeer := system.toPeer ++
            posted system.runner (system.runner.nextMessage capacity).2 }
        (.runnerSends capacity, .runner (.nextMessage capacity,
          .message (system.runner.nextMessage capacity).2))
  | peerSends (capacity : Nat) : Steps system
        { system with
          peer := (system.peer.nextMessage capacity).1
          toRunner := system.toRunner ++
            (system.peer.nextMessage capacity).2.toList }
        (.peerSends capacity, .peer (.nextMessage capacity,
          .message (system.peer.nextMessage capacity).2))
  | runnerReceives (now : Instant) (message : Peer.Message) (rest : List Peer.Message)
      (delivered : system.toRunner = message :: rest) :
      Steps system
        { system with
          runner := (system.runner.receive now system.peer.key message).1
          toRunner := rest }
        (.runnerReceives now, .runner (.receive now system.peer.key message,
          .received (system.runner.receive now system.peer.key message).2))
  | peerReceives (now : Instant) (message : Runner.Message) (rest : List Runner.Message)
      (delivered : system.toPeer = message :: rest) :
      Steps system
        { system with
          peer := (system.peer.receive now system.runner.key message).1
          toPeer := rest }
        (.peerReceives now, .peer (.receive now system.runner.key message,
          .received (system.peer.receive now system.runner.key message).2))
  | idle (call : Call) : Steps system system (call, .idle)

theorem step_steps (system : System) (call : Call) :
    Steps system (system.step call).1 (call, (system.step call).2) := by
  cases call with
  | runner call => exact .runnerActs call
  | peer call => exact .peerActs call
  | runnerSends capacity => exact .runnerSends capacity
  | peerSends capacity => exact .peerSends capacity
  | runnerReceives now =>
    unfold step
    cases delivered : system.toRunner with
    | nil => exact .idle _
    | cons message rest => exact .runnerReceives now message rest delivered
  | peerReceives now =>
    unfold step
    cases delivered : system.toPeer with
    | nil => exact .idle _
    | cons message rest => exact .peerReceives now message rest delivered

theorem Steps.runner (steps : Steps system next event) :
    (∃ call, next.runner = (system.runner.step call).1 ∧
        runnerEvent event = some (call, (system.runner.step call).2)) ∨
      next.runner = system.runner ∧ runnerEvent event = none := by
  cases steps with
  | runnerActs call => exact .inl ⟨.act call, rfl, rfl⟩
  | runnerSends capacity => exact .inl ⟨.nextMessage capacity, rfl, rfl⟩
  | runnerReceives now message => exact .inl ⟨.receive now _ message, rfl, rfl⟩
  | _ => exact .inr ⟨rfl, rfl⟩

theorem Steps.peer (steps : Steps system next event) :
    (∃ call, next.peer = (system.peer.step call).1 ∧
        peerEvent event = some (call, (system.peer.step call).2)) ∨
      next.peer = system.peer ∧ peerEvent event = none := by
  cases steps with
  | peerActs call => exact .inl ⟨.act call, rfl, rfl⟩
  | peerSends capacity => exact .inl ⟨.nextMessage capacity, rfl, rfl⟩
  | peerReceives now message => exact .inl ⟨.receive now _ message, rfl, rfl⟩
  | _ => exact .inr ⟨rfl, rfl⟩

theorem exists_runner_run (start : System) (calls : List Call) : ∃ runnerCalls,
      (machine.after start calls).runner = Runner.machine.after start.runner runnerCalls ∧
      runnerTrace (machine.trace start calls) = Runner.machine.trace start.runner runnerCalls :=
  machine.exists_run_of_part Runner.machine System.runner runnerEvent
    (fun system call => (step_steps system call).runner) start calls

theorem exists_peer_run (start : System) (calls : List Call) : ∃ peerCalls,
      (machine.after start calls).peer = Peer.machine.after start.peer peerCalls ∧
      peerTrace (machine.trace start calls) = Peer.machine.trace start.peer peerCalls :=
  machine.exists_run_of_part Peer.machine System.peer peerEvent
    (fun system call => (step_steps system call).peer) start calls

structure Paired (limits : Limits) (system : System) : Prop where
  runner : system.runner.Consistent
  peer : system.peer.Consistent
  key : system.runner.key = system.peer.key
  runnerLimits : system.runner.limits = limits
  peerLimits : system.peer.limits = limits

namespace Paired

theorem new (key : Key) (limits : Limits) (runnerTimers peerTimers : Timers)
    (runnerStart peerStart : Instant) :
    (System.new key limits runnerTimers peerTimers runnerStart peerStart).Paired limits where
  runner := .new key limits runnerTimers runnerStart
  peer := .new key limits peerTimers peerStart
  key := rfl
  runnerLimits := rfl
  peerLimits := rfl

theorem later_runner (paired : system.Paired limits)
    (steps : Steps system next event) : system.runner.Later next.runner := by
  rcases steps.runner with ⟨call, stepped, _⟩ | ⟨same, _⟩
  · rw [stepped]
    exact paired.runner.later call
  · rw [same]
    exact .refl _

theorem later_peer (paired : system.Paired limits)
    (steps : Steps system next event) : system.peer.Later next.peer := by
  rcases steps.peer with ⟨call, stepped, _⟩ | ⟨same, _⟩
  · rw [stepped]
    exact paired.peer.later call
  · rw [same]
    exact .refl _

theorem steps (paired : system.Paired limits) (steps : Steps system next event) :
    next.Paired limits where
  runner := by
    rcases steps.runner with ⟨call, stepped, _⟩ | ⟨same, _⟩
    · rw [stepped]
      exact paired.runner.step call
    · rw [same]
      exact paired.runner
  peer := by
    rcases steps.peer with ⟨call, stepped, _⟩ | ⟨same, _⟩
    · rw [stepped]
      exact paired.peer.step call
    · rw [same]
      exact paired.peer
  key := by
    rw [(paired.later_runner steps).key, (paired.later_peer steps).key]
    exact paired.key
  runnerLimits := (paired.later_runner steps).limits.trans paired.runnerLimits
  peerLimits := (paired.later_peer steps).limits.trans paired.peerLimits

end Paired

/-- What the steps have to keep for `holds` to persist across them in the states
that satisfy `Inv`. -/
structure KeptUnder (Inv holds : System → Prop) : Prop where
  runnerActs : ∀ {system} call, Inv system → holds system →
    holds { system with runner := (system.runner.act call).1 }
  peerActs : ∀ {system} call, Inv system → holds system →
    holds { system with peer := (system.peer.act call).1 }
  runnerSends : ∀ {system capacity next message},
    Runner.Emits system.runner capacity next message → Inv system →
    holds system → holds { system with
      runner := next
      toPeer := system.toPeer ++ posted system.runner message }
  peerSends : ∀ {system capacity next message},
    Peer.Emits system.peer capacity next message → Inv system →
    holds system → holds { system with
      peer := next
      toRunner := system.toRunner ++ message.toList }
  runnerReceives : ∀ {system} now {message rest},
    system.toRunner = message :: rest → Inv system → holds system →
    holds { system with
      runner := (system.runner.receive now system.peer.key message).1
      toRunner := rest }
  peerReceives : ∀ {system} now {message rest},
    system.toPeer = message :: rest → Inv system → holds system →
    holds { system with
      peer := (system.peer.receive now system.runner.key message).1
      toPeer := rest }

theorem KeptUnder.steps {Inv holds : System → Prop} (kept : KeptUnder Inv holds)
    (steps : Steps system next event) (paired : system.Paired limits)
    (inv : Inv system) (held : holds system) : holds next := by
  cases steps with
  | runnerActs call => exact kept.runnerActs call inv held
  | peerActs call => exact kept.peerActs call inv held
  | runnerSends capacity =>
    exact kept.runnerSends (Runner.nextMessage_emits
      paired.runner.sound.opened_lt capacity) inv held
  | peerSends capacity =>
    exact kept.peerSends (paired.peer.emits capacity) inv held
  | runnerReceives now message rest delivered =>
    exact kept.runnerReceives now delivered inv held
  | peerReceives now message rest delivered =>
    exact kept.peerReceives now delivered inv held
  | idle call => exact held

end System

end Nvx.Exec
