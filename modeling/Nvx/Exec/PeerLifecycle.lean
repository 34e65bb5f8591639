import Nvx.Exec.PeerMemory

namespace Nvx.Exec.Peer

open Nvx.Data

/-! How far the execution has come, as the peer's flags tell. -/

structure Lifecycle (peer : Peer) : Prop where
  grace : peer.graceUntil.isSome = true → peer.terminatedAt.isSome = true
  giveUpAt : peer.giveUpAt.isSome = true → peer.terminatedAt.isSome = true ∧ peer.terminal = none
  terminationCloses : peer.terminatedAt.isSome = true → peer.input.closed = true
  terminalCloses : peer.terminal.isSome = true → peer.input.closed = true
  gaveUp : peer.gaveUp = true → peer.terminatedAt.isSome = true ∧ peer.terminal = none
  detached : peer.detached = true → peer.terminatedAt.isSome = true
  timeout : peer.timeoutAt.isSome = true → peer.terminatedAt = none ∧ peer.terminal = none
  cause : peer.cause.isSome = true → peer.terminatedAt.isSome = true
  terminated : peer.terminatedAt.isSome = true → peer.cause.isSome = true ∨
    ∃ outcome, peer.terminal = some outcome ∧ outcome.cause.isSome = true
  cancel : peer.cancelMessage = true → peer.cause.isSome = true
  finished : peer.finished = true → peer.baseOutcome.isSome = true

/-- Nothing is left of an output that the peer drops, and it drops none before
an ending. -/
structure OutputState (peer : Peer) (incoming : Incoming) : Prop where
  discarding : incoming.discarding = true → peer.terminatedAt.isSome = true
  truncated : incoming.truncated = true → peer.terminatedAt.isSome = true
  dropped : incoming.discarding = true → incoming.inbox.bytes = []
  gaveUp : peer.gaveUp = true → incoming.discarding = true
  terminal : peer.terminal.isSome = true → incoming.ended = true

def OutputsState (peer : Peer) : Prop :=
  ∀ stream, peer.OutputState (peer.outputs stream)

structure InputState (peer : Peer) : Prop where
  empty : peer.input.closed = true → peer.input.queue = []
  endSent : peer.input.endSent = true → peer.input.ended = true ∧ peer.input.queue = []

theorem baseOutcome_isSome_iff {peer : Peer} : peer.baseOutcome.isSome = true ↔
      peer.terminal.isSome = true ∨ peer.detached = true ∨ peer.gaveUp = true := by
  unfold baseOutcome
  cases terminal : peer.terminal with
  | some outcome => simp
  | none =>
    cases detached : peer.detached <;> cases gaveUp : peer.gaveUp <;> simp

theorem markOutcome_eq (peer : Peer) (outcome : Outcome) : peer.markOutcome outcome =
      { outcome with
        cause := outcome.cause.or peer.cause
        truncated := fun stream =>
          outcome.truncated stream || (peer.outputs stream).truncated } := by
  unfold markOutcome
  simp only [Outcome.withTruncations_eq]
  cases caused : outcome.cause <;> cases own : peer.cause <;>
    simp [Outcome.withCause, caused]

theorem outcome_eq_some_iff {outcome : Outcome} : Peer.outcome peer = some outcome ↔
      (∀ stream, (peer.outputs stream).inbox.bytes = []) ∧ ∃ base, peer.baseOutcome = some base ∧
          peer.markOutcome base = outcome := by
  rw [Stream.forall_iff, ← Option.map_eq_some_iff]
  unfold Peer.outcome isEmpty
  split
  · rename_i held
    simp only [Bool.not_eq_true', Bool.and_eq_false_iff] at held
    simp only [reduceCtorEq, false_iff, not_and]
    rintro ⟨stdout, stderr⟩
    simp [stdout, stderr] at held
  · rename_i empty
    simp only [Bool.not_eq_true', Bool.not_eq_false, Bool.and_eq_true, List.isEmpty_iff] at empty
    simp [empty]

theorem endGrace_eq (peer : Peer) :
    peer.endGrace = { peer with
      graceUntil := none
      outputs := peer.endGrace.outputs
      windows := peer.endGrace.windows } := rfl

namespace Lifecycle

theorem new (key : Key) (limits : Limits) (timers : Timers) (now : Instant) :
    (Peer.new key limits timers now).Lifecycle := by
  constructor <;> simp [Peer.new]

variable {peer next : Peer}

theorem change (change : Change peer next) (life : peer.Lifecycle) :
    next.Lifecycle := by
  cases change with
  | stopTimeout => exact { life with timeout := by simp }
  | closeInput stillOpen =>
    exact { life with
      terminationCloses := fun _ => rfl
      terminalCloses := fun _ => rfl }
  | terminate now cause first unfinished closed =>
    exact { life with
      grace := fun _ => rfl
      giveUpAt := fun waiting => by
        refine ⟨rfl, ?_⟩
        cases ended : peer.terminal with
        | none => exact ended
        | some outcome =>
          have earlier : peer.giveUpAt.isSome = true := by
            simpa [beginTermination, ended] using waiting
          simp [(life.giveUpAt earlier).2] at ended
      terminationCloses := fun _ => closed
      gaveUp := fun gaveUp => ⟨rfl, (life.gaveUp gaveUp).2⟩
      detached := fun _ => rfl
      timeout := by simp [beginTermination]
      cause := fun _ => rfl
      terminated := fun _ => .inl rfl
      cancel := fun _ => rfl }
  | outlive now outcome first ended caused unfinished closed =>
    exact { life with
      grace := fun _ => rfl
      giveUpAt := fun waiting => ⟨rfl, (life.giveUpAt waiting).2⟩
      terminationCloses := fun _ => closed
      gaveUp := fun gaveUp => ⟨rfl, (life.gaveUp gaveUp).2⟩
      detached := fun _ => rfl
      timeout := fun waiting => by
        have running := (life.timeout waiting).2
        simp [ended] at running
      cause := fun _ => rfl
      terminated := fun _ => .inr ⟨outcome, ended, caused⟩ }
  | endGrace ending unfinished =>
    rw [endGrace_eq]
    exact { life with grace := by simp }
  | giveUp waiting unfinished silent =>
    exact { life with
      giveUpAt := by simp
      gaveUp := fun _ => life.giveUpAt waiting
      finished := fun finished =>
        (Bool.eq_false_iff.mp unfinished finished).elim }
  | leaveRunner ending unfinished =>
    exact { life with
      giveUpAt := by simp
      detached := fun _ => ending
      cancel := by simp
      finished := fun finished =>
        (Bool.eq_false_iff.mp unfinished finished).elim }

theorem terminal (life : peer.Lifecycle) (outcome : Outcome)
    (listening : peer.ignoresRunner = false) (first : peer.terminal = none)
    (closed : peer.input.closed = true) :
    (peer.recordTerminal outcome).Lifecycle := by
  simp only [ignoresRunner, Bool.or_eq_false_iff] at listening
  exact { life with
    giveUpAt := by simp [recordTerminal]
    terminalCloses := fun _ => closed
    gaveUp := fun gaveUp => (Bool.eq_false_iff.mp listening.2 gaveUp).elim
    timeout := by simp [recordTerminal]
    terminated := fun terminated => by
      rcases life.terminated terminated with caused | ⟨earlier, ended, _⟩
      · exact .inl caused
      · simp [first] at ended
    cancel := by simp [recordTerminal]
    finished := fun _ => rfl }

theorem emits (emits : Emits peer capacity next message) (life : peer.Lifecycle) :
    next.Lifecycle := by
  cases emits with
  | cancel speaks waiting => exact { life with cancel := by simp }
  | nothing quiet => exact life
  | _ => exact { life with }

theorem tells (tells : Tells peer next event) (life : peer.Lifecycle) : next.Lifecycle := by
  cases tells with
  | finished outcome ended unfinished =>
    refine { life with finished := fun _ => ?_ }
    unfold Peer.outcome at ended
    split at ended
    · simp at ended
    · obtain ⟨base, isBase, _⟩ := Option.map_eq_some_iff.mp ended
      change peer.baseOutcome.isSome = true
      rw [isBase, Option.isSome_some]
  | nothing quiet => exact life
  | _ => exact { life with }

theorem kept : Kept Lifecycle where
  change := fun change _ life => life.change change
  takeInput := fun _ _ _ life => { life with }
  endInput := fun _ _ _ life => { life with }
  consumed := fun _ _ _ _ life => { life with }
  tells := fun tells _ life => life.tells tells
  grant := fun _ _ _ life => { life with }
  started := fun _ _ _ _ life => { life with }
  charge := fun _ _ _ _ _ life => by split <;> exact { life with }
  endOutput := fun _ _ _ _ life => { life with }
  terminal := fun outcome listening first _ closed _ life =>
    life.terminal outcome listening first closed
  emits := fun emits _ life => life.emits emits

end Lifecycle

theorem endGrace_outputs (peer : Peer) (stream : Stream) : peer.endGrace.outputs stream =
      { peer.outputs stream with discarding := true : Incoming }.dropInbox.1 := by
  cases stream <;> rfl

namespace OutputsState

theorem new (key : Key) (limits : Limits) (timers : Timers) (now : Instant) :
    (Peer.new key limits timers now).OutputsState := by
  intro stream
  constructor <;> simp [Peer.new, Incoming.new]

variable {peer next : Peer}

theorem update (state : peer.OutputsState) (changed : Stream)
    (incoming : Incoming) (new : peer.OutputState incoming) :
    (peer.setOutput changed incoming).OutputsState := by
  intro stream
  have updated : peer.OutputState (Function.update peer.outputs changed incoming stream) :=
    forall_update peer.OutputState state new stream
  exact { updated with }

theorem change (change : Change peer next) (life : peer.Lifecycle)
    (state : peer.OutputsState) : next.OutputsState := by
  intro stream
  have before := state stream
  cases change with
  | terminate now cause first unfinished closed
  | outlive now outcome first ended caused unfinished closed =>
    exact { before with
      discarding := fun _ => rfl
      truncated := fun _ => rfl }
  | endGrace ending unfinished =>
    have terminated : peer.terminatedAt.isSome = true := by
      rcases ending with grace | waiting | terminated
      · exact life.grace grace
      · exact (life.giveUpAt waiting).1
      · exact terminated
    rw [endGrace_outputs]
    exact {
      discarding := fun _ => terminated
      truncated := fun _ => terminated
      dropped := fun _ => rfl
      gaveUp := fun _ => rfl
      terminal := before.terminal }
  | giveUp waiting unfinished silent =>
    exact { before with gaveUp := fun _ => (silent stream).2 }
  | _ => exact { before with }

theorem charge (state : peer.OutputsState) (stream : Stream)
    (window : Granted) (bytes : List UInt8) :
    (if (peer.outputs stream).discarding then
        peer.refuseOutput stream window bytes
      else peer.holdOutput stream window bytes).OutputsState := by
  have before := state stream
  split
  · rename_i discarding
    have refused := state.update stream { peer.outputs stream with truncated := true }
      { before with truncated := fun _ => before.discarding discarding }
    exact fun other => { refused other with }
  · rename_i kept
    have held := state.update stream
      { peer.outputs stream with
        inbox := (peer.outputs stream).inbox.push bytes }
      { before with dropped := fun discarding => absurd discarding kept }
    exact fun other => { held other with }

theorem consumed (state : peer.OutputsState) (stream : Stream) (bytes : Nat) :
    (peer.consumed stream bytes).OutputsState := by
  have before := state stream
  have popped := state.update stream
    { peer.outputs stream with
      inbox := ((peer.outputs stream).inbox.pop bytes).1 }
    { before with
      dropped := fun discarding => by simp [before.dropped discarding] }
  exact fun other => { popped other with }

theorem emits (emits : Emits peer capacity next message) (state : peer.OutputsState) :
    next.OutputsState := by
  cases emits with
  | nothing quiet => exact state
  | _ => exact fun stream => { state stream with }

theorem tells (tells : Tells peer next event) (state : peer.OutputsState) : next.OutputsState := by
  cases tells with
  | streamEnd stream ending => exact state.update stream _ { state stream with }
  | nothing quiet => exact state
  | _ => exact fun stream => { state stream with }

theorem kept : KeptUnder Lifecycle OutputsState where
  change := fun change life state => state.change change life
  takeInput := fun _ _ _ state stream => { state stream with }
  endInput := fun _ _ _ state stream => { state stream with }
  consumed := fun stream bytes _ _ state => state.consumed stream bytes
  tells := fun tells _ state => state.tells tells
  grant := fun _ _ _ state stream => { state stream with }
  started := fun _ _ _ _ state stream => { state stream with }
  charge := fun _ _ _ _ _ state => state.charge _ _ _
  endOutput := fun stream _ _ _ state =>
    state.update stream _ { state stream with terminal := fun _ => rfl }
  terminal := fun _ _ _ ended _ _ state stream =>
    { state stream with terminal := fun _ => ended stream }
  emits := fun emits _ state => state.emits emits

end OutputsState

namespace InputState

variable {peer next : Peer}

theorem new (key : Key) (limits : Limits) (timers : Timers) (now : Instant) :
    (Peer.new key limits timers now).InputState := by
  constructor <;> simp [Peer.new]

theorem change (change : Change peer next) (state : peer.InputState) :
    next.InputState := by
  cases change with
  | closeInput stillOpen =>
    exact {
      empty := fun _ => rfl
      endSent := fun sent => ⟨(state.endSent sent).1, rfl⟩ }
  | _ => exact { state with }

theorem takeInput (state : peer.InputState) (bytes : List UInt8) :
    (peer.takeInput bytes).1.InputState := by
  have refused (isOver : (peer.input.closed || peer.input.ended) = true) :
      (peer.takeInput bytes).1.input.queue = peer.input.queue := by
    have allowance : peer.writeAllowance.1 = 0 := by
      simp [writeAllowance, isOver]
    simp [Peer.takeInput, noteBuffered, setInput, allowance]
  constructor
  · intro closed
    have isOver : (peer.input.closed || peer.input.ended) = true := by
      rw [show peer.input.closed = true from closed, Bool.true_or]
    rw [refused isOver]
    exact state.empty closed
  · intro sent
    obtain ⟨ended, empty⟩ := state.endSent sent
    refine ⟨ended, ?_⟩
    rw [refused (by simp [ended])]
    exact empty

theorem emits (emits : Emits peer capacity next message) (state : peer.InputState) :
    next.InputState := by
  cases emits with
  | input length turn speaks stillOpen positive queued chunked affordable =>
    refine ⟨fun closed => ?_, fun sent => ⟨(state.endSent sent).1, ?_⟩⟩
    · exact (Bool.eq_false_iff.mp stillOpen closed).elim
    · simp [sentInput, setInput, (state.endSent sent).2]
  | inputEnd turn speaks stillOpen ended empty first =>
    exact ⟨state.empty, fun _ => ⟨ended, empty⟩⟩
  | nothing quiet => exact state
  | _ => exact { state with }

theorem kept : Kept InputState where
  change := fun change _ state => state.change change
  takeInput := fun bytes _ _ state => state.takeInput bytes
  endInput := fun _ _ _ state =>
    ⟨state.empty, fun sent => ⟨rfl, (state.endSent sent).2⟩⟩
  consumed := fun _ _ _ _ state => { state with }
  tells := fun tells _ state => by
    cases tells with
    | nothing quiet => exact state
    | _ => exact { state with }
  grant := fun _ _ _ state => { state with }
  started := fun _ _ _ _ state => { state with }
  charge := fun _ _ _ _ _ state => by split <;> exact { state with }
  endOutput := fun _ _ _ _ state => { state with }
  terminal := fun _ _ _ _ _ _ state => { state with }
  emits := fun emits _ state => state.emits emits

end InputState

@[mk_iff]
structure Consistent (peer : Peer) : Prop where
  sound : peer.Sound
  life : peer.Lifecycle
  outputs : peer.OutputsState
  input : peer.InputState

namespace Consistent

theorem kept : Kept Consistent := by
  have life := KeptUnder.and Sound.kept (Lifecycle.kept.mono fun _ => trivial)
  have outputs := KeptUnder.and life (OutputsState.kept.mono fun held => held.2)
  have input := KeptUnder.and outputs (InputState.kept.mono fun _ => trivial)
  have same : (fun peer : Peer => ((peer.Sound ∧ peer.Lifecycle) ∧
      peer.OutputsState) ∧ peer.InputState) = Consistent := by
    funext peer
    rw [consistent_iff, and_assoc, and_assoc]
  rwa [same] at input

theorem new (key : Key) (limits : Limits) (timers : Timers) (now : Instant) :
    (Peer.new key limits timers now).Consistent where
  sound := Sound.new key limits timers now
  life := Lifecycle.new key limits timers now
  outputs := OutputsState.new key limits timers now
  input := InputState.new key limits timers now

theorem step (consistent : Consistent peer) (call : Call) : (peer.step call).1.Consistent :=
  kept.step consistent.sound.opened_lt call consistent

theorem emits (consistent : Consistent peer) (capacity : Nat) :
    Emits peer capacity (peer.nextMessage capacity).1 (peer.nextMessage capacity).2 :=
  nextMessage_emits consistent.sound.opened_lt capacity

theorem after (consistent : start.Consistent)
    (calls : List Call) : (machine.after start calls).Consistent :=
  machine.invariant (fun _ peer => peer.Consistent) consistent
    (fun _ call held => held.step call) calls

end Consistent

theorem KeptUnder.after (kept : KeptUnder Consistent holds)
    (consistent : start.Consistent) (initial : holds start)
    (calls : List Call) : holds (machine.after start calls) := by
  have both := machine.invariant (fun _ peer => peer.Consistent ∧ holds peer) ⟨consistent, initial⟩
    (fun _ call held => (KeptUnder.and Consistent.kept kept).step
      held.1.sound.opened_lt call held) calls
  exact both.2

end Nvx.Exec.Peer
