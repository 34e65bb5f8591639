import Nvx.Exec.PeerProgress

namespace Nvx.Exec.Peer

open Nvx.Data

/-! What a run's trace tells about the peer that it leads to. -/

def told : Call × Return → Option Event
  | (_, .event event) => event
  | _ => none

def events (trace : List (Call × Return)) : List Event := trace.filterMap told

/-- What holds at the start and is kept by each call of a consistent peer holds
of every trace and the state that it leads to. -/
theorem run_invariant (Inv : List (Call × Return) → Peer → Prop)
    (consistent : start.Consistent) (initial : Inv [] start)
    (preserved : ∀ trace (peer : Peer) call, peer.Consistent → Inv trace peer →
        Inv (trace ++ [(call, (peer.step call).2)]) (peer.step call).1)
    (calls : List Call) :
    Inv (machine.trace start calls) (machine.after start calls) :=
  machine.invariant Inv initial (fun calls call held =>
    preserved _ _ call (consistent.after calls) held) calls

structure Framed (peer next : Peer) : Prop where
  credit : next.input.credit = peer.input.credit
  endSent : next.input.endSent = peer.input.endSent
  opened : ∀ index, (next.windows index).opened = (peer.windows index).opened
  started : next.started = peer.started
  ended : ∀ stream, (next.outputs stream).ended = (peer.outputs stream).ended
  terminal : next.terminal = peer.terminal

namespace Framed

variable {start peer next : Peer}

theorem refl (peer : Peer) : peer.Framed peer where
  credit := rfl
  endSent := rfl
  opened := fun _ => rfl
  started := rfl
  ended := fun _ => rfl
  terminal := rfl

/-- A change of one output that does not end it, and frees units of its pool. -/
theorem update (framed : start.Framed peer) (stream : Stream)
    (incoming : Incoming) (index : Fin 2) (units : Nat)
    (same : incoming.ended = (peer.outputs stream).ended) :
    start.Framed ((peer.setOutput stream incoming).setWindow index
      ((peer.windows index).free units)) :=
  { framed with
    opened := fun other => by
      refine (update_field Granted.opened ?_ other).trans (framed.opened other)
      rfl
    ended := fun other =>
      (update_field Incoming.ended same other).trans (framed.ended other) }

theorem endGrace (framed : start.Framed peer) : start.Framed peer.endGrace := by
  have discards {peer : Peer} (framed : start.Framed peer) (stream : Stream) :
      start.Framed (peer.discardStream stream) :=
    framed.update stream _ _ _ rfl
  have stopped : start.Framed { peer with graceUntil := none } :=
    { framed with }
  exact discards (discards stopped .stdout) .stderr

theorem change (change : Change peer next) (framed : start.Framed peer) :
    start.Framed next := by
  cases change with
  | endGrace ending unfinished => exact framed.endGrace
  | _ => exact { framed with }

theorem tells (tells : Tells peer next event) (framed : start.Framed peer) : start.Framed next := by
  cases tells with
  | streamEnd stream ending =>
    exact { framed with
      ended := fun other => by
        refine (update_field Incoming.ended ?_ other).trans (framed.ended other)
        rfl }
  | nothing quiet => exact framed
  | _ => exact { framed with }

theorem locallyKept (start : Peer) : LocallyKept (fun _ => True) (fun _ => True) start.Framed where
  change := fun step _ framed => framed.change step
  takeInput := fun _ _ _ framed => { framed with }
  endInput := fun _ _ _ framed => { framed with }
  consumed := fun stream _ _ _ framed => framed.update stream _ _ _ rfl
  tells := fun step _ framed => framed.tells step

theorem act (peer : Peer) (call : LocalCall) : peer.Framed (peer.act call).1 :=
  (locallyKept peer).act peer trivial (.refl peer)

end Framed

/-- No message finishes the peer or ends its input, and neither do the changes
that it makes itself. -/
theorem remotelyKept_unended (start : Peer) : RemotelyKept (fun _ => True) fun peer =>
      peer.finished = start.finished ∧ peer.input.ended = start.input.ended ∧
        peer.input.endSent = start.input.endSent where
  change := fun change _ held => by cases change <;> exact held
  grant := fun _ _ _ held => held
  started := fun _ _ _ _ held => held
  charge := fun _ _ _ _ _ held => by split <;> exact held
  endOutput := fun _ _ _ _ held => held
  terminal := fun _ _ _ _ _ _ held => held

theorem Emits.finished_eq (emits : Emits peer capacity next message) :
    next.finished = peer.finished := by
  cases emits <;> rfl

theorem Consistent.step_finished (consistent : Consistent peer)
    (call : Call) (finished : (peer.step call).1.finished = true) :
    peer.finished = true ∨
      ∃ outcome, told (call, (peer.step call).2) = some (.finished outcome) := by
  have evolves {next : Peer} (chain : Evolves peer next)
      (finished : next.finished = true) : peer.finished = true := by
    rw [← finished]
    exact ((remotelyKept_unended peer).evolves chain ⟨rfl, rfl, rfl⟩).1.symm
  cases call with
  | act call =>
    cases call with
    | input bytes | consumed stream bytes => exact .inl finished
    | endInput =>
      left
      simp only [Peer.step, Peer.act, Peer.endInput] at finished
      split at finished <;> exact finished
    | cancel now => exact .inl (evolves (peer.cancel_evolves now) finished)
    | dropped now => exact .inl (evolves (peer.dropped_evolves now) finished)
    | reset now | disconnect now => exact .inl (evolves (peer.detach_evolves now _) finished)
    | tick now => exact .inl (evolves (peer.tick_evolves now) finished)
    | nextEvent =>
      have tells := peer.nextEvent_tells
      change peer.nextEvent.1.finished = true at finished
      change _ ∨ ∃ outcome, peer.nextEvent.2 = some (.finished outcome)
      generalize peer.nextEvent.1 = next at tells finished
      generalize peer.nextEvent.2 = event at tells
      cases tells with
      | finished outcome => exact .inr ⟨outcome, rfl⟩
      | _ => exact .inl finished
  | receive now key message =>
    left
    rw [← finished]
    exact ((remotelyKept_unended peer).receive peer now key message ⟨rfl, rfl, rfl⟩).1.symm
  | nextMessage capacity =>
    left
    rw [← finished]
    exact (consistent.emits capacity).finished_eq.symm

theorem finished_mem_events (key : Key) (limits : Limits) (timers : Timers)
    (now : Instant) (calls : List Call) :
    let start := Peer.new key limits timers now
    (machine.after start calls).finished = true →
      ∃ outcome, .finished outcome ∈ events (machine.trace start calls) := by
  refine run_invariant (fun trace peer => peer.finished = true →
    ∃ outcome, .finished outcome ∈ events trace)
    (Consistent.new key limits timers now) (by simp [Peer.new]) ?_ calls
  intro trace peer call consistent held finished
  simp only [events, List.filterMap_append, List.mem_append]
  rcases consistent.step_finished call finished with earlier | ⟨outcome, told⟩
  · obtain ⟨outcome, member⟩ := held earlier
    exact ⟨outcome, .inl member⟩
  · refine ⟨outcome, .inr ?_⟩
    rw [List.mem_filterMap]
    exact ⟨_, List.mem_singleton_self _, told⟩

end Nvx.Exec.Peer
