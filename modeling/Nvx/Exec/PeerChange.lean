import Nvx.Exec.Peer
import Mathlib.Logic.Relation

namespace Nvx.Exec.Peer

open Nvx.Data

/-! The elementary changes of a peer, of which its calls are chains. -/

def beginTermination (peer : Peer) (now : Instant) (cause : Cause) : Peer :=
  { peer with
    terminatedAt := some now
    timeoutAt := none
    cause := some cause
    graceUntil := after now peer.timers.grace
    cancelMessage :=
      if peer.terminal.isNone then !peer.detached else peer.cancelMessage
    giveUpAt :=
      if peer.terminal.isNone then
        (after now peer.timers.grace).bind fun grace =>
          after grace peer.timers.settlement
      else peer.giveUpAt }

/-- The part of `terminal` that accepts the outcome, once the input is closed. -/
def recordTerminal (peer : Peer) (outcome : Outcome) : Peer :=
  { peer with
    terminal := some outcome
    giveUpAt := none
    timeoutAt := none
    cancelMessage := false }

/-- The part of `terminal` that starts the grace of output that the sink has
not taken. -/
def outlive (peer : Peer) (now : Instant) : Peer :=
  { peer with
    terminatedAt := some now
    graceUntil := after now peer.timers.grace }

def Incoming.Silent (incoming : Incoming) : Prop :=
  incoming.inbox.bytes = [] ∧ incoming.discarding = true

inductive Change (peer : Peer) : Peer → Prop
  | stopTimeout : Change peer { peer with timeoutAt := none }
  | closeInput (stillOpen : peer.input.closed = false) :
      Change peer (peer.setInput { peer.input with
        closed := true
        queue := []
        closedEvent := !peer.input.endSent })
  | terminate (now : Instant) (cause : Cause) (first : peer.terminatedAt = none)
      (unfinished : peer.finished = false)
      (closed : peer.input.closed = true) :
      Change peer (peer.beginTermination now cause)
  | outlive (now : Instant) (outcome : Outcome) (first : peer.terminatedAt = none)
      (ended : peer.terminal = some outcome)
      (caused : outcome.cause.isSome = true)
      (unfinished : peer.finished = false)
      (closed : peer.input.closed = true) :
      Change peer (peer.outlive now)
  | endGrace (ending : peer.graceUntil.isSome = true ∨
        peer.giveUpAt.isSome = true ∨ peer.terminatedAt.isSome = true)
      (unfinished : peer.finished = false) :
      Change peer peer.endGrace
  | giveUp (waiting : peer.giveUpAt.isSome = true) (unfinished : peer.finished = false)
      (silent : ∀ stream, (peer.outputs stream).Silent) :
      Change peer { peer with giveUpAt := none, gaveUp := true }
  | leaveRunner (ending : peer.terminatedAt.isSome = true) (unfinished : peer.finished = false) :
      Change peer { peer with
        detached := true
        cancelMessage := false
        giveUpAt := none }

abbrev Evolves : Peer → Peer → Prop := Relation.ReflTransGen Change

theorem Evolves.preserves {holds : Peer → Prop}
    (step : ∀ peer next, Change peer next → holds peer → holds next)
    (evolves : Evolves peer next) (held : holds peer) :
    holds next := by
  induction evolves with
  | refl => exact held
  | tail _ change induction => exact step _ _ change induction

theorem endGrace_silent (peer : Peer) (stream : Stream) :
    (peer.endGrace.outputs stream).Silent := by
  unfold endGrace Incoming.Silent
  cases stream <;>
    simp [discardStream, setOutput, setWindow, Function.update, Incoming.dropInbox, Inbox.clear]

theorem closeInput_evolves (peer : Peer) : Evolves peer peer.closeInput := by
  unfold closeInput
  split
  · exact .refl
  · rename_i stillOpen
    exact .single (.closeInput (Bool.eq_false_iff.mpr stillOpen))

theorem closeInput_closed (peer : Peer) : peer.closeInput.input.closed = true := by
  unfold closeInput
  split
  · assumption
  · rfl

theorem closeInput_eq (peer : Peer) :
    peer.closeInput = { peer with input := peer.closeInput.input } := by
  unfold closeInput
  split <;> rfl

@[simp] theorem closeInput_terminatedAt (peer : Peer) :
    peer.closeInput.terminatedAt = peer.terminatedAt := by
  rw [closeInput_eq]

@[simp] theorem closeInput_finished (peer : Peer) : peer.closeInput.finished = peer.finished := by
  rw [closeInput_eq]

theorem terminate_of_none {peer : Peer} (now : Instant) (cause : Cause)
    (unfinished : peer.finished = false) (first : peer.terminatedAt = none) :
    peer.terminate now cause =
      let begun := peer.closeInput.beginTermination now cause
      if reached begun.graceUntil now then begun.endGrace else begun := by
  have commutes :
      ({ peer with
          terminatedAt := some now
          timeoutAt := none
          cause := some cause }.closeInput.startGrace now).awaitTerminal =
      peer.closeInput.beginTermination now cause := by
    unfold beginTermination closeInput awaitTerminal startGrace
    cases closed : peer.input.closed <;> cases ended : peer.terminal <;>
      simp [setInput, ended]
  simp only [terminate, unfinished, first, Option.isSome_none, Bool.or_self,
    Bool.false_eq_true, if_false]
  simp only [← commutes, unfinished]

theorem terminate_evolves (peer : Peer) (now : Instant) (cause : Cause) :
    Evolves peer (peer.terminate now cause) := by
  by_cases skipped : (peer.finished || peer.terminatedAt.isSome) = true
  · simp only [terminate, skipped, if_true]
    exact .refl
  · rw [not_or_isSome] at skipped
    obtain ⟨unfinished, first⟩ := skipped
    rw [terminate_of_none now cause unfinished first]
    have begun : Evolves peer (peer.closeInput.beginTermination now cause) :=
      peer.closeInput_evolves.tail (.terminate now cause (by simpa using first)
          (by simpa using unfinished) peer.closeInput_closed)
    simp only
    split
    · exact begun.tail (.endGrace (.inr (.inr rfl)) (by simpa [beginTermination] using unfinished))
    · exact begun

theorem terminate_terminatedAt (now : Instant) (cause : Cause)
    (unfinished : finished peer = false) :
    (peer.terminate now cause).terminatedAt.isSome = true := by
  cases terminated : peer.terminatedAt with
  | some instant => simp [terminate, terminated]
  | none =>
    rw [terminate_of_none now cause unfinished terminated]
    simp only
    split <;> rfl

@[simp] theorem terminate_finished (peer : Peer) (now : Instant) (cause : Cause) :
    (peer.terminate now cause).finished = peer.finished := by
  by_cases skipped : (peer.finished || peer.terminatedAt.isSome) = true
  · simp only [terminate, skipped, if_true]
  · rw [not_or_isSome] at skipped
    rw [terminate_of_none now cause skipped.1 skipped.2]
    simp only
    split <;> simp [beginTermination, endGrace, discardStream, setOutput, setWindow]

theorem tickTimeout_evolves (peer : Peer) (now : Instant) :
    Evolves peer (peer.tickTimeout now) := by
  unfold tickTimeout
  split
  · exact (Relation.ReflTransGen.single Change.stopTimeout).trans
      (terminate_evolves _ now .timedOut)
  · exact .refl

@[simp] theorem tickTimeout_finished (peer : Peer) (now : Instant) :
    (peer.tickTimeout now).finished = peer.finished := by
  unfold tickTimeout
  split <;> simp

theorem tickGrace_evolves (now : Instant) (unfinished : peer.finished = false) :
    Evolves peer (peer.tickGrace now) := by
  unfold tickGrace
  split
  · rename_i isReached
    obtain ⟨instant, pending, _⟩ := reached_iff.mp isReached
    exact .single (.endGrace (.inl (by simp [pending])) unfinished)
  · exact .refl

@[simp] theorem tickGrace_finished (peer : Peer) (now : Instant) :
    (peer.tickGrace now).finished = peer.finished := by
  unfold tickGrace
  split <;> rfl

theorem tickGiveUp_evolves (now : Instant) (unfinished : peer.finished = false) :
    Evolves peer (peer.tickGiveUp now) := by
  unfold tickGiveUp
  split
  · rename_i isReached
    obtain ⟨instant, waiting, _⟩ := reached_iff.mp isReached
    have isWaiting : peer.giveUpAt.isSome = true := by simp [waiting]
    have commutes : { peer with giveUpAt := none, gaveUp := true }.endGrace =
        { peer.endGrace with giveUpAt := none, gaveUp := true } := rfl
    rw [commutes]
    exact (Relation.ReflTransGen.single (.endGrace (.inr (.inl isWaiting)) unfinished)).tail
        (.giveUp isWaiting unfinished peer.endGrace_silent)
  · exact .refl

theorem tick_evolves (peer : Peer) (now : Instant) : Evolves peer (peer.tick now) := by
  unfold tick
  split
  · exact .refl
  · rename_i ongoing
    have unfinished : peer.finished = false := Bool.eq_false_iff.mpr ongoing
    exact ((peer.tickTimeout_evolves now).trans
      (tickGrace_evolves now (by simpa using unfinished))).trans
        (tickGiveUp_evolves now (by simpa using unfinished))

theorem cancel_evolves (peer : Peer) (now : Instant) : Evolves peer (peer.cancel now) :=
  (peer.tick_evolves now).trans (terminate_evolves _ now .cancelled)

theorem dropped_evolves (peer : Peer) (now : Instant) : Evolves peer (peer.dropped now) := by
  have ended := (peer.tick_evolves now).trans (terminate_evolves _ now .dropped)
  unfold dropped
  simp only
  split
  · rename_i ongoing
    have unfinished : (peer.tick now).finished = false := by simpa using ongoing
    exact ended.tail (.endGrace (.inr (.inr (terminate_terminatedAt now .dropped unfinished)))
      (by simpa using unfinished))
  · exact ended

theorem detach_evolves (peer : Peer) (now : Instant) (cause : Cause) :
    Evolves peer (peer.detach now cause) := by
  unfold detach
  simp only
  split
  · exact peer.tick_evolves now
  · rename_i ongoing
    have unfinished : (peer.tick now).finished = false := by
      cases finished : (peer.tick now).finished with
      | false => rfl
      | true => simp [finished] at ongoing
    exact ((peer.tick_evolves now).trans (terminate_evolves _ now cause)).tail
      (.leaveRunner (terminate_terminatedAt now cause unfinished) (by simpa using unfinished))

theorem receiveCredit_cases (peer : Peer) (key : Key) (units : Nat) :
    (peer.receiveCredit key units).1 = peer ∨
      ∃ granted, peer.input.credit.grant units = .ok granted ∧ peer.ignoresRunner = false ∧
        (peer.receiveCredit key units).1 = peer.setInput { peer.input with credit := granted } := by
  unfold receiveCredit Key.receive
  split
  · exact .inl rfl
  · exact .inl rfl
  · split
    · exact .inl rfl
    · rename_i listening
      cases accepted : peer.input.credit.grant units with
      | error violation => exact .inl rfl
      | ok granted =>
        refine .inr ⟨granted, rfl, Bool.eq_false_iff.mpr listening, ?_⟩
        simp only
        split <;> rfl

theorem receiveStarted_cases (peer : Peer) (key : Key) : (peer.receiveStarted key).1 = peer ∨
      peer.ignoresRunner = false ∧ peer.started = false ∧ peer.terminal = none ∧
        (peer.receiveStarted key).1 = { peer with started := true, startedEvent := true } := by
  unfold receiveStarted Key.receive
  split
  · exact .inl rfl
  · exact .inl rfl
  · split
    · exact .inl rfl
    · rename_i listening
      split
      · exact .inl rfl
      · rename_i inOrder
        rw [not_or_isSome] at inOrder
        exact .inr ⟨Bool.eq_false_iff.mpr listening, inOrder.1, inOrder.2, rfl⟩

theorem output_cases (peer : Peer) (key : Key) (stream : Stream) (bytes : List UInt8) :
    (peer.output key stream bytes).1 = peer ∨ ∃ window,
        (peer.windows (peer.limits.poolOf stream)).charge bytes.length = .ok window ∧
        (0 < bytes.length ∧ bytes.length ≤ peer.limits.chunk) ∧
        peer.ignoresRunner = false ∧ (peer.outputs stream).ended = false ∧
        (peer.output key stream bytes).1 =
          if (peer.outputs stream).discarding then
            peer.refuseOutput stream window bytes
          else peer.holdOutput stream window bytes := by
  unfold output Key.receive
  split
  · exact .inl rfl
  · exact .inl rfl
  · split
    · exact .inl rfl
    · rename_i listening
      split
      · exact .inl rfl
      · rename_i unended
        cases sized : peer.limits.checkChunk bytes.length with
        | error violation => exact .inl rfl
        | ok value =>
          cases charged : (peer.windows (peer.limits.poolOf stream)).charge bytes.length with
          | error violation => exact .inl rfl
          | ok window =>
            refine .inr ⟨window, rfl, (peer.limits.checkChunk_ok_iff _).mp sized,
              Bool.eq_false_iff.mpr listening,
              Bool.eq_false_iff.mpr unended, ?_⟩
            simp only
            split <;> rfl

theorem endOutput_cases (peer : Peer) (key : Key) (stream : Stream) :
    (peer.endOutput key stream).1 = peer ∨
      peer.ignoresRunner = false ∧ (peer.outputs stream).ended = false ∧
        (peer.endOutput key stream).1 =
          peer.setOutput stream { peer.outputs stream with ended := true } := by
  unfold endOutput Key.receive
  split
  · exact .inl rfl
  · exact .inl rfl
  · split
    · exact .inl rfl
    · rename_i listening
      split
      · exact .inl rfl
      · rename_i unended
        exact .inr ⟨Bool.eq_false_iff.mpr listening, Bool.eq_false_iff.mpr unended, rfl⟩

theorem inputClosed_evolves (peer : Peer) (key : Key) : Evolves peer (peer.inputClosed key).1 := by
  unfold inputClosed Key.receive
  split
  · exact .refl
  · exact .refl
  · split
    · exact .refl
    · exact peer.closeInput_evolves

theorem receiveTerminal_cases (peer : Peer) (now : Instant) (key : Key) (outcome : Outcome) :
    (peer.receiveTerminal now key outcome).1 = peer ∨
      (peer.receiveTerminal now key outcome).1 = peer.tick now ∨
      (peer.tick now).ignoresRunner = false ∧ (peer.tick now).terminal = none ∧
        (∀ stream, ((peer.tick now).outputs stream).ended = true) ∧
        (peer.receiveTerminal now key outcome).1 = (peer.tick now).acceptTerminal now outcome := by
  unfold receiveTerminal Key.receive
  split
  · exact .inl rfl
  · exact .inl rfl
  · simp only
    split
    · exact .inr (.inl rfl)
    · rename_i listening
      split
      · exact .inr (.inl rfl)
      · rename_i first
        split
        · exact .inr (.inl rfl)
        · rename_i ended
          refine .inr (.inr ⟨Bool.eq_false_iff.mpr listening, ?_, ?_, rfl⟩)
          · simpa using first
          · rw [Stream.forall_iff]
            simpa using ended

theorem acceptTerminal_evolves (now : Instant)
    (outcome : Outcome) (unfinished : finished peer = false) :
    Evolves (peer.closeInput.recordTerminal outcome) (peer.acceptTerminal now outcome) := by
  have commutes : { peer with
      terminal := some outcome
      giveUpAt := none
      timeoutAt := none
      cancelMessage := false }.closeInput =
        peer.closeInput.recordTerminal outcome := by
    unfold closeInput recordTerminal
    split <;> rfl
  unfold acceptTerminal
  simp only [commutes]
  split
  · rename_i outlives
    simp only [Bool.and_eq_true, Option.isNone_iff_eq_none] at outlives
    have still : (peer.closeInput.recordTerminal outcome).finished = false := by
      simpa [recordTerminal] using unfinished
    have graced : Change (peer.closeInput.recordTerminal outcome)
        ((peer.closeInput.recordTerminal outcome).outlive now) :=
      .outlive now outcome outlives.2 rfl outlives.1 still peer.closeInput_closed
    split
    · exact (Relation.ReflTransGen.single graced).tail (.endGrace (.inr (.inr rfl)) still)
    · exact .single graced
  · exact .refl

end Nvx.Exec.Peer
