import Nvx.Exec.PeerHistory
import Nvx.Exec.RunnerBytes
import Mathlib.Data.List.TakeWhile

namespace Nvx.Exec.Peer

open Nvx.Data

/-! The bytes that pass the peer: those of its caller's input, from `input` to
the messages that carry them, and those of the output that its sink takes. -/

def sent : Call × Return → Option Message
  | (_, .message message) => message
  | _ => none

def takenBy : Call × Return → List UInt8
  | (.act (.input bytes), .taken count) => bytes.take count
  | _ => []

def sentBy (event : Call × Return) : List UInt8 :=
  (sent event).toList.flatMap Message.inputBytes

/-- The bytes of `stream` that a message handed to the peer carries. -/
def receivedBy (stream : Stream) : Call × Return → List UInt8
  | (.receive _ _ message, _) => message.outputBytes stream
  | _ => []

def consumedBy (stream : Stream) : Call × Return → List UInt8
  | (.act (.consumed other _), .consumed bytes) =>
    if other = stream then bytes else []
  | _ => []

def taken (trace : List (Call × Return)) : List UInt8 := trace.flatMap takenBy

def sentBytes (trace : List (Call × Return)) : List UInt8 :=
  trace.flatMap sentBy

def receivedBytes (stream : Stream) (trace : List (Call × Return)) :
    List UInt8 :=
  trace.flatMap (receivedBy stream)

def consumedBytes (stream : Stream) (trace : List (Call × Return)) :
    List UInt8 :=
  trace.flatMap (consumedBy stream)

def endsInput : Call × Return → Bool
  | (.act .endInput, _) => true
  | _ => false

def untilEndInput (trace : List (Call × Return)) : List (Call × Return) :=
  trace.takeWhile fun event => !endsInput event

/-- Nothing is missing of what the input took: it drops only what it holds when
it is closed, and it holds nothing once it sent its end. -/
def Outgoing.Whole (input : Outgoing) : Prop :=
  input.closed = false ∨ input.endSent = true

def InputPipe (entered passed : List UInt8) (peer : Peer) : Prop :=
  Pipe entered passed peer.input.queue peer.input.Whole

section InputPipe

variable {peer next : Peer}

theorem InputPipe.change (change : Change peer next)
    (consistent : peer.Consistent) (pipe : peer.InputPipe entered passed) :
    next.InputPipe entered passed := by
  cases change with
  | closeInput stillOpen =>
    refine pipe.drop fun whole => ⟨.inl stillOpen, ?_⟩
    have ended : peer.input.endSent = true := by
      simpa [Outgoing.Whole, setInput] using whole
    exact (consistent.input.endSent ended).2
  | _ => exact pipe

theorem inputPipe_locallyKept (entered passed : List UInt8) :
    LocallyKept (fun call => ∀ bytes, call ≠ .input bytes) Consistent
      (InputPipe entered passed) where
  change := fun step consistent pipe => pipe.change step consistent
  takeInput := fun bytes permitted => absurd rfl (permitted bytes)
  endInput := fun _ _ _ pipe => pipe
  consumed := fun _ _ _ _ pipe => pipe
  tells := fun tells _ pipe => by cases tells <;> exact pipe

theorem inputPipe_remotelyKept (entered passed : List UInt8) :
    RemotelyKept Consistent (InputPipe entered passed) where
  change := fun step consistent pipe => pipe.change step consistent
  grant := fun _ _ _ pipe => pipe
  started := fun _ _ _ _ pipe => pipe
  charge := fun _ _ _ _ _ pipe => by split <;> exact pipe
  endOutput := fun _ _ _ _ pipe => pipe
  terminal := fun _ _ _ _ _ _ pipe => pipe

theorem stillOpen_of_writeAllowance (positive : 0 < peer.writeAllowance.1) :
    peer.input.closed = false ∧ peer.input.ended = false := by
  unfold writeAllowance at positive
  split at positive
  · simp at positive
  · rename_i accepts
    simp only [Bool.or_eq_true, not_or, Bool.not_eq_true] at accepts
    exact accepts.1.1

theorem InputPipe.takeInput (pipe : peer.InputPipe entered passed) (bytes : List UInt8) :
    (peer.takeInput bytes).1.InputPipe (entered ++ bytes.take (peer.takeInput bytes).2) passed := by
  unfold Peer.takeInput
  simp only [InputPipe, setInput, noteBuffered]
  rcases Nat.eq_zero_or_pos peer.writeAllowance.1 with zero | positive
  · rw [zero, Nat.min_zero, List.take_zero, List.append_nil, List.append_nil]
    exact pipe
  · exact pipe.push (.inl (stillOpen_of_writeAllowance positive).1) _

theorem InputPipe.emits (emits : Emits peer capacity next message)
    (pipe : peer.InputPipe entered passed) :
    next.InputPipe entered (passed ++ message.toList.flatMap Message.inputBytes) := by
  cases emits with
  | input length turn speaks stillOpen =>
    have passes := pipe.pass length
    simpa [InputPipe, sentInput, setInput, Message.inputBytes, Outgoing.Whole] using passes
  | inputEnd turn speaks stillOpen ended empty first =>
    simp only [Option.toList_some, List.flatMap_singleton, Message.inputBytes, List.append_nil]
    exact pipe.mono fun _ => .inl stillOpen
  | nothing quiet =>
    rw [Option.toList_none, List.flatMap_nil, List.append_nil]
    exact pipe
  | _ =>
    simp only [Option.toList_some, List.flatMap_singleton, Message.inputBytes, List.append_nil]
    exact pipe

theorem InputPipe.step (consistent : peer.Consistent)
    (pipe : peer.InputPipe entered passed) (call : Call) :
    (peer.step call).1.InputPipe (entered ++ takenBy (call, (peer.step call).2))
      (passed ++ sentBy (call, (peer.step call).2)) := by
  cases call with
  | act call =>
    have unsent : sentBy (.act call, (peer.step (.act call)).2) = [] := by
      cases call <;> rfl
    rw [unsent, List.append_nil]
    by_cases inputs : ∃ bytes, call = .input bytes
    · obtain ⟨bytes, rfl⟩ := inputs
      exact pipe.takeInput bytes
    · have others : ∀ bytes, call ≠ .input bytes :=
        fun bytes same => inputs ⟨bytes, same⟩
      have untaken : takenBy (.act call, (peer.step (.act call)).2) = [] := by
        cases call with
        | input bytes => exact absurd rfl (others bytes)
        | _ => rfl
      rw [untaken, List.append_nil]
      exact ((LocallyKept.and Consistent.kept
        (inputPipe_locallyKept entered passed)).act peer others ⟨consistent, pipe⟩).2
  | receive now key message =>
    simp only [takenBy, sentBy, sent, Peer.step, List.append_nil,
      Option.toList_none, List.flatMap_nil]
    exact ((RemotelyKept.and Consistent.kept
      (inputPipe_remotelyKept entered passed)).receive peer now key message ⟨consistent, pipe⟩).2
  | nextMessage capacity =>
    simp only [takenBy, List.append_nil]
    exact pipe.emits (consistent.emits capacity)

end InputPipe

theorem ended_locallyKept (start : Peer) :
    LocallyKept (fun call => call ≠ .endInput) (fun _ => True)
      fun peer => peer.input.ended = start.input.ended where
  change := fun change _ held => by cases change <;> exact held
  takeInput := fun _ _ _ held => held
  endInput := fun permitted => absurd rfl permitted
  consumed := fun _ _ _ _ held => held
  tells := fun tells _ held => by cases tells <;> exact held

theorem Consistent.step_inputEnded (consistent : Consistent peer)
    (call : Call) (ended : (peer.step call).1.input.ended = true) :
    peer.input.ended = true ∨ call = .act .endInput := by
  cases call with
  | act call =>
    by_cases ends : call = .endInput
    · exact .inr (by rw [ends])
    · left
      rw [← ended]
      exact ((ended_locallyKept peer).act peer ends rfl).symm
  | receive now key message =>
    left
    rw [← ended]
    exact ((remotelyKept_unended peer).receive peer now key message ⟨rfl, rfl, rfl⟩).2.1.symm
  | nextMessage capacity =>
    left
    have emits := consistent.emits capacity
    change (peer.nextMessage capacity).1.input.ended = true at ended
    generalize (peer.nextMessage capacity).1 = next at emits ended
    generalize (peer.nextMessage capacity).2 = message at emits
    cases emits <;> exact ended

theorem ended_of_endInput (peer : Peer) :
    peer.endInput.input.ended = true ∨ peer.endInput.input.closed = true := by
  unfold endInput
  split
  · exact .inl rfl
  · rename_i closed
    exact .inr (by simpa using closed)

theorem untilEndInput_append (ended : ∃ event ∈ trace, endsInput event = true)
    (more : List (Call × Return)) :
    untilEndInput (trace ++ more) = untilEndInput trace := by
  obtain ⟨event, member, isEnd⟩ := ended
  unfold untilEndInput
  rw [List.takeWhile_append, if_neg]
  intro complete
  have all := List.takeWhile_eq_self_iff.mp ((List.takeWhile_prefix _).eq_of_length complete)
  simpa [isEnd] using all event member

theorem takenBy_of_over {peer : Peer}
    (isOver : peer.input.ended = true ∨ peer.input.closed = true) (call : Call) :
    takenBy (call, (peer.step call).2) = [] := by
  unfold takenBy
  split
  · rename_i bytes count same
    obtain ⟨rfl, same⟩ := Prod.mk.inj same
    simp only [Peer.step, Peer.act, Return.taken.injEq] at same
    have none : peer.writeAllowance.1 = 0 := by
      by_contra positive
      have stillOpen := stillOpen_of_writeAllowance (Nat.pos_of_ne_zero positive)
      rcases isOver with ended | closed
      · simp [stillOpen.2] at ended
      · simp [stillOpen.1] at closed
    simp [← same, Peer.takeInput, none]
  · rfl

section Runs

variable {start : Peer} (consistent : start.Consistent)

include consistent

theorem inputPipe_after (empty : start.input.queue = []) (calls : List Call) :
    (machine.after start calls).InputPipe (taken (machine.trace start calls))
      (sentBytes (machine.trace start calls)) := by
  refine run_invariant (fun trace peer =>
    peer.InputPipe (taken trace) (sentBytes trace)) consistent ?_ ?_ calls
  · simp only [InputPipe, empty]
    exact .nil
  · intro trace peer call consistent pipe
    rw [taken, List.flatMap_append, List.flatMap_singleton, sentBytes,
      List.flatMap_append, List.flatMap_singleton]
    exact pipe.step consistent call

theorem endInput_mem (unended : start.input.ended = false) (calls : List Call) :
    (machine.after start calls).input.ended = true →
      .act .endInput ∈ (machine.trace start calls).map Prod.fst := by
  refine run_invariant (fun trace peer => peer.input.ended = true →
    .act .endInput ∈ trace.map Prod.fst) consistent
    (by simp [unended]) ?_ calls
  intro trace peer call consistent held ended
  rw [List.map_append, List.mem_append]
  rcases consistent.step_inputEnded call ended with earlier | rfl
  · exact .inl (held earlier)
  · exact .inr (by simp)

theorem taken_untilEndInput (calls : List Call) :
    taken (untilEndInput (machine.trace start calls)) = taken (machine.trace start calls) := by
  have isOver := run_invariant (fun trace peer =>
    taken (untilEndInput trace) = taken trace ∧ ((∃ event ∈ trace, endsInput event = true) →
        peer.input.ended = true ∨ peer.input.closed = true)) consistent
    ⟨rfl, by simp⟩ ?_ calls
  · exact isOver.1
  · intro trace peer call consistent ⟨same, isOver⟩
    have later := consistent.later call
    have stillOver (ended : ∃ event ∈ trace, endsInput event = true) :=
      (isOver ended).imp later.inputEnded later.inputClosed
    by_cases ended : ∃ event ∈ trace, endsInput event = true
    · refine ⟨?_, fun _ => stillOver ended⟩
      rw [untilEndInput_append ended, same, taken, taken, List.flatMap_append,
        List.flatMap_singleton, takenBy_of_over (isOver ended), List.append_nil]
    · have unended : ∀ event ∈ trace, (!endsInput event) = true := by
        simpa using ended
      rw [untilEndInput, List.takeWhile_append_of_pos unended]
      by_cases ends : call = .act .endInput
      · subst call
        refine ⟨?_, fun _ => peer.ended_of_endInput⟩
        rw [List.takeWhile_cons_of_neg (by simp [endsInput]), List.append_nil,
          taken, taken, List.flatMap_append, List.flatMap_singleton]
        exact (List.append_nil _).symm
      · have other : endsInput (call, (peer.step call).2) = false := by
          unfold endsInput
          split
          · rename_i same
            exact absurd (Prod.mk.inj same).1 ends
          · rfl
        refine ⟨by rw [List.takeWhile_cons_of_pos (by simp [other])]; rfl, ?_⟩
        rintro ⟨event, member, isEnd⟩
        rw [List.mem_append, List.mem_singleton] at member
        rcases member with earlier | rfl
        · exact absurd ⟨event, earlier, isEnd⟩ ended
        · simp [other] at isEnd

end Runs

theorem emits_of_sent (consistent : Consistent peer) {call : Call}
    (returned : sent (call, (peer.step call).2) = some message) :
    ∃ capacity, Emits peer capacity (peer.step call).1 (some message) := by
  cases call with
  | act call => cases call <;> cases returned
  | receive => cases returned
  | nextMessage capacity =>
    exact ⟨capacity, returned ▸ consistent.emits capacity⟩

/-- Whatever arrives, no input and no end of input follow a message that ends the
input or cancels the execution. -/
theorem no_input_after_its_end (key : Key) (limits : Limits) (timers : Timers) (now : Instant)
    (calls : List Call) :
    (machine.trace (Peer.new key limits timers now) calls).Pairwise fun earlier later =>
      (sent earlier = some .inputEnd ∨ ∃ cause, sent earlier = some (.cancel cause)) →
        ¬ (sent later = some .inputEnd ∨ ∃ bytes, sent later = some (.input bytes)) := by
  have stable : machine.Stable Consistent fun peer =>
      peer.input.closed = true ∨ peer.input.endSent = true :=
    fun peer call consistent => Or.imp (consistent.later call).inputClosed
      (consistent.later call).endSent
  refine stable.pairwise_not_after (Consistent.new key limits timers now).after _ _ ?_ ?_ calls
  · intro peer call consistent ending
    change (peer.step call).1.input.closed = true ∨ (peer.step call).1.input.endSent = true
    rcases ending with returned | ⟨cause, returned⟩
    all_goals
      obtain ⟨capacity, emits⟩ := emits_of_sent consistent returned
      generalize (peer.step call).1 = next at emits
      cases emits
    case inputEnd => exact .inr rfl
    case cancel waiting =>
      have life := consistent.life
      exact .inl (life.terminationCloses (life.cause (life.cancel waiting)))
  · intro peer call consistent isOver entering
    rcases entering with returned | ⟨bytes, returned⟩
    all_goals
      obtain ⟨capacity, emits⟩ := emits_of_sent consistent returned
      generalize (peer.step call).1 = next at emits
      cases emits
    case inputEnd => simp_all
    case input =>
      have empty := isOver.elim consistent.input.empty fun sent => (consistent.input.endSent sent).2
      simp_all

end Nvx.Exec.Peer
