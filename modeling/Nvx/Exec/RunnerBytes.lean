import Nvx.Data.Pipe
import Nvx.Exec.RunnerTerminal

namespace Nvx.Exec

open Nvx.Data

/-! The bytes of the workload's output, from `output` to the messages that carry
them. -/

def Runner.Message.outputBytes (stream : Stream) : Runner.Message → List UInt8
  | .output other bytes => if other = stream then bytes else []
  | _ => []

def Peer.Message.inputBytes : Peer.Message → List UInt8
  | .input bytes => bytes
  | _ => []

namespace Runner

/-- The bytes of `stream` that an `output` call reported as taken. -/
def takenBy (stream : Stream) : Event → List UInt8
  | (.act (.output other bytes), .taken count) =>
    if other = stream then bytes.take count else []
  | _ => []

def taken (stream : Stream) (trace : List Event) : List UInt8 :=
  trace.flatMap (takenBy stream)

def sentBytes (stream : Stream) (trace : List Event) : List UInt8 :=
  (messages trace).flatMap (Message.outputBytes stream)

def loses (stream : Stream) : Event → Bool
  | (.act (.discarded other bytes), _) =>
    decide (other = stream) && decide (0 < bytes)
  | (.act (.outputFailed other), _) => decide (other = stream)
  | _ => false

theorem taken_append (stream : Stream) (first second : List Event) :
    taken stream (first ++ second) = taken stream first ++ taken stream second :=
  List.flatMap_append

theorem taken_singleton (stream : Stream) (event : Event) :
    taken stream [event] = takenBy stream event :=
  List.flatMap_singleton _ _

theorem sentBytes_append (stream : Stream) (first second : List Event) :
    sentBytes stream (first ++ second) = sentBytes stream first ++ sentBytes stream second := by
  simp only [sentBytes, messages, List.filterMap_append, List.flatMap_append]

theorem sentBytes_singleton (stream : Stream) (event : Event) : sentBytes stream [event] =
      (sent event).toList.flatMap (Message.outputBytes stream) := by
  rw [sentBytes, ← List.nil_append [event], messages_concat]
  rfl

/-- Nothing is missing of what the stream took: it marks what it drops, and it
drops what it takes only when it is closed or discards. -/
def Output.Whole (output : Output) : Prop :=
  output.truncated = false ∨ output.closed = false ∧ output.discarding = false

theorem Output.Later.whole {output next : Output} (later : output.Later next)
    (whole : next.Whole) : output.Whole := by
  rcases whole with marked | ⟨stillOpen, keeps⟩
  · exact .inl (Runner.Later.false_of_kept later.truncated marked)
  · exact .inr ⟨Runner.Later.false_of_kept later.closed stillOpen,
      Runner.Later.false_of_kept later.discarding keeps⟩

theorem Output.Whole.unmarked {output : Output} (whole : output.Whole)
    (silent : output.Silent) : output.truncated = false := by
  rcases whole with unmarked | ⟨stillOpen, keeps⟩
  · exact unmarked
  · rcases silent.2 with closed | discarding
    · simp [stillOpen] at closed
    · simp [keeps] at discarding

def OutputPipe (stream : Stream) (entered passed : List UInt8) (runner : Runner) : Prop :=
  Pipe entered passed (runner.outputs stream).queue (runner.outputs stream).Whole

section OutputPipe

variable {runner next : Runner}

theorem OutputPipe.setOutput {output : Output} (pipe : runner.OutputPipe stream entered passed)
    (same : output.queue = (runner.outputs other).queue)
    (later : (runner.outputs other).Later output) :
    (runner.setOutput other output).OutputPipe stream entered passed := by
  have queue : ((runner.setOutput other output).outputs stream).queue =
      (runner.outputs stream).queue :=
    update_field Output.queue same stream
  have kept := (Later.setOutput runner other later).outputs stream
  unfold OutputPipe
  rw [queue]
  exact pipe.mono kept.whole

theorem OutputPipe.change (change : Change runner next)
    (pipe : runner.OutputPipe stream entered passed) :
    next.OutputPipe stream entered passed := by
  cases change with
  | endGrace ending unfinished =>
    have silent := (runner.outputs stream).endGrace_silent
    change Pipe entered passed (runner.outputs stream).endGrace.queue
      (runner.outputs stream).endGrace.Whole
    rw [silent.1]
    refine pipe.drop fun whole => ?_
    have unmarked := whole.unmarked silent
    rw [Output.endGrace_eq] at unmarked
    simp only [Bool.or_eq_false_iff, Bool.not_eq_false', List.isEmpty_iff] at unmarked
    exact ⟨.inl unmarked.1, unmarked.2⟩
  | giveUp waiting unfinished unclean =>
    have silent : (runner.outputs stream).giveUp.Silent := by
      rw [Output.giveUp_eq]
      exact ⟨rfl, .inl rfl⟩
    change Pipe entered passed (runner.outputs stream).giveUp.queue
      (runner.outputs stream).giveUp.Whole
    rw [silent.1]
    refine pipe.drop fun whole => ?_
    have unmarked := whole.unmarked silent
    rw [Output.giveUp_eq] at unmarked
    simp only [Bool.or_eq_false_iff, Bool.not_eq_false', List.isEmpty_iff] at unmarked
    exact ⟨.inl unmarked.1.1, unmarked.1.2⟩
  | abandonOpenStreams fenced waiting unfinished =>
    have later := Output.Later.abandon (runner.outputs stream)
    change Pipe entered passed (runner.outputs stream).abandon.queue
      (runner.outputs stream).abandon.Whole
    rw [show (runner.outputs stream).abandon.queue =
      (runner.outputs stream).queue by rw [Output.abandon_eq]]
    exact pipe.mono later.whole
  | _ => exact pipe

theorem outputPipe_locallyKept (stream : Stream) (entered passed : List UInt8) :
    LocallyKept (fun call => ∀ bytes, call ≠ .output stream bytes)
      (fun _ => True) (OutputPipe stream entered passed) where
  change := fun step _ pipe => pipe.change step
  report := fun report _ _ pipe => by
    cases report with
    | setOutput other call output change =>
      refine pipe.setOutput ?_ (.workload change)
      cases change <;> rfl
    | _ => exact pipe
  output := fun {runner} other bytes permitted _ pipe => by
    have different : stream ≠ other := fun same =>
      permitted bytes (by rw [same])
    obtain ⟨_, _, _, _, same⟩ := output_frame runner other bytes
    rw [same]
    simpa only [OutputPipe, Function.update_of_ne different] using pipe
  popInput := fun _ _ _ _ pipe => pipe
  requests := fun requests _ pipe => by
    cases requests with
    | discard other waiting =>
      exact pipe.setOutput rfl { Output.Later.refl _ with
        discardRequested := by simp }
    | _ => exact pipe

theorem outputPipe_remotelyKept (stream : Stream) (entered passed : List UInt8) :
    RemotelyKept (fun _ => True) (OutputPipe stream entered passed) where
  change := fun step _ pipe => pipe.change step
  grant := fun _ _ _ pipe => pipe
  charge := fun _ _ _ _ _ pipe => by split <;> exact pipe
  peerEnds := fun _ _ _ pipe => pipe

theorem OutputPipe.output (pipe : runner.OutputPipe stream entered passed) (bytes : List UInt8) :
    (runner.output stream bytes).1.OutputPipe stream
      (entered ++ bytes.take (runner.output stream bytes).2) passed := by
  unfold Runner.output
  simp only
  split
  · rw [List.take_zero, List.append_nil]
    exact pipe
  · rename_i accepts
    simp only [Bool.or_eq_true, not_or, Bool.not_eq_true] at accepts
    split
    · rename_i discarding
      simp only [OutputPipe, Runner.setOutput, Function.update_self, List.take_length]
      refine pipe.lose fun whole => ?_
      simp only [Output.Whole, discarding, Bool.or_eq_false_iff,
        Bool.not_eq_false', List.isEmpty_iff, Bool.true_eq_false, and_false,
        or_false] at whole
      exact ⟨.inl whole.1, whole.2⟩
    · rename_i keeps
      have whole : (runner.outputs stream).Whole :=
        .inr ⟨accepts.1, Bool.eq_false_iff.mpr keeps⟩
      simp only [OutputPipe, Runner.setOutput, noteBuffered, Function.update_self]
      exact pipe.push whole _

theorem OutputPipe.emits (emits : Emits runner capacity next message)
    (pipe : runner.OutputPipe stream entered passed) :
    next.OutputPipe stream entered (passed ++
      message.toList.flatMap (Message.outputBytes stream)) := by
  have silent {message : Message} (none : message.outputBytes stream = []) :
      passed ++ [message].flatMap (Message.outputBytes stream) = passed := by
    simp [none]
  cases emits with
  | streamEnd other speaks started launched ending =>
    rw [Option.toList_some, silent rfl]
    exact pipe.setOutput rfl { Output.Later.refl _ with
      ended := fun _ => rfl }
  | output other length =>
    by_cases same : other = stream
    · subst other
      have passes := pipe.pass length
      simpa [OutputPipe, sentOutput, Message.outputBytes, Output.Whole] using passes
    · rw [Option.toList_some, silent (by simp [Message.outputBytes, same])]
      simpa only [OutputPipe, sentOutput, Function.update_of_ne (Ne.symm same)] using pipe
  | nothing quiet =>
    rw [Option.toList_none, List.flatMap_nil, List.append_nil]
    exact pipe
  | _ =>
    rw [Option.toList_some, silent rfl]
    exact pipe

theorem OutputPipe.step (consistent : runner.Consistent)
    (pipe : runner.OutputPipe stream entered passed) (call : Call) :
    (runner.step call).1.OutputPipe stream (entered ++ takenBy stream (call, (runner.step call).2))
      (passed ++ (sent (call, (runner.step call).2)).toList.flatMap
        (Message.outputBytes stream)) := by
  cases call with
  | act call =>
    have unsent : sent (.act call, (runner.step (.act call)).2) = none := by
      cases call <;> rfl
    rw [unsent, Option.toList_none, List.flatMap_nil, List.append_nil]
    by_cases outputs : ∃ bytes, call = .output stream bytes
    · obtain ⟨bytes, rfl⟩ := outputs
      simpa [takenBy, Runner.step, Runner.act] using pipe.output bytes
    · have others : ∀ bytes, call ≠ .output stream bytes :=
        fun bytes same => outputs ⟨bytes, same⟩
      have untaken : takenBy stream (.act call, (runner.step (.act call)).2) = [] := by
        cases call with
        | output other bytes =>
          have different : other ≠ stream := fun same =>
            others bytes (by rw [same])
          simp [takenBy, Runner.step, Runner.act, different]
        | _ => rfl
      rw [untaken, List.append_nil]
      exact (outputPipe_locallyKept stream entered passed).act runner others pipe
  | receive now key message =>
    simp only [takenBy, sent, Runner.step, List.append_nil, Option.toList_none, List.flatMap_nil]
    exact (outputPipe_remotelyKept stream entered passed).receive runner now key message pipe
  | nextMessage capacity =>
    simp only [takenBy, List.append_nil]
    exact pipe.emits (consistent.emits capacity)

end OutputPipe

section Runs

variable {start : Runner} (consistent : start.Consistent) (stream : Stream)

include consistent

theorem outputPipe_after (empty : (start.outputs stream).queue = []) (calls : List Call) :
    (machine.after start calls).OutputPipe stream (taken stream (machine.trace start calls))
      (sentBytes stream (machine.trace start calls)) := by
  refine run_invariant (fun trace runner =>
    runner.OutputPipe stream (taken stream trace) (sentBytes stream trace))
    consistent ?_ ?_ calls
  · simp only [OutputPipe, empty]
    exact .nil
  · intro trace runner call consistent pipe
    rw [taken_append, taken_singleton, sentBytes_append, sentBytes_singleton]
    exact pipe.step consistent call

theorem truncated_of_loses (calls : List Call) :
    ∀ event ∈ machine.trace start calls, loses stream event = true →
      ((machine.after start calls).outputs stream).truncated = true := by
  refine run_invariant (fun trace runner => ∀ event ∈ trace,
    loses stream event = true → (runner.outputs stream).truncated = true)
    consistent (by simp) ?_ calls
  intro trace runner call consistent held event member lost
  rw [List.mem_append, List.mem_singleton] at member
  rcases member with earlier | rfl
  · exact ((consistent.later call).outputs stream).truncated (held event earlier lost)
  · unfold loses at lost
    split at lost
    · rename_i other bytes value same
      obtain ⟨rfl, -⟩ := Prod.mk.inj same
      simp only [Bool.and_eq_true, decide_eq_true_eq] at lost
      obtain ⟨rfl, positive⟩ := lost
      simp [Runner.step, Runner.act, discarded, Runner.setOutput, positive]
    · rename_i other value same
      obtain ⟨rfl, -⟩ := Prod.mk.inj same
      obtain rfl := of_decide_eq_true lost
      simp [Runner.step, Runner.act, outputFailed, Runner.setOutput]
    · simp at lost

theorem taken_of_finished (finished : start.finished = true)
    (calls : List Call) : taken stream (machine.trace start calls) = [] := by
  have untaken := run_invariant (fun trace runner =>
    runner.finished = true ∧ taken stream trace = []) consistent
    ⟨finished, rfl⟩ ?_ calls
  · exact untaken.2
  · intro trace runner call consistent ⟨finished, untaken⟩
    refine ⟨(consistent.later call).finished finished, ?_⟩
    rw [taken_append, untaken, List.nil_append, taken_singleton]
    unfold takenBy
    split
    · rename_i other bytes count same
      have closed := ((consistent.outputs other).finished finished).1.1
      obtain ⟨rfl, same⟩ := Prod.mk.inj same
      simp only [Runner.step, Runner.act, Runner.output, closed, Bool.true_or,
        if_true, Return.taken.injEq] at same
      simp [← same]
    · rfl

theorem whole_of_untruncated (empty : (start.outputs stream).queue = []) {outcome : Outcome}
    (member : .terminal outcome ∈ messages (machine.trace start calls))
    (unmarked : outcome.isTruncated stream = false) :
    sentBytes stream (machine.trace start calls) = taken stream (machine.trace start calls) ∧
      ∀ event ∈ untilTerminal (machine.trace start calls), loses stream event = false := by
  obtain ⟨before, call, rest, rfl, until_, unfinished, concluded, rfl,
    returned, finishes⟩ := exists_conclusion consistent member
  have reached := consistent.after before
  have pipe := outputPipe_after consistent stream empty before
  have done := delivered_iff.mp (concluded.delivered stream)
  constructor
  · have stepped := reached.step call
    have ended : ((machine.after start before).step call).1.finished = true := by
      rw [finishes]
    have whole : ((machine.after start before).outputs stream).Whole :=
      .inl unmarked
    have untaken : takenBy stream (call, ((machine.after start before).step call).2) = [] := by
      unfold takenBy
      split
      · rename_i same
        rw [same] at returned
        simp [sent] at returned
      · rfl
    rw [OutputPipe, done.1.2] at pipe
    rw [machine.trace_append, sentBytes_append, taken_append,
      pipe.passed_eq whole, List.append_cancel_left_eq, Machine.trace,
      ← List.singleton_append, sentBytes_append, sentBytes_singleton,
      taken_append, taken_singleton, machine_step, returned, untaken]
    simp [Message.outputBytes, sentBytes, messages_of_finished stepped ended rest,
      taken_of_finished stepped stream ended rest]
  · intro event present
    rw [until_] at present
    by_contra lost
    have marked := truncated_of_loses consistent stream before event present (by simpa using lost)
    simp only [Outcome.isTruncated, report] at unmarked
    simp [marked] at unmarked

end Runs

end Runner

end Nvx.Exec
