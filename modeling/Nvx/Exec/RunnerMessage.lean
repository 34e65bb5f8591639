import Nvx.Exec.RunnerChange

namespace Nvx.Exec.Runner

open Nvx.Data

/-! What `next_message` and `next_request` return, and under which conditions. -/

def sentOutput (runner : Runner) (stream : Stream) (length : Nat) : Runner :=
  { runner with
    outputs := Function.update runner.outputs stream
      { runner.outputs stream with
        queue := (runner.outputs stream).queue.drop length }
    credits := Function.update runner.credits (runner.limits.poolOf stream)
      ((runner.credits (runner.limits.poolOf stream)).spend length)
    turn := stream.other
    credited := false }

/-- A runner that may send messages other than its terminal outcome. -/
structure Speaks (runner : Runner) : Prop where
  unfinished : runner.finished = false
  attached : runner.detached = false

/-- Why the runner has nothing to send into a buffer of `capacity` bytes. -/
structure Quiet (runner : Runner) (capacity : Nat) : Prop where
  started : runner.startedMessage = false
  inputClosed : runner.input.closedMessage = false
  ends : runner.awaitsLaunch = false → ∀ stream, runner.endsNow stream = false
  output : runner.awaitsLaunch = false → ∀ stream,
    (runner.credits (runner.limits.poolOf stream)).sendable
      (min (min (runner.outputs stream).queue.length runner.limits.chunk) capacity) = 0
  credit : runner.inputAccepts = true → runner.input.window.returnable = 0

inductive Emits (runner : Runner) (capacity : Nat) : Runner → Option Message → Prop
  | credit (speaks : runner.Speaks) (accepts : runner.inputAccepts = true)
      (positive : 0 < runner.input.window.returnable) :
      Emits runner capacity
        { runner with
          input := { runner.input with
            window := runner.input.window.takeGrant.1 }
          credited := true }
        (some (.credit runner.input.window.returnable))
  | started (speaks : runner.Speaks) (waiting : runner.startedMessage = true) :
      Emits runner capacity { runner with startedMessage := false, credited := false }
        (some .started)
  | inputClosed (speaks : runner.Speaks) (waiting : runner.input.closedMessage = true) :
      Emits runner capacity
        { runner with
          input := { runner.input with closedMessage := false }
          credited := false }
        (some .inputClosed)
  | streamEnd (stream : Stream) (speaks : runner.Speaks) (started : runner.startedMessage = false)
      (launched : runner.awaitsLaunch = false)
      (ending : runner.endsNow stream = true) :
      Emits runner capacity
        { runner with
          outputs := Function.update runner.outputs stream
            { runner.outputs stream with ended := true }
          credited := false }
        (some (.streamEnd stream))
  | output (stream : Stream) (length : Nat) (speaks : runner.Speaks)
      (started : runner.startedMessage = false)
      (launched : runner.awaitsLaunch = false)
      (positive : 0 < length)
      (queued : length ≤ (runner.outputs stream).queue.length)
      (chunked : length ≤ runner.limits.chunk)
      (affordable : (runner.credits (runner.limits.poolOf stream)).window.cost
        length ≤ (runner.credits (runner.limits.poolOf stream)).available) :
      Emits runner capacity (runner.sentOutput stream length)
        (some (.output stream ((runner.outputs stream).queue.take length)))
  | terminal (outcome : Outcome) (unfinished : runner.finished = false)
      (ended : runner.outcome = some outcome)
      (quiet : runner.detached = false → runner.Quiet capacity) :
      Emits runner capacity { runner with finished := true } (some (.terminal outcome))
  | nothing (quiet : runner.finished = false → runner.outcome = none ∧
          (runner.detached = false → runner.Quiet capacity)) :
      Emits runner capacity runner none

theorem nextCredit_cases {runner : Runner} (small : runner.input.window.opened < wordSize 32) :
    runner.nextCredit = (runner, none) ∧
        (runner.inputAccepts = true → runner.input.window.returnable = 0) ∨
      runner.inputAccepts = true ∧ 0 < runner.input.window.returnable ∧ runner.nextCredit =
          (runner.setInput { runner.input with
              window := runner.input.window.takeGrant.1 },
            some (.credit runner.input.window.returnable)) := by
  unfold nextCredit
  by_cases accepts : runner.inputAccepts = true
  · rw [accepts, if_neg (by simp)]
    rcases Nat.eq_zero_or_pos runner.input.window.returnable with zero | positive
    · rw [Granted.takeGrant_of_zero small zero]
      exact .inl ⟨rfl, fun _ => zero⟩
    · refine .inr ⟨rfl, positive, ?_⟩
      simp [Granted.takeGrant, positive]
  · rw [if_pos (by simp [accepts])]
    exact .inl ⟨rfl, fun accepted => absurd accepted accepts⟩

theorem tryOutput_cases (runner : Runner) (capacity : Nat) : runner.tryOutput capacity =
          ({ runner with turn := runner.turn.other }, none) ∧
        (runner.credits (runner.limits.poolOf runner.turn)).sendable
          (min (min (runner.outputs runner.turn).queue.length runner.limits.chunk) capacity) = 0 ∨
      ∃ length, 0 < length ∧ length ≤ (runner.outputs runner.turn).queue.length ∧
        length ≤ runner.limits.chunk ∧
        (runner.credits (runner.limits.poolOf runner.turn)).window.cost length ≤
            (runner.credits (runner.limits.poolOf runner.turn)).available ∧
        runner.tryOutput capacity =
          ({ runner.sentOutput runner.turn length with
              credited := runner.credited },
            some (.output runner.turn ((runner.outputs runner.turn).queue.take length))) := by
  unfold tryOutput
  simp only
  split
  · rename_i positive
    have bounded := Credit.sendable_le (runner.credits (runner.limits.poolOf runner.turn))
      (min (min (runner.outputs runner.turn).queue.length runner.limits.chunk) capacity)
    refine .inr ⟨_, positive, by omega, by omega,
      Credit.cost_sendable_le positive, ?_⟩
    rw [take_of_le (by omega) (by omega)]
    rfl
  · rename_i none
    exact .inl ⟨rfl, by omega⟩

/-- The output loop leaves the turn where it was, or sends from some stream. -/
theorem nextOutput_cases (runner : Runner) (capacity : Nat) :
    runner.nextOutput capacity = (runner, none) ∧
        (∀ stream, (runner.credits (runner.limits.poolOf stream)).sendable
          (min (min (runner.outputs stream).queue.length runner.limits.chunk) capacity) = 0) ∨
      ∃ stream length, 0 < length ∧ length ≤ (runner.outputs stream).queue.length ∧
        length ≤ runner.limits.chunk ∧
        (runner.credits (runner.limits.poolOf stream)).window.cost length ≤
          (runner.credits (runner.limits.poolOf stream)).available ∧
        runner.nextOutput capacity =
          ({ runner.sentOutput stream length with credited := runner.credited },
            some (.output stream ((runner.outputs stream).queue.take length))) := by
  unfold nextOutput
  rcases runner.tryOutput_cases capacity with
    ⟨tried, none⟩ | ⟨length, positive, queued, chunked, affordable, sent⟩
  · rw [tried]
    simp only
    rcases tryOutput_cases { runner with turn := runner.turn.other } capacity
      with ⟨again, noneOther⟩ | ⟨length, positive, queued, chunked, affordable, sent⟩
    · refine .inl ⟨?_, ?_⟩
      · rw [again]
        simp only [Stream.other_other]
      · intro stream
        rcases stream.eq_or_eq_other runner.turn with rfl | rfl
        · exact none
        · exact noneOther
    · exact .inr ⟨runner.turn.other, length, positive, queued, chunked, affordable, sent⟩
  · rw [sent]
    exact .inr ⟨runner.turn, length, positive, queued, chunked, affordable, rfl⟩

/-- What `next_message` tries after the credit: its first message, which clears
`credited`, or none. -/
theorem nextOther_cases (runner : Runner) (capacity : Nat) (speaks : runner.Speaks) :
    runner.nextOther capacity = (runner, none) ∧
        (runner.startedMessage = false ∧ runner.input.closedMessage = false ∧
          (runner.awaitsLaunch = false → ∀ stream, runner.endsNow stream = false) ∧
          (runner.awaitsLaunch = false → ∀ stream,
            (runner.credits (runner.limits.poolOf stream)).sendable
              (min (min (runner.outputs stream).queue.length runner.limits.chunk) capacity) = 0)) ∨
      ∃ next message, runner.nextOther capacity = (next, some message) ∧
        Emits runner capacity { next with credited := false } (some message) := by
  unfold nextOther
  split
  · rename_i waiting
    exact .inr ⟨_, _, rfl, .started speaks waiting⟩
  · rename_i started
    have noStarted : runner.startedMessage = false :=
      Bool.eq_false_iff.mpr started
    split
    · rename_i waiting
      exact .inr ⟨_, _, rfl, .inputClosed speaks waiting⟩
    · rename_i closed
      have noClosed : runner.input.closedMessage = false :=
        Bool.eq_false_iff.mpr closed
      split
      · rename_i launched
        have noLaunch : runner.awaitsLaunch = false := by simpa using launched
        split
        · rename_i ending
          exact .inr ⟨_, _, rfl, .streamEnd .stdout speaks noStarted noLaunch ending⟩
        · rename_i stdout
          split
          · rename_i ending
            exact .inr ⟨_, _, rfl, .streamEnd .stderr speaks noStarted noLaunch ending⟩
          · rename_i stderr
            rcases runner.nextOutput_cases capacity with
              ⟨unsent, none⟩ |
              ⟨stream, length, positive, queued, chunked, affordable, sent⟩
            · refine .inl ⟨unsent, noStarted, noClosed, fun _ => ?_, fun _ => none⟩
              rw [Stream.forall_iff]
              exact ⟨Bool.eq_false_iff.mpr stdout, Bool.eq_false_iff.mpr stderr⟩
            · exact .inr ⟨_, _, sent, .output stream length speaks noStarted
                noLaunch positive queued chunked affordable⟩
      · rename_i awaiting
        have awaits : runner.awaitsLaunch = true := by simpa using awaiting
        exact .inl ⟨rfl, noStarted, noClosed, by simp [awaits],
          by simp [awaits]⟩

theorem finish_emits (unfinished : runner.finished = false)
    (quiet : runner.detached = false → runner.Quiet capacity) :
    Emits runner capacity runner.finish.1 runner.finish.2 := by
  unfold finish
  cases ended : runner.outcome with
  | none => exact .nothing fun _ => ⟨ended, quiet⟩
  | some outcome => exact .terminal outcome unfinished ended quiet

theorem nextAfterCredit_emits (small : runner.input.window.opened < wordSize 32) (capacity : Nat)
    (speaks : runner.Speaks) :
    Emits runner capacity (runner.nextAfterCredit capacity).1
      (runner.nextAfterCredit capacity).2 := by
  unfold nextAfterCredit
  rcases runner.nextOther_cases capacity speaks with
    ⟨silent, started, closed, ends, output⟩ | ⟨next, message, sent, emits⟩
  · rw [silent]
    simp only
    rcases nextCredit_cases small with
      ⟨none, exhausted⟩ | ⟨accepts, positive, credit⟩
    · rw [none]
      exact finish_emits speaks.unfinished fun _ => ⟨started, closed, ends, output, exhausted⟩
    · rw [credit]
      exact .credit speaks accepts positive
  · rw [sent]
    exact emits

theorem nextMessage_emits (small : runner.input.window.opened < wordSize 32) (capacity : Nat) :
    Emits runner capacity (runner.nextMessage capacity).1 (runner.nextMessage capacity).2 := by
  unfold nextMessage
  split
  · rename_i finished
    exact .nothing (by simp [finished])
  · rename_i ongoing
    have unfinished : runner.finished = false := Bool.eq_false_iff.mpr ongoing
    split
    · rename_i detached
      exact finish_emits unfinished (by simp [detached])
    · rename_i attached
      have speaks : runner.Speaks :=
        ⟨unfinished, Bool.eq_false_iff.mpr attached⟩
      by_cases credited : runner.credited = true
      · simpa only [credited, if_true] using nextAfterCredit_emits small capacity speaks
      · simp only [credited, Bool.false_eq_true, if_false]
        rcases nextCredit_cases small with
          ⟨none, _⟩ | ⟨accepts, positive, credit⟩
        · rw [none]
          exact nextAfterCredit_emits small capacity speaks
        · rw [credit]
          exact .credit speaks accepts positive

inductive Requests (runner : Runner) : Runner → Option Request → Prop
  | terminate (cause : Cause) (waiting : runner.terminateRequest = some cause) :
      Requests runner { runner with terminateRequest := none } (some (.terminate cause))
  | discard (stream : Stream) (waiting : (runner.outputs stream).discardRequested = true) :
      Requests runner
        (runner.setOutput stream { runner.outputs stream with
          discardRequested := false })
        (some (.discard stream))
  | closeInput (waiting : runner.input.closeRequested = true) : Requests runner
        (runner.setInput { runner.input with closeRequested := false })
        (some .closeInput)
  | settle (waiting : runner.settleRequest = true) :
      Requests runner { runner with settleRequest := false } (some .settle)
  | nothing : Requests runner runner none

theorem nextRequest_requests (runner : Runner) :
    Requests runner runner.nextRequest.1 runner.nextRequest.2 := by
  unfold nextRequest
  split
  · rename_i cause waiting
    exact .terminate cause waiting
  · simp only
    split
    · rename_i waiting
      exact .discard .stdout waiting
    · split
      · rename_i waiting
        exact .discard .stderr waiting
      · split
        · rename_i waiting
          exact .closeInput waiting
        · split
          · rename_i waiting
            exact .settle waiting
          · exact .nothing

/-- What the `allowed` local calls have to keep for `holds` to persist across
them in the states that satisfy `Inv`. -/
structure LocallyKept (allowed : LocalCall → Prop) (Inv holds : Runner → Prop) : Prop where
  change : ∀ {runner next}, Change runner next → Inv runner → holds runner → holds next
  report : ∀ {runner call next}, Report runner call next → allowed call →
    Inv runner → holds runner → holds next
  output : ∀ {runner} stream bytes, allowed (.output stream bytes) →
    Inv runner → holds runner → holds (runner.output stream bytes).1
  popInput : ∀ {runner} bytes, allowed (.inputWritten bytes) →
    runner.input.closed = false → Inv runner → holds runner → holds (runner.popInput bytes)
  requests : ∀ {runner next request}, Requests runner next request →
    Inv runner → holds runner → holds next

structure RemotelyKept (Inv holds : Runner → Prop) : Prop where
  change : ∀ {runner next}, Change runner next → Inv runner → holds runner → holds next
  grant : ∀ {runner index units granted}, (runner.credits index).grant units = .ok granted →
    runner.finished = false → Inv runner → holds runner →
      holds { runner with
        credits := Function.update runner.credits index granted }
  charge : ∀ {runner window} {bytes : List UInt8},
    runner.input.window.charge bytes.length = .ok window →
    0 < bytes.length ∧ bytes.length ≤ runner.limits.chunk →
    runner.finished = false → runner.input.peerEnded = false →
    Inv runner → holds runner → holds (if runner.input.closed then
          runner.setInput { runner.input with window := window }
        else
          (runner.setInput { runner.input with window := window }).holdInput bytes)
  peerEnds : ∀ {runner}, runner.finished = false →
    runner.input.peerEnded = false → Inv runner → holds runner →
      holds (runner.setInput { runner.input with peerEnded := true })

structure KeptUnder (Inv holds : Runner → Prop) : Prop extends
    LocallyKept (fun _ => True) Inv holds, RemotelyKept Inv holds where
  emits : ∀ {runner next capacity message},
    Emits runner capacity next message → Inv runner → holds runner → holds next

abbrev Kept : (Runner → Prop) → Prop := KeptUnder fun _ => True

theorem LocallyKept.and {allowed : LocalCall → Prop} {Inv holds : Runner → Prop} (inv : Kept Inv)
    (kept : LocallyKept allowed Inv holds) :
    LocallyKept allowed (fun _ => True) fun runner => Inv runner ∧ holds runner where
  change := fun change _ held =>
    ⟨inv.change change trivial held.1, kept.change change held.1 held.2⟩
  report := fun report permitted _ held =>
    ⟨inv.report report trivial trivial held.1, kept.report report permitted held.1 held.2⟩
  output := fun stream bytes permitted _ held =>
    ⟨inv.output stream bytes trivial trivial held.1,
      kept.output stream bytes permitted held.1 held.2⟩
  popInput := fun bytes permitted stillOpen _ held =>
    ⟨inv.popInput bytes trivial stillOpen trivial held.1,
      kept.popInput bytes permitted stillOpen held.1 held.2⟩
  requests := fun requests _ held =>
    ⟨inv.requests requests trivial held.1, kept.requests requests held.1 held.2⟩

theorem RemotelyKept.and {Inv holds : Runner → Prop} (inv : Kept Inv)
    (kept : RemotelyKept Inv holds) :
    RemotelyKept (fun _ => True) fun runner => Inv runner ∧ holds runner where
  change := fun change _ held =>
    ⟨inv.change change trivial held.1, kept.change change held.1 held.2⟩
  grant := fun accepted unfinished _ held =>
    ⟨inv.grant accepted unfinished trivial held.1, kept.grant accepted unfinished held.1 held.2⟩
  charge := fun charged sized unfinished unended _ held =>
    ⟨inv.charge charged sized unfinished unended trivial held.1,
      kept.charge charged sized unfinished unended held.1 held.2⟩
  peerEnds := fun unfinished unended _ held =>
    ⟨inv.peerEnds unfinished unended trivial held.1, kept.peerEnds unfinished unended held.1 held.2⟩

theorem KeptUnder.and {Inv holds : Runner → Prop} (inv : Kept Inv) (kept : KeptUnder Inv holds) :
    Kept fun runner => Inv runner ∧ holds runner :=
  { LocallyKept.and inv kept.toLocallyKept,
    RemotelyKept.and inv kept.toRemotelyKept with
    emits := fun emits _ held =>
      ⟨inv.emits emits trivial held.1, kept.emits emits held.1 held.2⟩ }

theorem KeptUnder.mono {Inv weaker holds : Runner → Prop} (kept : KeptUnder weaker holds)
    (implies : ∀ {runner}, Inv runner → weaker runner) :
    KeptUnder Inv holds where
  change := fun change inv => kept.change change (implies inv)
  report := fun report permitted inv =>
    kept.report report permitted (implies inv)
  output := fun stream bytes permitted inv =>
    kept.output stream bytes permitted (implies inv)
  popInput := fun bytes permitted stillOpen inv =>
    kept.popInput bytes permitted stillOpen (implies inv)
  requests := fun requests inv => kept.requests requests (implies inv)
  grant := fun accepted unfinished inv =>
    kept.grant accepted unfinished (implies inv)
  charge := fun charged sized unfinished unended inv =>
    kept.charge charged sized unfinished unended (implies inv)
  peerEnds := fun unfinished unended inv =>
    kept.peerEnds unfinished unended (implies inv)
  emits := fun emits inv => kept.emits emits (implies inv)

theorem LocallyKept.evolves (kept : LocallyKept allowed (fun _ => True) holds)
    (chain : Evolves runner next) (held : holds runner) : holds next :=
  chain.preserves (fun _ _ change => kept.change change trivial) held

theorem LocallyKept.act (kept : LocallyKept allowed (fun _ => True) holds)
    (runner : Runner) (permitted : allowed call)
    (held : holds runner) : holds (runner.act call).1 := by
  have evolves {next : Runner} (chain : Evolves runner next) : holds next :=
    kept.evolves chain held
  have changes {stream : Stream} {next : Output}
      (change : Output.Change (runner.outputs stream) stream call next) :
      holds (runner.setOutput stream next) :=
    kept.report (.setOutput stream call next change) permitted trivial held
  cases call with
  | launched result =>
    simp only [Runner.act]
    rcases runner.launched_reports result with
      same | ⟨reported, report, chain⟩
    · rwa [same]
    · exact kept.evolves chain (kept.report report permitted trivial held)
  | output stream bytes =>
    exact kept.output stream bytes permitted trivial held
  | discarded stream bytes => exact changes (.discarded bytes)
  | outputClosed stream => exact changes .closed
  | outputFailed stream => exact changes .failed
  | outputHungUp stream => exact changes .hungUp
  | inputWritten bytes =>
    simp only [Runner.act, inputWritten]
    split
    · exact held
    · rename_i stillOpen
      exact kept.evolves (closeInputWhenTaken_evolves _)
        (kept.popInput bytes permitted (Bool.eq_false_iff.mpr stillOpen)
          trivial held)
  | inputClosed => exact evolves runner.closeInput_evolves
  | exited now status =>
    simp only [Runner.act]
    obtain ⟨ticked, chain, same | report⟩ := runner.exited_reports now status
    · rw [same]
      exact evolves chain
    · exact kept.report report permitted trivial (evolves chain)
  | settled result =>
    simp only [Runner.act]
    rcases runner.settled_reports result with chain | report
    · exact evolves chain
    · exact kept.report report permitted trivial held
  | dropped now => exact evolves (runner.detach_evolves now .dropped)
  | reset now => exact evolves (runner.detach_evolves now .reset)
  | disconnect now => exact evolves (runner.detach_evolves now .disconnected)
  | tick now => exact evolves (runner.tick_evolves now)
  | nextRequest => exact kept.requests runner.nextRequest_requests trivial held

theorem RemotelyKept.evolves (kept : RemotelyKept (fun _ => True) holds)
    (chain : Evolves runner next) (held : holds runner) : holds next :=
  chain.preserves (fun _ _ change => kept.change change trivial) held

theorem RemotelyKept.receive (kept : RemotelyKept (fun _ => True) holds)
    (runner : Runner) (now : Instant) (key : Key) (message : Peer.Message)
    (held : holds runner) : holds (runner.receive now key message).1 := by
  cases message with
  | cancel cause => exact kept.evolves (runner.cancel_evolves now key cause) held
  | credit pool units =>
    rcases runner.credit_cases key pool units with
      same | ⟨index, granted, accepted, _, unfinished, granting⟩
    · simpa only [Runner.receive, same] using held
    · simp only [Runner.receive, granting]
      exact kept.grant accepted unfinished trivial held
  | input bytes =>
    rcases runner.receiveInput_cases key bytes with
      same | ⟨window, charged, sized, unfinished, unended, accepted⟩
    · simpa only [Runner.receive, same] using held
    · simp only [Runner.receive, accepted]
      exact kept.charge charged sized unfinished unended trivial held
  | inputEnd =>
    rcases runner.endInput_cases key with
      same | ⟨unfinished, unended, accepted⟩
    · simpa only [Runner.receive, same] using held
    · simp only [Runner.receive, accepted]
      exact kept.evolves (closeInputWhenTaken_evolves _)
        (kept.peerEnds unfinished unended trivial held)

theorem Kept.step (kept : Kept holds)
    (small : runner.input.window.opened < wordSize 32) (call : Call)
    (held : holds runner) : holds (runner.step call).1 := by
  cases call with
  | act call => exact kept.toLocallyKept.act runner trivial held
  | receive now key message =>
    exact kept.toRemotelyKept.receive runner now key message held
  | nextMessage capacity =>
    exact kept.emits (nextMessage_emits small capacity) trivial held

end Nvx.Exec.Runner
