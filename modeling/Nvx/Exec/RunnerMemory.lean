import Nvx.Exec.RunnerMessage

namespace Nvx.Exec.Runner

open Nvx.Data

/-! What bounds the runner's memory and its arithmetic, against any peer. -/

/-- No addition or subtraction left its word, in the calls so far or in the
allowances that the state gives. -/
structure InRange (runner : Runner) : Prop where
  credits : ∀ index, (runner.credits index).overflowed = false
  window : runner.input.window.overflowed = false
  inbox : runner.input.inbox.overflowed = false
  output : runner.overflowed = false
  readAllowance : ∀ stream, (runner.readAllowance stream).2 = false

structure Sound (runner : Runner) : Prop where
  credits : ∀ index, (runner.credits index).Sound runner.limits.output
  queues : ∀ stream, (runner.outputs stream).queue.length ≤ runner.limits.chunk
  window_eq : runner.input.window.window = runner.limits.input
  granted : runner.input.window.Sound runner.input.inbox.held
  accounted : runner.input.closed = false →
    runner.input.window.opened + runner.input.window.returnable +
      runner.input.inbox.held = runner.limits.input.size.toNat
  unit_eq : runner.input.inbox.unit = runner.limits.input.unit
  inbox : runner.input.inbox.Sound runner.limits.chunk
  inRange : runner.overflowed = false

namespace Sound

theorem new (key : Key) (limits : Limits) (timers : Timers) (now : Instant) :
    (Runner.new key limits timers now).Sound where
  credits := fun _ => Credit.Sound.new limits.output
  queues := fun _ => Nat.zero_le _
  window_eq := rfl
  granted := by
    rw [show (Runner.new key limits timers now).input.inbox.held = 0 from
      Inbox.held_new _]
    exact Granted.Sound.new limits.input
  accounted := by
    intro _
    rw [show (Runner.new key limits timers now).input.inbox.held = 0 from
      Inbox.held_new _]
    simp [Runner.new, Granted.new]
  unit_eq := rfl
  inbox := Inbox.Sound.new _ _
  inRange := rfl

variable {runner : Runner}

theorem held_lt (sound : runner.Sound) : runner.input.inbox.held < wordSize 32 := by
  have bounded := sound.granted.bounded
  have small := runner.input.window.window.size_lt
  omega

theorem of_eq {next : Runner} (sound : runner.Sound) (limits : next.limits = runner.limits)
    (credits : next.credits = runner.credits)
    (queues : ∀ stream, (next.outputs stream).queue.length ≤ (runner.outputs stream).queue.length)
    (window : next.input.window = runner.input.window)
    (inbox : next.input.inbox = runner.input.inbox)
    (closed : next.input.closed = false → runner.input.closed = false)
    (overflowed : next.overflowed = runner.overflowed) : next.Sound where
  credits := by
    rw [limits, credits]
    exact sound.credits
  queues := by
    intro stream
    rw [limits]
    exact Nat.le_trans (queues stream) (sound.queues stream)
  window_eq := by
    rw [window, limits]
    exact sound.window_eq
  granted := by
    rw [window, inbox]
    exact sound.granted
  accounted := by
    intro stillOpen
    rw [window, inbox, limits]
    exact sound.accounted (closed stillOpen)
  unit_eq := by
    rw [inbox, limits]
    exact sound.unit_eq
  inbox := by
    rw [inbox, limits]
    exact sound.inbox
  inRange := by
    rw [overflowed]
    exact sound.inRange

theorem setOutput (sound : runner.Sound) (stream : Stream) (next : Output)
    (shorter : next.queue.length ≤ (runner.outputs stream).queue.length) :
    (runner.setOutput stream next).Sound := by
  refine sound.of_eq rfl rfl (fun other => ?_) rfl rfl id rfl
  simp only [Runner.setOutput, Function.update_apply]
  split
  · rename_i same
    subst other
    exact shorter
  · exact Nat.le_refl _

theorem closeInput (sound : runner.Sound) : (runner.setInput { runner.input with
    closed := true
    inbox := runner.input.inbox.clear.1
    closedMessage := !runner.input.peerEnded && !runner.detached }).Sound := by
  obtain ⟨inbox, empty, _⟩ := sound.inbox.clear sound.held_lt
  refine ⟨sound.credits, sound.queues, sound.window_eq, ?_, by simp [setInput],
    ?_, inbox, sound.inRange⟩
  · simp only [setInput, empty]
    exact sound.granted.mono (Nat.zero_le _)
  · simpa [setInput] using sound.unit_eq

theorem change (change : Change runner next) (sound : runner.Sound) : next.Sound := by
  have dropped (output : Output) : output.dropQueue.queue.length ≤
      output.queue.length := Nat.zero_le _
  cases change with
  | closeInput stillOpen => exact sound.closeInput
  | terminate now cause first unfinished closed =>
    exact sound.of_eq rfl rfl (fun _ => Nat.le_refl _) rfl rfl id rfl
  | endGrace ending unfinished =>
    refine sound.of_eq rfl rfl (fun stream => ?_) rfl rfl id rfl
    simp only [endGrace, Output.endGrace]
    split <;> exact dropped _
  | giveUp waiting unfinished unclean =>
    refine sound.of_eq rfl rfl (fun stream => ?_) rfl rfl id rfl
    simp only [giveUp, Output.giveUp]
    split <;> exact dropped _
  | requestClose peerEnded stillOpen empty =>
    exact sound.of_eq rfl rfl (fun _ => Nat.le_refl _) rfl rfl (fun _ => stillOpen) rfl
  | abandonOpenStreams fenced waiting unfinished =>
    refine sound.of_eq rfl rfl (fun stream => ?_) rfl rfl id rfl
    simp only [abandonOpenStreams, Output.abandon]
    split <;> exact Nat.le_refl _
  | _ => exact sound.of_eq rfl rfl (fun _ => Nat.le_refl _) rfl rfl id rfl

theorem report (report : Report runner call next) (sound : runner.Sound) :
    next.Sound := by
  cases report with
  | setOutput stream call output change =>
    exact sound.setOutput stream _ (by cases change <;> exact Nat.le_refl _)
  | _ => exact sound.of_eq rfl rfl (fun _ => Nat.le_refl _) rfl rfl id rfl

theorem output (sound : runner.Sound) (stream : Stream) (bytes : List UInt8) :
    (runner.output stream bytes).1.Sound := by
  unfold Runner.output
  simp only
  split
  · exact sound
  · split
    · exact sound.setOutput stream _ (Nat.le_refl _)
    · have fits := sound.queues stream
      have room : overflowingSub 64 runner.limits.chunk (runner.outputs stream).queue.length =
            (runner.limits.chunk - (runner.outputs stream).queue.length, false) :=
        overflowingSub_of_le fits
      refine ⟨sound.credits, fun other => ?_, sound.window_eq, sound.granted,
        sound.accounted, sound.unit_eq, sound.inbox, ?_⟩
      · simp only [noteBuffered, Runner.setOutput, Function.update_apply, room]
        split
        · simp only [List.length_append, List.length_take]
          omega
        · exact sound.queues other
      · simpa [noteBuffered, Runner.setOutput, room] using sound.inRange

theorem popInput (sound : runner.Sound) (bytes : Nat) : (runner.popInput bytes).Sound := by
  obtain ⟨inbox, freed⟩ := sound.inbox.pop sound.held_lt bytes
  have granted := sound.granted
  rw [← freed] at granted
  refine ⟨sound.credits, sound.queues, ?_, granted.free, ?_, ?_, inbox, sound.inRange⟩
  · simpa [Runner.popInput, setInput, granted.free_eq] using sound.window_eq
  · intro stillOpen
    have accounted := sound.accounted stillOpen
    simp only [Runner.popInput, setInput, granted.free_eq]
    omega
  · simpa [Runner.popInput, setInput] using sound.unit_eq

theorem grant (sound : runner.Sound) {units : Nat} {granted : Credit}
    (accepted : (runner.credits index).grant units = .ok granted) :
    { runner with
      credits := Function.update runner.credits index granted }.Sound := by
  refine ⟨fun other => ?_, sound.queues, sound.window_eq, sound.granted,
    sound.accounted, sound.unit_eq, sound.inbox, sound.inRange⟩
  simp only [Function.update_apply]
  split
  · exact (sound.credits index).grant accepted
  · exact sound.credits other

theorem charge (sound : runner.Sound)
    (charged : runner.input.window.charge bytes.length = .ok window)
    (sized : 0 < bytes.length ∧ bytes.length ≤ runner.limits.chunk) :
    (if runner.input.closed then
        runner.setInput { runner.input with window := window }
      else
        (runner.setInput { runner.input with window := window }).holdInput bytes).Sound := by
  have granted := sound.granted.charge charged
  have window_eq : window.window = runner.limits.input := by
    obtain ⟨_, rfl⟩ := Granted.charge_ok charged
    exact sound.window_eq
  have small : bytes.length < wordSize 32 :=
    Nat.lt_of_le_of_lt sized.2 runner.limits.chunk_lt
  have unit_eq : runner.input.inbox.unit = runner.input.window.window.unit := by
    rw [sound.window_eq]
    exact sound.unit_eq
  split
  · rename_i closed
    exact ⟨sound.credits, sound.queues, window_eq,
      granted.mono (Nat.le_add_right _ _), by simp [setInput, closed],
      sound.unit_eq, sound.inbox,
      sound.inRange⟩
  · refine ⟨sound.credits, sound.queues, window_eq, ?_, ?_, sound.unit_eq,
      sound.inbox.push sized.1 sized.2, sound.inRange⟩
    · simp only [holdInput, noteBuffered, setInput]
      rw [Inbox.held_push unit_eq small]
      exact granted
    · intro stillOpen
      have accounted := sound.accounted stillOpen
      obtain ⟨fits, rfl⟩ := Granted.charge_ok charged
      simp only [holdInput, noteBuffered, setInput]
      rw [Inbox.held_push unit_eq small]
      omega

theorem requests (requests : Requests runner next request) (sound : runner.Sound) :
    next.Sound := by
  cases requests with
  | discard stream waiting => exact sound.setOutput stream _ (Nat.le_refl _)
  | _ => exact sound.of_eq rfl rfl (fun _ => Nat.le_refl _) rfl rfl id rfl

theorem opened_lt (sound : runner.Sound) : runner.input.window.opened < wordSize 32 := by
  have bounded := sound.granted.bounded
  have small := runner.input.window.window.size_lt
  omega

theorem emits (emits : Emits runner capacity next message) (sound : runner.Sound) :
    next.Sound := by
  cases emits with
  | credit speaks accepts positive =>
    refine ⟨sound.credits, sound.queues, ?_, sound.granted.takeGrant, ?_,
      sound.unit_eq, sound.inbox, sound.inRange⟩
    · simpa [sound.granted.takeGrant_eq] using sound.window_eq
    · intro stillOpen
      have accounted := sound.accounted stillOpen
      simp only [sound.granted.takeGrant_eq]
      omega
  | streamEnd stream speaks started launched ending =>
    exact (sound.setOutput stream { runner.outputs stream with ended := true }
      (Nat.le_refl _)).of_eq rfl rfl (fun _ => Nat.le_refl _) rfl rfl id rfl
  | output stream length speaks started launched positive queued chunked affordable =>
    have shorter : ((runner.outputs stream).queue.drop length).length ≤
        (runner.outputs stream).queue.length := by simp
    obtain ⟨_, queues, window_eq, granted, accounted, unit_eq, inbox, inRange⟩ :=
      sound.setOutput stream { runner.outputs stream with
        queue := (runner.outputs stream).queue.drop length } shorter
    refine ⟨fun index => ?_, queues, window_eq, granted, accounted, unit_eq, inbox, inRange⟩
    simp only [sentOutput, Function.update_apply]
    split
    · exact (sound.credits _).spend affordable
    · exact sound.credits index
  | _ => exact sound.of_eq rfl rfl (fun _ => Nat.le_refl _) rfl rfl id rfl

theorem kept : Kept Sound where
  change := fun change _ sound => sound.change change
  report := fun report _ _ sound => sound.report report
  output := fun stream bytes _ _ sound => sound.output stream bytes
  popInput := fun bytes _ _ _ sound => sound.popInput bytes
  grant := fun accepted _ _ sound => sound.grant accepted
  charge := fun charged sized _ _ _ sound => sound.charge charged sized
  peerEnds := fun _ _ _ sound =>
    sound.of_eq rfl rfl (fun _ => Nat.le_refl _) rfl rfl id rfl
  requests := fun requests _ sound => sound.requests requests
  emits := fun emits _ sound => sound.emits emits

theorem inbox_length_le (sound : runner.Sound) : runner.input.inbox.bytes.length ≤
      match runner.limits.input.unit with
      | .bytes => runner.limits.input.size.toNat
      | .frames => runner.limits.input.size.toNat * runner.limits.chunk := by
  have length := sound.inbox.length_le
  have bounded := sound.granted.bounded
  rw [sound.window_eq] at bounded
  rw [sound.unit_eq] at length
  cases kind : runner.limits.input.unit with
  | bytes =>
    simp only [kind] at length ⊢
    omega
  | frames =>
    simp only [kind] at length ⊢
    exact Nat.le_trans length (Nat.mul_le_mul_right _ (by omega))

theorem buffered_le (sound : runner.Sound) : runner.buffered ≤ runner.memoryBound := by
  have stdout := sound.queues .stdout
  have stderr := sound.queues .stderr
  have inbox := sound.inbox_length_le
  have word : runner.buffered < wordSize 64 :=
    Nat.mod_lt _ (by decide)
  have counted : runner.buffered ≤ (runner.outputs .stdout).queue.length +
      (runner.outputs .stderr).queue.length +
        runner.input.inbox.bytes.length := Nat.mod_le _ _
  unfold memoryBound Limits.inputBytes Window.bytesWith saturatingAdd saturatingMul
  cases kind : runner.limits.input.unit with
  | bytes | frames =>
    simp only [kind] at inbox ⊢
    omega

theorem arithmetic (sound : runner.Sound) : runner.InRange where
  credits := fun index => (sound.credits index).inRange
  window := sound.granted.inRange
  inbox := sound.inbox.inRange
  output := sound.inRange
  readAllowance := by
    intro stream
    unfold readAllowance
    simp only
    split
    · rfl
    · rw [overflowingSub_of_le (sound.queues stream)]

theorem after (key : Key) (limits : Limits) (timers : Timers) (now : Instant) (calls : List Call) :
    (machine.after (Runner.new key limits timers now) calls).Sound :=
  machine.invariant (fun _ runner => runner.Sound) (Sound.new key limits timers now)
    (fun _ call sound => kept.step sound.opened_lt call sound) calls

end Sound

end Nvx.Exec.Runner
