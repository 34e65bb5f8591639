import Nvx.Exec.RunnerBytes
import Nvx.Exec.RunnerClock

namespace Nvx.Exec.Runner

open Nvx.Data

/-! How terminations begin, and what becomes of a workload that ends without
one. -/

structure Untimed (call : Call) (runner next : Runner) : Prop where
  terminatedAt : next.terminatedAt = runner.terminatedAt
  cause : next.cause = runner.cause
  detached : next.detached = runner.detached
  abandonAt : next.abandonAt = runner.abandonAt
  truncated : ∀ stream value, loses stream (call, value) = false → runner.terminatedAt = none →
      (next.outputs stream).truncated = (runner.outputs stream).truncated

theorem setOutput_truncated {runner : Runner} {output : Output}
    (same : output.truncated = (runner.outputs stream).truncated) (other : Stream) :
    ((runner.setOutput stream output).outputs other).truncated =
      (runner.outputs other).truncated := by
  simp only [Runner.setOutput, Function.update_apply]
  split
  · rename_i found
    rw [found, same]
  · rfl

namespace Untimed

variable {call : Call} {runner next : Runner}

theorem refl (call : Call) (runner : Runner) : Untimed call runner runner :=
  ⟨rfl, rfl, rfl, rfl, fun _ _ _ _ => rfl⟩

theorem setOutput {stream : Stream} {output : Output}
    (same : ∀ value, loses stream (call, value) = false → runner.terminatedAt = none →
        output.truncated = (runner.outputs stream).truncated) :
    Untimed call runner (runner.setOutput stream output) where
  terminatedAt := rfl
  cause := rfl
  detached := rfl
  abandonAt := rfl
  truncated := fun other value lossless undisturbed => by
    by_cases found : other = stream
    · subst other
      exact setOutput_truncated (same value lossless undisturbed) stream
    · simp [Runner.setOutput, Function.update_of_ne found]

theorem closeInput (call : Call) (runner : Runner) : Untimed call runner runner.closeInput := by
  rw [closeInput_eq]
  exact ⟨rfl, rfl, rfl, rfl, fun _ _ _ _ => rfl⟩

theorem closeInputWhenTaken (call : Call) (runner : Runner) :
    Untimed call runner runner.closeInputWhenTaken := by
  unfold Runner.closeInputWhenTaken
  split <;> exact ⟨rfl, rfl, rfl, rfl, fun _ _ _ _ => rfl⟩

theorem output (consistent : runner.Consistent) (stream : Stream) (bytes : List UInt8) :
    Untimed (.act (.output stream bytes)) runner (runner.output stream bytes).1 := by
  unfold Runner.output
  simp only
  split
  · exact refl _ runner
  · split
    · rename_i discarding
      apply setOutput
      intro _ _ undisturbed
      have terminated :=
        (consistent.outputs stream).discarding (by simpa using discarding)
      simp [undisturbed] at terminated
    · refine ⟨rfl, rfl, rfl, rfl, fun other _ _ _ => ?_⟩
      apply setOutput_truncated
      rfl

theorem act (consistent : runner.Consistent) {call : LocalCall}
    (silent : (Call.act call).ticks runner.key = none) :
    Untimed (.act call) runner (runner.act call).1 := by
  cases call with
  | launched result =>
    simp only [Runner.act, Runner.launched]
    split
    · exact refl _ runner
    · cases result with
      | ok value => exact ⟨rfl, rfl, rfl, rfl, fun _ _ _ _ => rfl⟩
      | error failure =>
        exact { closeInput (.act (.launched (.error failure))) { runner with
          launch := some (.error failure) } with }
  | output stream bytes => exact output consistent stream bytes
  | inputWritten bytes =>
    simp only [Runner.act, Runner.inputWritten]
    split
    · exact refl _ runner
    · exact { closeInputWhenTaken _ (runner.popInput bytes) with }
  | inputClosed => exact closeInput _ runner
  | settled result =>
    simp only [Runner.act, Runner.settled]
    split <;> exact ⟨rfl, rfl, rfl, rfl, fun _ _ _ _ => rfl⟩
  | nextRequest =>
    have requests := runner.nextRequest_requests
    simp only [Runner.act]
    generalize runner.nextRequest.1 = next at requests ⊢
    generalize runner.nextRequest.2 = request at requests
    cases requests with
    | discard stream waiting => exact setOutput fun _ _ _ => rfl
    | _ => exact ⟨rfl, rfl, rfl, rfl, fun _ _ _ _ => rfl⟩
  | discarded stream bytes =>
    apply setOutput
    intro value lossless _
    simp only [loses, decide_true, Bool.true_and] at lossless
    simp [lossless]
  | outputClosed stream | outputHungUp stream => exact setOutput fun _ _ _ => rfl
  | outputFailed stream =>
    apply setOutput
    intro value lossless _
    simp [loses] at lossless
  | _ => simp [Call.ticks] at silent

theorem receive {key : Key} (silent : (Call.receive now key message).ticks runner.key = none) :
    Untimed (.receive now key message) runner (runner.receive now key message).1 := by
  cases message with
  | cancel cause =>
    have foreign : key ≠ runner.key := by
      rintro rfl
      simp [Call.ticks] at silent
    rw [Runner.receive, cancel, Key.receive_of_ne foreign]
    exact refl _ runner
  | credit pool units =>
    rcases runner.credit_cases key pool units with
      same | ⟨_, _, _, _, _, granting⟩
    · rw [Runner.receive, same]
      exact refl _ runner
    · rw [Runner.receive, granting]
      exact ⟨rfl, rfl, rfl, rfl, fun _ _ _ _ => rfl⟩
  | input bytes =>
    rcases runner.receiveInput_cases key bytes with
      same | ⟨_, _, _, _, _, accepted⟩
    · rw [Runner.receive, same]
      exact refl _ runner
    · rw [Runner.receive, accepted]
      split <;> exact ⟨rfl, rfl, rfl, rfl, fun _ _ _ _ => rfl⟩
  | inputEnd =>
    rcases runner.endInput_cases key with same | ⟨_, _, accepted⟩
    · rw [Runner.receive, same]
      exact refl _ runner
    · rw [Runner.receive, accepted]
      exact { closeInputWhenTaken _ (runner.setInput { runner.input with
        peerEnded := true }) with }

theorem of_silent (consistent : runner.Consistent) (silent : call.ticks runner.key = none) :
    Untimed call runner (runner.step call).1 := by
  cases call with
  | act call => exact act consistent silent
  | receive now key message => exact receive silent
  | nextMessage capacity =>
    have emits := consistent.emits capacity
    simp only [Runner.step]
    generalize (runner.nextMessage capacity).1 = next at emits ⊢
    generalize (runner.nextMessage capacity).2 = message at emits
    cases emits with
    | streamEnd stream | output stream length =>
      refine ⟨rfl, rfl, rfl, rfl, fun other _ _ _ => ?_⟩
      apply setOutput_truncated
      rfl
    | _ => exact ⟨rfl, rfl, rfl, rfl, fun _ _ _ _ => rfl⟩

end Untimed

@[simp] theorem tickGrace_terminatedAt (runner : Runner) (now : Instant) :
    (runner.tickGrace now).terminatedAt = runner.terminatedAt := by
  unfold tickGrace
  split <;> rfl

theorem tickSettlement_eq (runner : Runner) (now : Instant) :
    ∃ settling, runner.tickSettlement now = { runner with settling := settling } := by
  unfold tickSettlement
  split
  · split
    · exact ⟨_, rfl⟩
    · exact ⟨_, rfl⟩
  · exact ⟨_, rfl⟩

@[simp] theorem tickSettlement_terminatedAt (runner : Runner) (now : Instant) :
    (runner.tickSettlement now).terminatedAt = runner.terminatedAt := by
  obtain ⟨settling, same⟩ := runner.tickSettlement_eq now
  rw [same]

@[simp] theorem tickGiveUp_terminatedAt (runner : Runner) (now : Instant) :
    (runner.tickGiveUp now).terminatedAt = runner.terminatedAt := by
  unfold tickGiveUp
  split
  · split <;> rfl
  · rfl

/-- What a tick at `now` does to a runner that is not terminated: it lets the
streams be, or abandons those that the workload left open. -/
inductive Waits (runner : Runner) (now : Instant) (next : Runner) : Prop
  | keeps (abandonAt : next.abandonAt = runner.abandonAt) (outputs : next.outputs = runner.outputs)
      (clean : reached runner.abandonAt now = true →
        next.settling ≠ .fenced ∧ next.awaitsLaunch = false)
  | abandons (due : reached runner.abandonAt now = true) (abandonAt : next.abandonAt = none)
      (fenced : next.settling = .fenced)
      (outputs : next.outputs = fun stream => (runner.outputs stream).abandon)

theorem tickAbandon_waits (runner : Runner) (now : Instant) :
    Waits runner now (runner.tickAbandon now) := by
  unfold tickAbandon
  split
  · rename_i due
    by_cases awaits : runner.awaitsLaunch = true
    · simp only [awaits, if_true]
      rw [if_pos (by rfl)]
      exact .abandons due rfl rfl rfl
    · simp only [awaits, Bool.false_eq_true, if_false]
      split
      · rename_i fenced
        exact .abandons due rfl fenced rfl
      · rename_i notFenced
        exact .keeps rfl rfl fun _ =>
          ⟨notFenced, Bool.eq_false_iff.mpr awaits⟩
  · rename_i early
    exact .keeps rfl rfl fun due => absurd due early

@[simp] theorem tickAbandon_terminatedAt (runner : Runner) (now : Instant) :
    (runner.tickAbandon now).terminatedAt = runner.terminatedAt := by
  unfold tickAbandon
  split
  · cases runner.awaitsLaunch <;>
      simp only [Bool.false_eq_true, if_false, if_true] <;> split <;> rfl
  · rfl

theorem tick_terminatedAt {runner : Runner} {now : Instant} (unfinished : runner.finished = false) :
    (runner.tick now).terminatedAt = (runner.tickTimeout now).terminatedAt := by
  unfold tick
  rw [if_neg (by simp [unfinished])]
  simp

/-- A tick that leaves the runner without termination is that of an exit's
timers. -/
theorem tick_of_undisturbed (life : Lifecycle runner) (unfinished : runner.finished = false)
    (undisturbed : (runner.tick now).terminatedAt = none) :
    runner.tick now = (runner.tickSettlement now).tickAbandon now := by
  rw [tick_terminatedAt unfinished] at undisturbed
  have untimed : runner.tickTimeout now = runner := by
    unfold tickTimeout at undisturbed ⊢
    split
    · rename_i due
      have terminated := terminate_terminatedAt { runner with timeoutAt := none } now .timedOut
      rw [if_pos due] at undisturbed
      simp [undisturbed] at terminated
    · rfl
  rw [untimed] at undisturbed
  have ungraced : runner.graceUntil = none := by
    by_contra waits
    have terminated := life.grace (Option.isSome_iff_ne_none.mpr waits)
    simp [undisturbed] at terminated
  have unawaited : runner.giveUpAt = none := by
    by_contra waits
    have terminated := life.giveUpAt (Option.isSome_iff_ne_none.mpr waits)
    simp [undisturbed] at terminated
  obtain ⟨settling, same⟩ := runner.tickSettlement_eq now
  unfold tick
  rw [if_neg (by simp [unfinished])]
  simp [untimed, tickGrace, ungraced, same, tickGiveUp, unawaited]

theorem tick_waits (life : runner.Lifecycle) (unfinished : runner.finished = false)
    (undisturbed : (runner.tick now).terminatedAt = none) :
    Waits runner now (runner.tick now) := by
  obtain ⟨settling, same⟩ := runner.tickSettlement_eq now
  rw [tick_of_undisturbed life unfinished undisturbed, same]
  cases tickAbandon_waits { runner with settling := settling } now with
  | keeps abandonAt outputs clean => exact .keeps abandonAt outputs clean
  | abandons due abandonAt fenced outputs =>
    exact .abandons due abandonAt fenced outputs

theorem detach_terminatedAt (consistent : Consistent runner)
    (unfinished : runner.finished = false) (now : Instant) (cause : Cause) :
    (runner.detach now cause).terminatedAt.isSome = true := by
  have ticked := (consistent.later_of_evolves (runner.tick_evolves now)).1
  have ending := terminate_terminatedAt (runner.tick now) now cause
  unfold detach
  simp only [tick_finished, unfinished, Bool.false_or]
  split
  · rename_i detached
    exact ticked.life.detached detached
  · exact ending

theorem cancel_terminatedAt (unfinished : finished runner = false) (now : Instant) (cause : Cause) :
    (runner.cancel now runner.key cause).1.terminatedAt.isSome = true := by
  simp only [cancel, Key.receive_self, tick_finished, unfinished, Bool.false_or]
  split
  · assumption
  · exact terminate_terminatedAt _ _ _

/-- The instant from which a tick abandons what a workload that ended at `exit`
left open. -/
def abandonInstant (timers : Timers) (exit : Instant) : Option Instant :=
  (after exit timers.settlement).bind fun settlement =>
    after settlement timers.grace

theorem reached_settlement {timers : Timers} {exit now : Instant}
    (due : reached (abandonInstant timers exit) now = true) :
    reached (after exit timers.settlement) now = true := by
  obtain ⟨instant, same, passed⟩ := reached_iff.mp due
  obtain ⟨settlement, settles, abandons⟩ := Option.bind_eq_some_iff.mp same
  obtain ⟨_, rfl⟩ := after_eq_some_iff.mp abandons
  exact reached_iff.mpr ⟨settlement, settles, (Nat.le_add_right _ _).trans passed⟩

/-- What a call does to a runner that it leaves without termination. -/
inductive Undisturbed (runner : Runner) (call : Call) (next : Runner) : Prop
  | silent (silent : call.ticks runner.key = none) (untimed : Untimed call runner next)
  | waits (now : Instant) (ticks : call.ticks runner.key = some now) (waits : Waits runner now next)
  | exits (now : Instant) (status : Option Status)
      (made : call = .act (.exited now status)) (running : runner.exit = none)
      (abandonAt : next.abandonAt = abandonInstant runner.timers now)
      (outputs : next.outputs = runner.outputs)

theorem exited_undisturbed (consistent : runner.Consistent)
    (unfinished : runner.finished = false) (now : Instant) (status : Option Status)
    (undisturbed : (runner.exited now status).terminatedAt = none) :
    Undisturbed runner (.act (.exited now status)) (runner.exited now status) := by
  have stopped : Evolves runner { runner with timeoutAt := none } :=
    .single .stopTimeout
  have untimed := (consistent.later_of_evolves stopped).1
  have later := (consistent.later_of_evolves (stopped.trans
    (tick_evolves { runner with timeoutAt := none } now))).2
  unfold exited at undisturbed ⊢
  simp only at undisturbed ⊢
  split
  · rename_i exited
    rw [if_pos exited] at undisturbed
    refine .waits now rfl ?_
    cases tick_waits untimed.life unfinished undisturbed with
    | keeps abandonAt outputs clean => exact .keeps abandonAt outputs clean
    | abandons due abandonAt fenced outputs =>
      exact .abandons due abandonAt fenced outputs
  · rename_i first
    rw [if_neg first, recordExit_eq] at undisturbed
    rw [recordExit_eq, closeInput_eq]
    have ticked : ({ runner with timeoutAt := none }.tick now).terminatedAt =
        none := by
      rw [← closeInput_terminatedAt]
      exact undisturbed
    have running : runner.exit = none := by
      rw [not_isSome_or] at first
      exact Later.none_of_kept later.exit first.1
    have unawaited : runner.abandonAt = none := by
      by_contra waits
      have exited := consistent.life.abandonAt (Option.isSome_iff_ne_none.mpr waits)
      simp [running] at exited
    refine .exits now status rfl running ?_ ?_
    · exact congrArg (abandonInstant · now) later.timers
    · cases tick_waits untimed.life unfinished ticked with
      | keeps abandonAt outputs clean => exact outputs
      | abandons due => simp [unawaited] at due

theorem Consistent.undisturbed
    (consistent : runner.Consistent) (unfinished : runner.finished = false)
    (call : Call) (undisturbed : (runner.step call).1.terminatedAt = none) :
    Undisturbed runner call (runner.step call).1 := by
  have detaching (now : Instant) (cause : Cause) : (runner.detach now cause).terminatedAt ≠ none :=
    Option.isSome_iff_ne_none.mp (detach_terminatedAt consistent unfinished now cause)
  cases ticks : call.ticks runner.key with
  | none => exact .silent ticks (.of_silent consistent ticks)
  | some instant =>
    unfold Call.ticks at ticks
    split at ticks
    · exact .waits _ rfl (tick_waits consistent.life unfinished undisturbed)
    · exact exited_undisturbed consistent unfinished _ _ undisturbed
    · exact absurd undisturbed (detaching _ _)
    · exact absurd undisturbed (detaching _ _)
    · exact absurd undisturbed (detaching _ _)
    · rename_i now key cause
      split at ticks
      · rename_i own
        subst key
        have terminated := cancel_terminatedAt unfinished now cause
        exact absurd undisturbed (Option.isSome_iff_ne_none.mp terminated)
      · simp at ticks
    · simp at ticks

def Clean (runner : Runner) : Prop :=
  runner.settling = .settled ∧ runner.awaitsLaunch = false

theorem Clean.exited (clean : Clean runner) (life : runner.Lifecycle) : runner.exit.isSome = true :=
  life.settling (by simp [clean.1])

theorem clean_kept : KeptUnder Consistent fun runner =>
    runner.terminatedAt.isSome = true ∨ runner.Clean := by
  refine ControlKept.kept ⟨fun change consistent held => ?_, fun report _ consistent held => ?_,
    fun held _ _ _ _ _ _ _ => held⟩ fun emits _ held => by cases emits <;> exact held
  · have later := Later.change change
    rcases held with terminated | ⟨settled, launched⟩
    · left
      rw [later.terminatedAt terminated, terminated]
    · cases change with
      | fence awaited => simp [settled] at awaited
      | giveUp waiting => exact .inl (consistent.life.giveUpAt waiting)
      | abandonLaunch awaited => simp [launched] at awaited
      | terminate => exact .inl rfl
      | _ => exact .inr ⟨settled, launched⟩
  · have later := Later.report report consistent.life
    rcases held with terminated | clean
    · left
      rw [later.terminatedAt terminated, terminated]
    · cases report with
      | launched awaited | launchFailed awaited => simp [clean.2] at awaited
      | exit now status first =>
        have exited := clean.exited consistent.life
        simp [first] at exited
      | settle awaited => simp [clean.1] at awaited
      | setOutput => exact .inr clean

theorem Clean.step (clean : Clean runner) (consistent : runner.Consistent) (call : Call)
    (undisturbed : (runner.step call).1.terminatedAt = none) :
    (runner.step call).1.Clean := by
  have held := (KeptUnder.and Consistent.kept clean_kept).step
    consistent.sound.opened_lt call ⟨consistent, .inr clean⟩
  rcases held.2 with terminated | clean
  · simp [undisturbed] at terminated
  · exact clean

section Runs

variable (key : Key) (limits : Limits) (timers : Timers) (now : Instant)

/-- No call since the exit ticked at the instant of abandonment, or past it. -/
def Unabandoned (calls : List Call) (exit : Instant) : Prop :=
  ∀ call ∈ sinceExit calls, ∀ instant, call.ticks key = some instant →
    reached (abandonInstant timers exit) instant = false

/-- The stream was neither closed nor hung up when the instant of abandonment
was first ticked past. -/
def LeftOpen (stream : Stream) (calls : List Call) : Prop :=
  let start := Runner.new key limits timers now
  ∃ before call rest exit instant, calls = before ++ call :: rest ∧
    firstExit (machine.trace start before) = some exit ∧
    call.ticks key = some instant ∧
    reached (abandonInstant timers exit.1) instant = true ∧
    Unabandoned key timers before exit.1 ∧
    ((machine.after start before).outputs stream).closed = false ∧
    ((machine.after start before).outputs stream).hungUp = false

variable {key limits timers now}

theorem LeftOpen.append (leftOpen : LeftOpen key limits timers now stream calls)
    (more : List Call) :
    LeftOpen key limits timers now stream (calls ++ more) := by
  obtain ⟨before, call, rest, exit, instant, rfl, others⟩ := leftOpen
  exact ⟨before, call, rest ++ more, exit, instant, by simp, others⟩

/-- A runner that ticked past its instant of abandonment is fenced, or awaits
its launch, unless its end is clean. -/
theorem clean_of_late {calls : List Call} {exit : Instant × Option Status}
    {call : Call} {instant : Instant} :
    let start := Runner.new key limits timers now
    let runner := machine.after start calls
    firstExit (machine.trace start calls) = some exit →
      runner.exit.isSome = true → call ∈ sinceExit calls →
      call.ticks key = some instant →
      reached (abandonInstant timers exit.1) instant = true →
      runner.settling ≠ .fenced → runner.awaitsLaunch = false →
        runner.Clean := by
  intro start runner first exited member ticks late unfenced launched
  have consistent : runner.Consistent :=
    (Consistent.new key limits timers now).after calls
  cases settling : runner.settling with
  | idle => exact absurd settling (consistent.life.exited exited)
  | requested by_ =>
    obtain ⟨other, same, rfl, early⟩ :=
      requested_in_time key limits timers now calls settling
    obtain rfl := Option.some.inj (first.symm.trans same)
    have untimely := early call member instant ticks
    simp [reached_settlement late] at untimely
  | settled => exact ⟨settling, launched⟩
  | fenced => exact absurd settling unfenced

theorem Unabandoned.concat {exit : Instant} (early : Unabandoned key timers calls exit)
    (exited : ∃ call ∈ calls, call.isExit = true) (last : ∀ instant, call.ticks key = some instant →
      reached (abandonInstant timers exit) instant = false) :
    Unabandoned key timers (calls ++ [call]) exit := by
  intro other member
  rw [sinceExit_concat exited, List.mem_append, List.mem_singleton] at member
  rcases member with earlier | rfl
  · exact early other earlier
  · exact last

structure Ongoing (runner : Runner) : Prop where
  unfinished : runner.finished = false
  undisturbed : runner.terminatedAt = none

theorem Ongoing.of_step {runner : Runner} {call : Call}
    (ongoing : (runner.step call).1.Ongoing) (consistent : runner.Consistent) :
    runner.Ongoing where
  unfinished :=
    Later.false_of_kept (consistent.later call).finished ongoing.unfinished
  undisturbed :=
    Later.none_of_kept (consistent.later call).terminatedAt ongoing.undisturbed

/-- The runner waits to abandon what an exit left open, and has not ticked past
the instant for it but with a clean end. -/
def Dated (key : Key) (timers : Timers) (start : Runner) (calls : List Call) :
    Prop :=
  (machine.after start calls).abandonAt.isSome = true →
    ∃ exit, firstExit (machine.trace start calls) = some exit ∧
      (machine.after start calls).abandonAt = abandonInstant timers exit.1 ∧
      ((machine.after start calls).Clean ∨ Unabandoned key timers calls exit.1)

theorem Dated.concat {calls : List Call} {call : Call} :
    let start := Runner.new key limits timers now
    let runner := machine.after start calls
    Dated key timers start calls → (runner.step call).1.terminatedAt = none →
      (runner.step call).1.abandonAt = runner.abandonAt →
      (∀ instant, call.ticks key = some instant → reached runner.abandonAt instant = true →
          (runner.step call).1.settling ≠ .fenced ∧ (runner.step call).1.awaitsLaunch = false) →
        Dated key timers start (calls ++ [call]) := by
  intro start runner dated undisturbed kept last waits
  have consistent : runner.Consistent :=
    (Consistent.new key limits timers now).after calls
  have next : machine.after start (calls ++ [call]) = (runner.step call).1 := by
    rw [machine.after_concat, machine_step]
  rw [next] at waits ⊢
  obtain ⟨exit, first, same, early⟩ := dated (by rwa [← kept])
  have firstStill : firstExit (machine.trace start (calls ++ [call])) = some exit := by
    rw [machine.trace_concat, firstExit_concat, first, Option.some_or]
  refine ⟨exit, firstStill, kept.trans same, ?_⟩
  rcases early with clean | early
  · exact .inl (clean.step consistent call undisturbed)
  · by_cases clean : (runner.step call).1.Clean
    · exact .inl clean
    · right
      have exited : ∃ call ∈ calls, call.isExit = true :=
        ⟨_, mem_of_firstExit first, rfl⟩
      apply early.concat exited
      intro instant ticks
      by_contra late
      rw [Bool.not_eq_false] at late
      obtain ⟨unfenced, launched⟩ := last instant ticks (same ▸ late)
      rw [← next] at clean unfenced launched waits
      apply clean
      apply clean_of_late firstStill _ _ ticks late unfenced launched
      · exact ((Consistent.new key limits timers now).after _).life.abandonAt waits
      · rw [sinceExit_concat exited]
        simp

theorem dated_after (calls : List Call) :
    let start := Runner.new key limits timers now
    (machine.after start calls).Ongoing →
      Dated key timers start calls := by
  intro start
  have initial : start.Consistent := .new key limits timers now
  induction calls using List.reverseRecOn with
  | nil => simp [start, Runner.new, Dated]
  | append_singleton calls call induction =>
    intro ongoing
    have consistent := initial.after calls
    have later := initial.later_after calls
    rw [machine.after_concat, machine_step] at ongoing
    have before := ongoing.of_step consistent
    cases consistent.undisturbed before.unfinished call ongoing.undisturbed with
    | silent silent untimed =>
      apply (induction before).concat ongoing.undisturbed untimed.abandonAt
      intro instant ticks
      rw [later.key] at silent
      exact absurd (silent.symm.trans ticks) (by simp)
    | waits instant ticks ticked =>
      cases ticked with
      | keeps abandonAt outputs clean =>
        apply (induction before).concat ongoing.undisturbed abandonAt
        intro other same
        rw [later.key] at ticks
        obtain rfl := Option.some.inj (ticks.symm.trans same)
        exact clean
      | abandons due abandonAt =>
        intro waits
        rw [machine.after_concat, machine_step, abandonAt] at waits
        simp at waits
    | exits instant status made running abandonAt outputs =>
      subst call
      have first := firstExit_of_running key limits timers now running
      intro waits
      rw [machine.after_concat, machine_step, machine.trace_concat, firstExit_concat, first]
      refine ⟨(instant, status), rfl, ?_, .inr ?_⟩
      · rw [abandonAt, later.timers]
        rfl
      · intro other member
        rw [sinceExit_concat_of_first (firstExit_eq_none_iff.mp first)] at member
        simp at member

/-- Without a termination, only abandonment truncates a stream of which no byte
is reported lost. -/
theorem leftOpen_of_truncated (stream : Stream) (calls : List Call) :
    let start := Runner.new key limits timers now
    (machine.after start calls).Ongoing →
      (∀ event ∈ machine.trace start calls, loses stream event = false) →
      ((machine.after start calls).outputs stream).truncated = true →
        (machine.after start calls).settling = .fenced ∧
          LeftOpen key limits timers now stream calls := by
  intro start
  have initial : start.Consistent := .new key limits timers now
  induction calls using List.reverseRecOn with
  | nil => simp [start, Runner.new, Output.new]
  | append_singleton calls call induction =>
    intro ongoing lossless truncated
    have consistent := initial.after calls
    have later := initial.later_after calls
    rw [machine.after_concat, machine_step] at ongoing truncated ⊢
    rw [machine.trace_concat] at lossless
    have before := ongoing.of_step consistent
    have earlier (marked : ((machine.after start calls).outputs stream).truncated = true) :
        ((machine.after start calls).step call).1.settling = .fenced ∧
          LeftOpen key limits timers now stream (calls ++ [call]) := by
      obtain ⟨fenced, leftOpen⟩ := induction before
        (fun event member => lossless event (List.mem_append_left _ member))
        marked
      exact ⟨(consistent.later call).fenced fenced, leftOpen.append [call]⟩
    cases consistent.undisturbed before.unfinished call ongoing.undisturbed with
    | silent silent untimed =>
      apply earlier
      have same := untimed.truncated stream _ (lossless _
        (List.mem_append_right _ (List.mem_singleton_self _)))
        before.undisturbed
      rw [← same]
      exact truncated
    | exits instant status made running abandonAt outputs =>
      apply earlier
      rw [outputs] at truncated
      exact truncated
    | waits instant ticks ticked =>
      cases ticked with
      | keeps abandonAt outputs clean =>
        apply earlier
        rw [outputs] at truncated
        exact truncated
      | abandons due abandonAt fenced outputs =>
        simp only [outputs, Output.abandon_eq, Bool.or_eq_true,
          Bool.and_eq_true, Bool.not_eq_true'] at truncated
        rcases truncated with marked | ⟨stillOpen, inPlace⟩
        · exact earlier marked
        · refine ⟨fenced, calls, call, [], ?_⟩
          obtain ⟨_, waits, _⟩ := reached_iff.mp due
          obtain ⟨exit, first, dated, early⟩ :=
            dated_after calls before (Option.isSome_of_eq_some waits)
          rw [later.key] at ticks
          rcases early with clean | early
          · have settled :=
              (clean.step consistent call ongoing.undisturbed).1
            exact absurd (settled.symm.trans fenced) (by simp)
          · exact ⟨exit, instant, rfl, first, ticks, dated ▸ due, early, stillOpen, inPlace⟩

variable (key limits timers now)

theorem ended_on_its_own (calls : List Call) (outcome : Outcome) :
    let start := Runner.new key limits timers now
    (machine.after start calls).terminatedAt = none →
      .terminal outcome ∈ messages (machine.trace start calls) →
      outcome.cause = none ∧ (∃ exit, firstExit (machine.trace start calls) = some exit ∧
          outcome.status = exit.2) ∧
        ∀ stream, (∀ event ∈ machine.trace start calls, loses stream event = false) →
          outcome.isTruncated stream = true → outcome.reusable = false ∧
              LeftOpen key limits timers now stream calls := by
  intro start undisturbed member
  have initial : start.Consistent := .new key limits timers now
  obtain ⟨before, call, rest, rfl, until_, unfinished, concluded, rfl,
    returned, finishes⟩ := exists_conclusion initial member
  have consistent := initial.after before
  have ongoing : (machine.after start before).Ongoing := by
    refine ⟨unfinished, ?_⟩
    rw [machine.after_append] at undisturbed
    exact Later.none_of_kept (consistent.later_after (call :: rest)).terminatedAt undisturbed
  have unterminated {isSome : Prop} (terminated :
      (machine.after start before).terminatedAt.isSome = true) : isSome := by
    simp [ongoing.undisturbed] at terminated
  refine ⟨?_, ?_, ?_⟩
  · by_contra caused
    exact unterminated (consistent.life.cause (Option.isSome_iff_ne_none.mpr caused))
  · have exited := concluded.exited
    rcases exit_eq_firstExit key limits timers now before with gaveUp | same
    · exact unterminated (consistent.life.gaveUp gaveUp).2.2
    · rw [same, Option.isSome_map] at exited
      obtain ⟨exit, first⟩ := Option.isSome_iff_exists.mp exited
      refine ⟨exit, ?_, ?_⟩
      · rw [machine.trace_append, firstExit, List.findSome?_append]
        exact Option.or_eq_some_iff.mpr (.inl first)
      · rw [first] at same
        simp [report, start, same]
  · intro stream lossless truncated
    have quiet : ∀ event ∈ machine.trace start before, loses stream event = false := by
      intro event earlier
      apply lossless
      rw [machine.trace_append]
      exact List.mem_append_left _ earlier
    obtain ⟨fenced, leftOpen⟩ :=
      leftOpen_of_truncated stream before ongoing quiet truncated
    exact ⟨by simp [report, start, fenced], leftOpen.append _⟩

end Runs

end Nvx.Exec.Runner
