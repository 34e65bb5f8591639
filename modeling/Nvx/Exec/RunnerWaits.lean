import Nvx.Exec.RunnerEnding

namespace Nvx.Exec.Runner

open Nvx.Data

/-! The waits of a runner that no longer matter: to give up, once it is cleaned
up, and to abandon, once nothing is left to abandon.  A tick may drop them early,
and no call tells. -/

structure Abandoned (runner : Runner) : Prop where
  launched : runner.awaitsLaunch = false
  fenced : runner.settling = .fenced
  exited : runner.exit.isSome = true
  closed : ∀ stream, (runner.outputs stream).closed = true ∨ (runner.outputs stream).hungUp = true

theorem Later.abandoned {runner next : Runner} (later : runner.Later next)
    (abandoned : runner.Abandoned) : next.Abandoned where
  launched := by
    rw [Bool.eq_false_iff]
    intro awaits
    exact absurd (later.awaitsLaunch awaits) (Bool.eq_false_iff.mp abandoned.launched)
  fenced := later.fenced abandoned.fenced
  exited := by
    rw [later.exit abandoned.exited]
    exact abandoned.exited
  closed := fun stream => (abandoned.closed stream).imp
    (later.outputs stream).closed (later.outputs stream).hungUp

namespace CleanedUp

theorem change (change : Change runner next)
    (clean : runner.isCleanedUp = true) : next.isCleanedUp = true := by
  have later := Later.change change
  cases change with
  | fence awaited => simp [(isCleanedUp_iff.mp clean).2.2.2] at awaited
  | giveUp waiting unfinished unclean => simp [clean] at unclean
  | abandonLaunch awaited waiting unfinished =>
    have launched := (isCleanedUp_iff.mp clean).1
    simp [launch_eq_none_of_awaitsLaunch awaited] at launched
  | abandonOpenStreams fenced waiting unfinished =>
    simp [(isCleanedUp_iff.mp clean).2.2.2] at fenced
  | _ => exact later.isCleanedUp rfl clean

theorem report (report : Report runner call next)
    (life : runner.Lifecycle) (clean : runner.isCleanedUp = true) :
    next.isCleanedUp = true := by
  have later := Later.report report life
  obtain ⟨launched, exited, _, settled⟩ := isCleanedUp_iff.mp clean
  cases report with
  | launched awaited | launchFailed awaited failure =>
    simp [launch_eq_none_of_awaitsLaunch awaited] at launched
  | exit now status first => simp [first] at exited
  | settle awaited => simp [settled] at awaited
  | setOutput stream call output change => exact later.isCleanedUp rfl clean

theorem kept : KeptUnder Consistent fun runner => runner.isCleanedUp = true where
  change := fun step _ clean => change step clean
  report := fun step _ consistent clean => report step consistent.life clean
  output := fun {runner} stream bytes _ _ clean => by
    have later := Later.output runner stream bytes
    obtain ⟨_, _, _, _, same⟩ := output_frame runner stream bytes
    rw [same] at later ⊢
    exact later.isCleanedUp rfl clean
  popInput := fun _ _ _ _ clean => clean
  requests := fun step _ clean => by
    have later := Later.requests step
    cases step <;> exact later.isCleanedUp rfl clean
  grant := fun _ _ _ clean => clean
  charge := fun _ _ _ _ _ clean => by split <;> exact clean
  peerEnds := fun _ _ _ clean => clean
  emits := fun step _ clean => by
    have later := Later.emits step
    cases step <;> exact later.isCleanedUp rfl clean

end CleanedUp

abbrev setWaits (runner : Runner) (giveUpAt abandonAt : Option Instant) : Runner :=
  { runner with giveUpAt := giveUpAt, abandonAt := abandonAt }

structure Idle (runner : Runner) (giveUpAt abandonAt : Option Instant) : Prop where
  giveUp : giveUpAt = runner.giveUpAt ∨ runner.isCleanedUp = true
  abandon : abandonAt = runner.abandonAt ∨ runner.Abandoned

def Alike (one other : Runner) : Prop :=
  ∃ giveUpAt abandonAt, other = one.setWaits giveUpAt abandonAt ∧ one.Idle giveUpAt abandonAt

namespace Alike

variable {one other next : Runner}

theorem refl (runner : Runner) : Alike runner runner :=
  ⟨runner.giveUpAt, runner.abandonAt, rfl, .inl rfl, .inl rfl⟩

theorem of_evolves {giveUpAt abandonAt : Option Instant} (chain : Evolves one next)
    (giveUp : giveUpAt = next.giveUpAt ∨ one.isCleanedUp = true)
    (abandon : abandonAt = next.abandonAt ∨ one.Abandoned) :
    Alike next (next.setWaits giveUpAt abandonAt) := by
  have later : one.Later next :=
    chain.preserves (fun _ _ change later => later.trans (.change change)) (.refl one)
  refine ⟨_, _, rfl, giveUp.imp id fun clean => ?_, abandon.imp id ?_⟩
  · exact chain.preserves (fun _ _ => CleanedUp.change) clean
  · exact later.abandoned

theorem closeInput_setWaits (runner : Runner) (giveUpAt abandonAt : Option Instant) :
    (runner.setWaits giveUpAt abandonAt).closeInput =
      runner.closeInput.setWaits giveUpAt abandonAt := by
  unfold closeInput setWaits
  dsimp only
  split <;> rfl

theorem stopTimeout (alike : Alike one other) :
    Alike { one with timeoutAt := none } { other with timeoutAt := none } := by
  obtain ⟨giveUpAt, abandonAt, rfl, idle⟩ := alike
  exact of_evolves (.single .stopTimeout) idle.giveUp idle.abandon

theorem terminate (alike : Alike one other) (cause : Cause) (unfinished : one.finished = false) :
    Alike (one.terminate now cause) (other.terminate now cause) := by
  obtain ⟨giveUpAt, abandonAt, rfl, idle⟩ := alike
  have chain := terminate_evolves now cause unfinished
  cases terminated : one.terminatedAt with
  | some instant =>
    have same : one.terminate now cause = one := by
      simp [Runner.terminate, terminated]
    have alsoSame : (one.setWaits giveUpAt abandonAt).terminate now cause =
        one.setWaits giveUpAt abandonAt := by
      simp [Runner.terminate, setWaits, terminated]
    rw [same, alsoSame]
    exact of_evolves .refl idle.giveUp idle.abandon
  | none =>
    have commutes : (one.setWaits giveUpAt abandonAt).terminate now cause =
        (one.terminate now cause).setWaits (one.terminate now cause).giveUpAt abandonAt := by
      rw [terminate_of_none now cause terminated,
        @terminate_of_none (one.setWaits giveUpAt abandonAt) now cause
          terminated, closeInput_setWaits]
      dsimp only [beginTermination, setWaits]
      split <;> rfl
    have sameAbandon : (one.terminate now cause).abandonAt = one.abandonAt := by
      rw [terminate_of_none now cause terminated, closeInput_eq]
      dsimp only [beginTermination]
      split <;> rfl
    rw [commutes]
    exact of_evolves chain (.inl rfl) (idle.abandon.imp (fun same =>
      same.trans sameAbandon.symm) id)

theorem endGrace (alike : Alike one other)
    (ending : one.graceUntil.isSome = true ∨ one.terminatedAt.isSome = true)
    (unfinished : one.finished = false) :
    Alike one.endGrace other.endGrace := by
  obtain ⟨giveUpAt, abandonAt, rfl, idle⟩ := alike
  exact of_evolves (.single (.endGrace ending unfinished)) idle.giveUp idle.abandon

theorem finished_eq (alike : Alike one other) : other.finished = one.finished := by
  obtain ⟨_, _, rfl, _⟩ := alike
  rfl

theorem tickTimeout (alike : Alike one other) (unfinished : one.finished = false) :
    Alike (one.tickTimeout now) (other.tickTimeout now) := by
  have sameTimeout : other.timeoutAt = one.timeoutAt := by
    obtain ⟨_, _, rfl, _⟩ := alike
    rfl
  unfold Runner.tickTimeout
  rw [sameTimeout]
  split
  · exact alike.stopTimeout.terminate .timedOut unfinished
  · exact alike

theorem tickGrace (alike : Alike one other) (unfinished : one.finished = false) :
    Alike (one.tickGrace now) (other.tickGrace now) := by
  have sameGrace : other.graceUntil = one.graceUntil := by
    obtain ⟨_, _, rfl, _⟩ := alike
    rfl
  unfold Runner.tickGrace
  rw [sameGrace]
  split
  · rename_i isReached
    obtain ⟨instant, pending, _⟩ := reached_iff.mp isReached
    exact alike.endGrace (.inl (by simp [pending])) unfinished
  · exact alike

theorem tickSettlement (alike : Alike one other) :
    Alike (one.tickSettlement now) (other.tickSettlement now) := by
  obtain ⟨giveUpAt, abandonAt, rfl, idle⟩ := alike
  have chain := one.tickSettlement_evolves now
  unfold Runner.tickSettlement at chain ⊢
  dsimp only [setWaits]
  split
  · rename_i by_ awaited
    rw [awaited] at chain
    dsimp only at chain
    split
    · rename_i passed
      rw [if_pos passed] at chain
      exact of_evolves chain idle.giveUp idle.abandon
    · exact of_evolves .refl idle.giveUp idle.abandon
  · exact of_evolves .refl idle.giveUp idle.abandon

theorem tickGiveUp (alike : Alike one other) (unfinished : one.finished = false) :
    Alike (one.tickGiveUp now) (other.tickGiveUp now) := by
  obtain ⟨giveUpAt, abandonAt, rfl, idle⟩ := alike
  have chain := tickGiveUp_evolves now unfinished
  cases clean : one.isCleanedUp with
  | true =>
    -- both runners drop their wait, or keep it
    have waits (runner : Runner) (isClean : runner.isCleanedUp = true) :
        ∃ kept, runner.tickGiveUp now = runner.setWaits kept runner.abandonAt := by
      unfold Runner.tickGiveUp
      rw [if_pos isClean]
      split
      · exact ⟨none, rfl⟩
      · exact ⟨runner.giveUpAt, rfl⟩
    obtain ⟨kept, ticked⟩ := waits one clean
    obtain ⟨alsoKept, alsoTicked⟩ :=
      waits (one.setWaits giveUpAt abandonAt) clean
    rw [ticked] at chain
    rw [ticked, alsoTicked]
    exact @of_evolves one (one.setWaits kept one.abandonAt) alsoKept abandonAt
      chain (.inr clean) idle.abandon
  | false =>
    obtain rfl : giveUpAt = one.giveUpAt := by
      rcases idle.giveUp with same | isClean
      · exact same
      · simp [clean] at isClean
    have alsoUnclean : (one.setWaits one.giveUpAt abandonAt).isCleanedUp = false := clean
    have commutes : (one.setWaits one.giveUpAt abandonAt).tickGiveUp now =
        (one.tickGiveUp now).setWaits (one.tickGiveUp now).giveUpAt
          abandonAt := by
      unfold Runner.tickGiveUp
      rw [clean, alsoUnclean]
      cases reached one.giveUpAt now <;>
        simp [setWaits, Runner.giveUp]
    have sameAbandon : (one.tickGiveUp now).abandonAt = one.abandonAt := by
      unfold Runner.tickGiveUp
      rw [clean]
      cases reached one.giveUpAt now <;> rfl
    rw [commutes]
    exact of_evolves chain (.inl rfl)
      (idle.abandon.imp (fun same => same.trans sameAbandon.symm) id)

theorem abandon_of_abandoned (abandoned : one.Abandoned) (stream : Stream) :
    (one.outputs stream).abandon = one.outputs stream := by
  unfold Output.abandon
  rcases abandoned.closed stream with closed | hungUp
  · simp [closed]
  · simp [hungUp]

theorem tickAbandon_of_abandoned {runner : Runner} (abandoned : runner.Abandoned) :
    ∃ kept, runner.tickAbandon now = runner.setWaits runner.giveUpAt kept := by
  unfold Runner.tickAbandon
  split
  · simp only [abandoned.launched, Bool.false_eq_true, if_false]
    rw [if_pos abandoned.fenced]
    refine ⟨none, ?_⟩
    have kept : (fun stream => (runner.outputs stream).abandon) =
        runner.outputs := by
      funext stream
      exact abandon_of_abandoned abandoned stream
    simp only [abandonOpenStreams, kept, setWaits]
  · exact ⟨runner.abandonAt, rfl⟩

theorem tickAbandon (alike : Alike one other) (unfinished : one.finished = false) :
    Alike (one.tickAbandon now) (other.tickAbandon now) := by
  obtain ⟨giveUpAt, abandonAt, rfl, idle⟩ := alike
  have chain := tickAbandon_evolves now unfinished
  rcases idle.abandon with same | abandoned
  · subst same
    have commutes : (one.setWaits giveUpAt one.abandonAt).tickAbandon now =
        (one.tickAbandon now).setWaits giveUpAt (one.tickAbandon now).abandonAt := by
      have sameWait : (one.setWaits giveUpAt one.abandonAt).awaitsLaunch =
          one.awaitsLaunch := rfl
      unfold Runner.tickAbandon
      rw [sameWait]
      cases one.awaitsLaunch <;> by_cases fenced : one.settling = .fenced <;>
        cases reached one.abandonAt now <;>
        simp [setWaits, fenced, abandonLaunch, abandonOpenStreams]
    have sameGiveUp : (one.tickAbandon now).giveUpAt = one.giveUpAt := by
      unfold Runner.tickAbandon
      cases one.awaitsLaunch <;> by_cases fenced : one.settling = .fenced <;>
        cases reached one.abandonAt now <;>
        simp [fenced, abandonLaunch, abandonOpenStreams]
    rw [commutes]
    exact of_evolves chain (idle.giveUp.imp (fun same => same.trans sameGiveUp.symm) id) (.inl rfl)
  · obtain ⟨kept, ticked⟩ := @tickAbandon_of_abandoned now one abandoned
    obtain ⟨alsoKept, alsoTicked⟩ := @tickAbandon_of_abandoned now
      (one.setWaits giveUpAt abandonAt) { abandoned with }
    rw [ticked] at chain
    rw [ticked, alsoTicked]
    exact @of_evolves one (one.setWaits one.giveUpAt kept) giveUpAt alsoKept
      chain idle.giveUp (.inr abandoned)

theorem tick (alike : Alike one other) (now : Instant) : Alike (one.tick now) (other.tick now) := by
  unfold Runner.tick
  rw [alike.finished_eq]
  split
  · exact alike
  · rename_i ongoing
    have unfinished := Bool.eq_false_iff.mpr ongoing
    exact ((((alike.tickTimeout unfinished).tickGrace
      (by simpa using unfinished)).tickSettlement).tickGiveUp
        (by simpa using unfinished)).tickAbandon (by simpa using unfinished)

theorem leavePeer (alike : Alike one other) (ending : one.terminatedAt.isSome = true)
    (unfinished : one.finished = false) (silent : ∀ stream, (one.outputs stream).Silent) :
    Alike (one.leavePeer now) (other.leavePeer now) := by
  obtain ⟨giveUpAt, abandonAt, rfl, idle⟩ := alike
  refine of_evolves (.single (.leavePeer now ending unfinished silent))
    (idle.giveUp.imp (fun same => ?_) id) idle.abandon
  rw [same]
  rfl

theorem detach (alike : Alike one other) (now : Instant) (cause : Cause) :
    Alike (one.detach now cause) (other.detach now cause) := by
  have ticked := alike.tick now
  have sameDetached : (other.tick now).detached = (one.tick now).detached := by
    obtain ⟨_, _, same, _⟩ := ticked
    rw [same]
  unfold Runner.detach
  dsimp only
  rw [ticked.finished_eq, sameDetached]
  split
  · exact ticked
  · rename_i attached
    simp only [Bool.or_eq_true, not_or, Bool.not_eq_true] at attached
    have ending := (one.tick now).terminate_terminatedAt now cause
    have unfinished : ((one.tick now).terminate now cause).finished = false := by
      rw [terminate_finished]
      exact attached.1
    exact ((ticked.terminate cause attached.1).endGrace (.inr ending)
      unfinished).leavePeer ending unfinished fun stream => Output.endGrace_silent _

theorem recordExit (alike : Alike one other) (now : Instant)
    (status : Option Status) (first : one.exit = none) :
    Alike (one.recordExit now status) (other.recordExit now status) := by
  obtain ⟨giveUpAt, abandonAt, rfl, idle⟩ := alike
  have sameGiveUp : giveUpAt = one.giveUpAt := by
    rcases idle.giveUp with same | clean
    · exact same
    · have exited := (isCleanedUp_iff.mp clean).2.1
      simp [first] at exited
  subst sameGiveUp
  rw [recordExit_eq, recordExit_eq, closeInput_setWaits one one.giveUpAt abandonAt]
  refine ⟨one.giveUpAt, _, rfl, .inl ?_, .inl rfl⟩
  rw [closeInput_eq]
  rfl

theorem exited (alike : Alike one other) (now : Instant) (status : Option Status) :
    Alike (one.exited now status) (other.exited now status) := by
  have ticked := alike.stopTimeout.tick now
  unfold Runner.exited
  dsimp only
  obtain ⟨sameExit, sameGaveUp⟩ : ({ other with timeoutAt := none }.tick now).exit =
        ({ one with timeoutAt := none }.tick now).exit ∧
      ({ other with timeoutAt := none }.tick now).gaveUp =
        ({ one with timeoutAt := none }.tick now).gaveUp := by
    obtain ⟨_, _, same, _⟩ := ticked
    rw [same]
    exact ⟨rfl, rfl⟩
  rw [sameExit, sameGaveUp]
  split
  · exact ticked
  · rename_i running
    rw [not_isSome_or] at running
    exact ticked.recordExit now status running.1

theorem cancel (alike : Alike one other) (now : Instant) (key : Key) (cause : Cause) :
    (one.cancel now key cause).2 = (other.cancel now key cause).2 ∧
      Alike (one.cancel now key cause).1 (other.cancel now key cause).1 := by
  have sameKey : other.key = one.key := by
    obtain ⟨_, _, rfl, _⟩ := alike
    rfl
  have ticked := alike.tick now
  have sameTermination : (other.tick now).terminatedAt = (one.tick now).terminatedAt := by
    obtain ⟨_, _, same, _⟩ := ticked
    rw [same]
  unfold Runner.cancel Key.receive
  rw [sameKey]
  split
  · exact ⟨rfl, alike⟩
  · exact ⟨rfl, alike⟩
  · dsimp only
    rw [ticked.finished_eq, sameTermination]
    split
    · exact ⟨rfl, ticked⟩
    · rename_i running
      simp only [Bool.or_eq_true, not_or, Bool.not_eq_true] at running
      exact ⟨rfl, ticked.terminate cause running.1⟩

end Alike

def Ignores {Value : Type} (call : Runner → Runner × Value) : Prop :=
  ∀ runner giveUpAt abandonAt, call (runner.setWaits giveUpAt abandonAt) =
      ((call runner).1.setWaits giveUpAt abandonAt, (call runner).2)

namespace Ignores

variable {Value : Type}

theorem waits {call : Runner → Runner × Value} (ignores : Ignores call) (runner : Runner) :
    (call runner).1.giveUpAt = runner.giveUpAt ∧ (call runner).1.abandonAt = runner.abandonAt := by
  have same := ignores runner runner.giveUpAt runner.abandonAt
  have kept : call runner = ((call runner).1.setWaits runner.giveUpAt runner.abandonAt,
        (call runner).2) := same
  rw [kept]
  exact ⟨rfl, rfl⟩

/-- Such a call cannot tell alike runners apart, if it ends no state in which
a wait is idle. -/
theorem alike {call : Runner → Runner × Value} (ignores : Ignores call) (alike : Alike one other)
    (clean : one.isCleanedUp = true → (call one).1.isCleanedUp = true)
    (abandoned : one.Abandoned → (call one).1.Abandoned) :
    (call one).2 = (call other).2 ∧ Alike (call one).1 (call other).1 := by
  obtain ⟨giveUpAt, abandonAt, rfl, idle⟩ := alike
  obtain ⟨sameGiveUp, sameAbandon⟩ := ignores.waits one
  rw [ignores one giveUpAt abandonAt]
  exact ⟨rfl, giveUpAt, abandonAt, rfl,
    idle.giveUp.imp (fun same => same.trans sameGiveUp.symm) clean,
    idle.abandon.imp (fun same => same.trans sameAbandon.symm) abandoned⟩

theorem map {Other : Type} (ignores : Ignores call) (wrap : Value → Other) :
    Ignores fun runner => ((call runner).1, wrap (call runner).2) := by
  intro runner giveUpAt abandonAt
  dsimp only
  rw [ignores runner giveUpAt abandonAt]

theorem launched (result : Except LaunchFailure Unit) :
    Ignores fun runner => (runner.launched result, Return.done) := by
  intro runner giveUpAt abandonAt
  have sameWait : (runner.setWaits giveUpAt abandonAt).awaitsLaunch =
      runner.awaitsLaunch := rfl
  unfold Runner.launched
  dsimp only
  rw [sameWait]
  split
  · rfl
  · cases result with
    | ok value => rfl
    | error failure =>
      exact congrArg (fun next => (next, Return.done))
        (Alike.closeInput_setWaits { runner with launch := some (.error failure) }
          giveUpAt abandonAt)

theorem output (stream : Stream) (bytes : List UInt8) :
    Ignores fun runner => runner.output stream bytes := by
  intro runner giveUpAt abandonAt
  unfold Runner.output
  dsimp only [setWaits]
  split
  · rfl
  · split <;> rfl

theorem closeInputWhenTaken_setWaits (runner : Runner) (giveUpAt abandonAt : Option Instant) :
    (runner.setWaits giveUpAt abandonAt).closeInputWhenTaken =
      runner.closeInputWhenTaken.setWaits giveUpAt abandonAt := by
  have sameInput : (runner.setWaits giveUpAt abandonAt).input =
      runner.input := rfl
  unfold closeInputWhenTaken
  rw [sameInput]
  split <;> rfl

theorem inputWritten (bytes : Nat) : Ignores fun runner => runner.act (.inputWritten bytes) := by
  intro runner giveUpAt abandonAt
  dsimp only [Runner.act, Runner.inputWritten]
  have sameClosed : (runner.setWaits giveUpAt abandonAt).input.closed =
      runner.input.closed := rfl
  rw [sameClosed]
  split
  · rfl
  · exact congrArg (fun next => (next, Return.written (runner.input.inbox.bytes.take bytes)))
      (closeInputWhenTaken_setWaits (runner.popInput bytes) giveUpAt abandonAt)

theorem settled (result : Settlement) :
    Ignores fun runner => (runner.settled result, Return.done) := by
  intro runner giveUpAt abandonAt
  unfold Runner.settled
  dsimp only [setWaits]
  split <;> rfl

theorem nextRequest : Ignores Runner.nextRequest := by
  intro runner giveUpAt abandonAt
  unfold Runner.nextRequest
  dsimp only
  cases runner.terminateRequest with
  | some cause => rfl
  | none =>
    dsimp only
    by_cases stdout : (runner.outputs .stdout).discardRequested = true
    · simp only [if_pos stdout]
      rfl
    · simp only [if_neg stdout]
      by_cases stderr : (runner.outputs .stderr).discardRequested = true
      · simp only [if_pos stderr]
        rfl
      · simp only [if_neg stderr]
        by_cases close : runner.input.closeRequested = true
        · simp only [if_pos close]
          rfl
        · simp only [if_neg close]
          split <;> rfl

theorem credit (key : Key) (pool : Pool) (units : Nat) :
    Ignores fun runner => runner.credit key pool units := by
  intro runner giveUpAt abandonAt
  unfold Runner.credit Key.receive
  dsimp only [setWaits]
  split
  · rfl
  · rfl
  · split
    · rfl
    · split
      · rfl
      · split <;> rfl

theorem receiveInput (key : Key) (bytes : List UInt8) :
    Ignores fun runner => runner.receiveInput key bytes := by
  intro runner giveUpAt abandonAt
  unfold Runner.receiveInput Key.receive
  dsimp only [setWaits, setInput]
  split
  · rfl
  · rfl
  · split
    · rfl
    · split
      · rfl
      · split
        · rfl
        · split
          · rfl
          · split <;> rfl

theorem endInput (key : Key) : Ignores fun runner => runner.endInput key := by
  intro runner giveUpAt abandonAt
  unfold Runner.endInput Key.receive
  dsimp only
  split
  · rfl
  · rfl
  · split
    · rfl
    · split
      · rfl
      · have ended := closeInputWhenTaken_setWaits (runner.setInput
          { runner.input with peerEnded := true }) giveUpAt abandonAt
        cases closed : runner.input.closed with
        | true => simp [setInput]
        | false =>
          simp only [setInput, closed, Bool.false_eq_true, if_false] at ended ⊢
          rw [ended]

theorem nextCredit : Ignores Runner.nextCredit := by
  intro runner giveUpAt abandonAt
  have sameAccepts : (runner.setWaits giveUpAt abandonAt).inputAccepts =
      runner.inputAccepts := rfl
  unfold Runner.nextCredit
  rw [sameAccepts]
  split <;> rfl

theorem tryOutput (capacity : Nat) : Ignores fun runner => runner.tryOutput capacity := by
  intro runner giveUpAt abandonAt
  unfold Runner.tryOutput
  dsimp only [setWaits]
  split <;> rfl

theorem nextOutput (capacity : Nat) : Ignores fun runner => runner.nextOutput capacity := by
  intro runner giveUpAt abandonAt
  have first := tryOutput capacity runner giveUpAt abandonAt
  unfold Runner.nextOutput
  dsimp only at first ⊢
  rw [first]
  rcases runner.tryOutput capacity with ⟨next, _ | message⟩
  · exact tryOutput capacity next giveUpAt abandonAt
  · rfl

theorem nextOther (capacity : Nat) : Ignores fun runner => runner.nextOther capacity := by
  intro runner giveUpAt abandonAt
  have sameWait : (runner.setWaits giveUpAt abandonAt).awaitsLaunch =
      runner.awaitsLaunch := rfl
  have sameEnds (stream : Stream) : (runner.setWaits giveUpAt abandonAt).endsNow stream =
        runner.endsNow stream := rfl
  unfold Runner.nextOther
  dsimp only
  rw [sameWait, sameEnds, sameEnds]
  dsimp only [setWaits]
  split
  · rfl
  · split
    · rfl
    · split
      · split
        · rfl
        · split
          · rfl
          · exact nextOutput capacity runner giveUpAt abandonAt
      · rfl

theorem finish : Ignores Runner.finish := by
  intro runner giveUpAt abandonAt
  have sameOutcome : (runner.setWaits giveUpAt abandonAt).outcome =
      runner.outcome := rfl
  unfold Runner.finish
  rw [sameOutcome]
  split <;> rfl

theorem nextAfterCredit (capacity : Nat) :
    Ignores fun runner => runner.nextAfterCredit capacity := by
  intro runner giveUpAt abandonAt
  have first := nextOther capacity runner giveUpAt abandonAt
  unfold Runner.nextAfterCredit
  dsimp only at first ⊢
  rw [first]
  rcases runner.nextOther capacity with ⟨next, _ | message⟩
  · have second := nextCredit next giveUpAt abandonAt
    dsimp only at second ⊢
    rw [second]
    rcases next.nextCredit with ⟨last, _ | message⟩
    · exact finish last giveUpAt abandonAt
    · rfl
  · rfl

theorem nextMessage (capacity : Nat) : Ignores fun runner => runner.nextMessage capacity := by
  intro runner giveUpAt abandonAt
  have granted := nextCredit runner giveUpAt abandonAt
  unfold Runner.nextMessage
  dsimp only
  rw [granted]
  split
  · rfl
  · split
    · exact finish runner giveUpAt abandonAt
    · cases runner.credited with
      | true => exact nextAfterCredit capacity runner giveUpAt abandonAt
      | false =>
        simp only [Bool.false_eq_true, if_false]
        rcases runner.nextCredit with ⟨next, _ | message⟩
        · exact nextAfterCredit capacity next giveUpAt abandonAt
        · rfl

end Ignores

theorem Alike.act (alike : Alike one other) (clean : one.isCleanedUp = true →
      ∀ call, (one.act call).1.isCleanedUp = true)
    (abandoned : one.Abandoned → ∀ call, (one.act call).1.Abandoned) (call : LocalCall) :
    (one.act call).2 = (other.act call).2 ∧ Alike (one.act call).1 (other.act call).1 := by
  have ignores (ignored : Ignores fun runner => runner.act call) :
      (one.act call).2 = (other.act call).2 ∧ Alike (one.act call).1 (other.act call).1 :=
    ignored.alike alike (fun isClean => clean isClean call)
      fun isAbandoned => abandoned isAbandoned call
  cases call with
  | launched result => exact ignores (.launched result)
  | output stream bytes => exact ignores ((Ignores.output stream bytes).map _)
  | discarded stream bytes | outputClosed stream | outputFailed stream | outputHungUp stream =>
    exact ignores fun _ _ _ => rfl
  | inputWritten bytes => exact ignores (.inputWritten bytes)
  | inputClosed =>
    refine ignores fun runner giveUpAt abandonAt => ?_
    exact congrArg (fun next => (next, Return.done))
      (Alike.closeInput_setWaits runner giveUpAt abandonAt)
  | exited now status => exact ⟨rfl, alike.exited now status⟩
  | settled result => exact ignores (.settled result)
  | dropped now => exact ⟨rfl, alike.detach now .dropped⟩
  | reset now => exact ⟨rfl, alike.detach now .reset⟩
  | disconnect now => exact ⟨rfl, alike.detach now .disconnected⟩
  | tick now => exact ⟨rfl, alike.tick now⟩
  | nextRequest => exact ignores (Ignores.nextRequest.map _)

theorem Alike.step (consistent : one.Consistent) (alike : Alike one other) (call : Call) :
    (one.step call).2 = (other.step call).2 ∧ Alike (one.step call).1 (other.step call).1 := by
  have clean (isClean : one.isCleanedUp = true) (call : Call) :
      (one.step call).1.isCleanedUp = true :=
    ((KeptUnder.and Consistent.kept CleanedUp.kept).step
      consistent.sound.opened_lt call ⟨consistent, isClean⟩).2
  have abandoned (isAbandoned : one.Abandoned) (call : Call) : (one.step call).1.Abandoned :=
    (consistent.later call).abandoned isAbandoned
  have ignores (ignored : Ignores fun runner => runner.step call) :
      (one.step call).2 = (other.step call).2 ∧ Alike (one.step call).1 (other.step call).1 :=
    ignored.alike alike (fun isClean => clean isClean call)
      fun isAbandoned => abandoned isAbandoned call
  cases call with
  | act call =>
    exact alike.act (fun isClean call => clean isClean (.act call))
      (fun isAbandoned call => abandoned isAbandoned (.act call)) call
  | receive now key message =>
    cases message with
    | cancel cause =>
      have same := alike.cancel now key cause
      exact ⟨congrArg Return.received same.1, same.2⟩
    | credit pool units =>
      exact ignores ((Ignores.credit key pool units).map _)
    | input bytes => exact ignores ((Ignores.receiveInput key bytes).map _)
    | inputEnd => exact ignores ((Ignores.endInput key).map _)
  | nextMessage capacity =>
    exact ignores ((Ignores.nextMessage capacity).map _)

end Nvx.Exec.Runner
