import Nvx.Exec.PeerLifecycle
import Nvx.Exec.RunnerWaits

namespace Nvx.Exec

open Nvx.Data

/-! When the adapter of either side has to tick: a tick that is due leaves no
deadline due, and a tick before the deadline changes nothing that a call tells. -/

theorem reached_earliest (first second : Option Instant) (now : Instant) :
    reached (earliest first second) now = (reached first now || reached second now) := by
  cases first with
  | none => simp [earliest]
  | some first =>
    cases second with
    | none => simp [earliest]
    | some second => simp [earliest, Bool.decide_or]

theorem reached_foldl_earliest (timers : List (Option Instant))
    (first : Option Instant) (now : Instant) :
    reached (timers.foldl earliest first) now =
      (reached first now || timers.any fun timer => reached timer now) := by
  induction timers generalizing first with
  | nil => simp
  | cons timer timers induction =>
    rw [List.foldl_cons, induction, reached_earliest, List.any_cons, Bool.or_assoc]

theorem before_iff : (∀ instant ∈ timer, now < instant) ↔ reached timer now = false := by
  cases timer <;> simp

namespace Runner

structure Queries where
  key : Key
  limits : Limits
  readAllowance : Stream → Nat × Bool
  pendingInput : List UInt8 → Prop
  deadline : Option Instant
  isFinished : Bool
  isDetached : Bool
  awaitsSettlement : Bool
  memoryBound : Nat
  buffered : Nat
  highWater : Nat

def queries (runner : Runner) : Queries where
  key := runner.key
  limits := runner.limits
  readAllowance := runner.readAllowance
  pendingInput := runner.PendingInput
  deadline := runner.deadline
  isFinished := runner.finished
  isDetached := runner.detached
  awaitsSettlement := runner.awaitsSettlement
  memoryBound := runner.memoryBound
  buffered := runner.buffered
  highWater := runner.highWater

def settlementBy (runner : Runner) : Option Instant :=
  match runner.settling with
  | .requested by_ => by_
  | _ => none

def stillOpen (runner : Runner) (stream : Stream) : Bool :=
  !(runner.outputs stream).closed && !(runner.outputs stream).hungUp

def abandons (runner : Runner) : Bool :=
  runner.awaitsLaunch || decide (runner.settling = .fenced) &&
    (runner.stillOpen .stdout || runner.stillOpen .stderr)

structure Sleeps (runner : Runner) (now : Instant) : Prop where
  timeout : reached runner.timeoutAt now = false
  grace : reached runner.graceUntil now = false
  settlement : reached runner.settlementBy now = false
  giveUp : reached runner.giveUpAt now = true → runner.isCleanedUp = true
  abandon : reached runner.abandonAt now = true → runner.abandons = false

theorem reached_filter (timer : Option Instant) (holds : Bool) (now : Instant) :
    reached (timer.filter fun _ => holds) now = (reached timer now && holds) := by
  cases timer with
  | none => rfl
  | some instant => cases holds <;> simp [Option.filter]

theorem deadline_eq (runner : Runner) : runner.deadline = if runner.finished then none else
      [runner.timeoutAt, runner.graceUntil, runner.settlementBy,
        runner.giveUpAt.filter fun _ => !runner.isCleanedUp,
        runner.abandonAt.filter fun _ => runner.abandons].foldl earliest
          none := rfl

theorem reached_deadline_iff {runner : Runner} :
    reached runner.deadline now = false ↔ runner.finished = true ∨ runner.Sleeps now := by
  rw [deadline_eq]
  cases runner.finished with
  | true => simp
  | false =>
    simp only [Bool.false_eq_true, if_false, false_or, reached_foldl_earliest,
      reached_none, Bool.false_or, List.any_cons, List.any_nil, Bool.or_false,
      reached_filter, Bool.or_eq_false_iff]
    constructor
    · intro unreached
      obtain ⟨timeout, grace, settlement, giveUp, abandon⟩ := unreached
      exact ⟨timeout, grace, settlement, fun isReached => by simpa [isReached] using giveUp,
        fun isReached => by simpa [isReached] using abandon⟩
    · intro waits
      refine ⟨waits.timeout, waits.grace, waits.settlement, ?_, ?_⟩
      · cases isReached : reached runner.giveUpAt now with
        | false => rfl
        | true => simp [waits.giveUp isReached]
      · cases isReached : reached runner.abandonAt now with
        | false => rfl
        | true => simp [waits.abandon isReached]

theorem tickTimeout_unreached (now : Instant) (unfinished : finished runner = false) :
    reached (runner.tickTimeout now).timeoutAt now = false := by
  unfold tickTimeout
  split
  · rw [timeoutAt_eq_none_of_evolves (terminate_evolves now .timedOut (by exact unfinished)) rfl]
    rfl
  · rename_i early
    exact Bool.eq_false_iff.mpr early

theorem tickGrace_unreached (runner : Runner) (now : Instant) :
    (runner.tickGrace now).timeoutAt = runner.timeoutAt ∧
      reached (runner.tickGrace now).graceUntil now = false := by
  unfold tickGrace
  split
  · exact ⟨rfl, rfl⟩
  · rename_i early
    exact ⟨rfl, Bool.eq_false_iff.mpr early⟩

theorem tickSettlement_unreached (runner : Runner) (now : Instant) :
    (runner.tickSettlement now).timeoutAt = runner.timeoutAt ∧
      (runner.tickSettlement now).graceUntil = runner.graceUntil ∧
        reached (runner.tickSettlement now).settlementBy now = false := by
  unfold tickSettlement settlementBy
  split
  · rename_i by_ waiting
    split
    · exact ⟨rfl, rfl, rfl⟩
    · rename_i early
      rw [waiting]
      exact ⟨rfl, rfl, by simpa using early⟩
  · rename_i idle
    refine ⟨rfl, rfl, ?_⟩
    split
    · rename_i by_ waiting
      cases by_ with
      | none => rfl
      | some instant => exact absurd waiting (idle instant)
    · rfl

theorem tickGiveUp_cases (runner : Runner) (now : Instant) :
    runner.tickGiveUp now = runner ∧ reached runner.giveUpAt now = false ∨
    runner.tickGiveUp now = { runner with giveUpAt := none } ∨
    runner.tickGiveUp now = runner.giveUp := by
  unfold tickGiveUp
  cases reached runner.giveUpAt now with
  | false => exact .inl ⟨rfl, rfl⟩
  | true =>
    rw [if_pos rfl]
    split
    · exact .inr (.inl rfl)
    · exact .inr (.inr rfl)

theorem tickAbandon_cases (runner : Runner) (now : Instant) : runner.tickAbandon now = runner ∧
      (reached runner.abandonAt now = true → runner.abandons = false) ∨
    runner.tickAbandon now = runner.abandonOpenStreams ∨
    runner.tickAbandon now = runner.abandonLaunch.abandonOpenStreams := by
  unfold tickAbandon
  cases reached runner.abandonAt now with
  | false => exact .inl ⟨rfl, nofun⟩
  | true =>
    rw [if_pos rfl]
    cases awaits : runner.awaitsLaunch with
    | true => exact .inr (.inr rfl)
    | false =>
      simp only [Bool.false_eq_true, if_false]
      split
      · exact .inr (.inl rfl)
      · rename_i unfenced
        exact .inl ⟨rfl, fun _ => by simp [abandons, awaits, unfenced]⟩

theorem sleeps_tick (now : Instant)
    (unfinished : finished runner = false) : (runner.tick now).Sleeps now := by
  have unfolded : runner.tick now = ((((runner.tickTimeout now).tickGrace
      now).tickSettlement now).tickGiveUp now).tickAbandon now := by
    simp [tick, unfinished]
  rw [unfolded]
  have timeout := tickTimeout_unreached now unfinished
  generalize runner.tickTimeout now = first at timeout
  obtain ⟨sameTimeout, grace⟩ := first.tickGrace_unreached now
  rw [← sameTimeout] at timeout
  generalize first.tickGrace now = second at timeout grace
  obtain ⟨keptTimeout, keptGrace, settlement⟩ :=
    second.tickSettlement_unreached now
  rw [← keptTimeout] at timeout
  rw [← keptGrace] at grace
  generalize second.tickSettlement now = third at timeout grace settlement
  obtain ⟨timeout, grace, settlement, giveUp⟩ :
      reached (third.tickGiveUp now).timeoutAt now = false ∧
      reached (third.tickGiveUp now).graceUntil now = false ∧
      reached (third.tickGiveUp now).settlementBy now = false ∧
      reached (third.tickGiveUp now).giveUpAt now = false := by
    rcases third.tickGiveUp_cases now with ⟨same, giveUp⟩ | same | same
    · rw [same]
      exact ⟨timeout, grace, settlement, giveUp⟩
    · rw [same]
      exact ⟨timeout, grace, settlement, rfl⟩
    · rw [same]
      exact ⟨timeout, rfl, rfl, rfl⟩
  generalize third.tickGiveUp now = fourth at timeout grace settlement giveUp
  rcases fourth.tickAbandon_cases now with ⟨same, abandon⟩ | same | same
  · rw [same]
    exact ⟨timeout, grace, settlement, by simp [giveUp], abandon⟩
  · rw [same]
    exact ⟨timeout, grace, settlement,
      by simp [abandonOpenStreams, giveUp], by simp [abandonOpenStreams]⟩
  · rw [same]
    exact ⟨timeout, grace, rfl, by simp [abandonOpenStreams, abandonLaunch, giveUp],
      by simp [abandonOpenStreams]⟩

namespace Sleeps

variable {runner : Runner}

theorem tickSettlement_eq (waits : runner.Sleeps now) : runner.tickSettlement now = runner := by
  have early := waits.settlement
  unfold tickSettlement
  split
  · rename_i by_ waiting
    simp only [settlementBy, waiting, reached_some, decide_eq_false_iff_not] at early
    rw [if_neg early]
  · rfl

theorem tickGiveUp_eq (waits : runner.Sleeps now) : ∃ giveUpAt, runner.tickGiveUp now =
        runner.setWaits giveUpAt runner.abandonAt ∧
      (giveUpAt = runner.giveUpAt ∨ runner.isCleanedUp = true) := by
  unfold tickGiveUp
  cases isReached : reached runner.giveUpAt now with
  | false => exact ⟨runner.giveUpAt, rfl, .inl rfl⟩
  | true =>
    have clean := waits.giveUp isReached
    rw [clean]
    exact ⟨none, rfl, .inr rfl⟩

theorem abandoned (idle : runner.abandons = false) (life : runner.Lifecycle)
    (fenced : runner.settling = .fenced) : runner.Abandoned := by
  simp only [abandons, fenced, decide_true, Bool.true_and,
    Bool.or_eq_false_iff, stillOpen, Bool.and_eq_false_iff,
    Bool.not_eq_false'] at idle
  exact ⟨idle.1, fenced, life.settling (by simp [fenced]),
    Stream.forall_iff.mpr idle.2⟩

theorem tickAbandon_eq (waits : runner.Sleeps now) (life : runner.Lifecycle)
    (giveUpAt : Option Instant) :
    ∃ abandonAt, (runner.setWaits giveUpAt runner.abandonAt).tickAbandon now =
        runner.setWaits giveUpAt abandonAt ∧
      (abandonAt = runner.abandonAt ∨ runner.Abandoned) := by
  cases isReached : reached runner.abandonAt now with
  | false =>
    refine ⟨runner.abandonAt, ?_, .inl rfl⟩
    simp [tickAbandon, isReached]
  | true =>
    have idle := waits.abandon isReached
    by_cases fenced : runner.settling = .fenced
    · have isAbandoned := Sleeps.abandoned idle life fenced
      obtain ⟨kept, ticked⟩ := @Alike.tickAbandon_of_abandoned now
        (runner.setWaits giveUpAt runner.abandonAt) { isAbandoned with }
      exact ⟨kept, ticked, .inr isAbandoned⟩
    · have launched : (runner.setWaits giveUpAt runner.abandonAt).awaitsLaunch = false :=
        (Bool.or_eq_false_iff.mp idle).1
      refine ⟨runner.abandonAt, ?_, .inl rfl⟩
      simp [tickAbandon, isReached, launched, fenced]

theorem alike (waits : runner.Sleeps now) (life : runner.Lifecycle)
    (unfinished : runner.finished = false) :
    Alike runner (runner.tick now) := by
  obtain ⟨giveUpAt, givesUp, giveUp⟩ := waits.tickGiveUp_eq
  obtain ⟨abandonAt, abandons, abandon⟩ := waits.tickAbandon_eq life giveUpAt
  refine ⟨giveUpAt, abandonAt, ?_, giveUp, abandon⟩
  simp only [tick, unfinished, Bool.false_eq_true, if_false, tickTimeout,
    waits.timeout, tickGrace, waits.grace, waits.tickSettlement_eq, givesUp,
    abandons]

end Sleeps

theorem Alike.queries_eq (alike : Alike one other) : one.queries = other.queries := by
  obtain ⟨giveUpAt, abandonAt, rfl, idle⟩ := alike
  have giveUp : (one.giveUpAt.filter fun _ => !one.isCleanedUp) =
      giveUpAt.filter fun _ => !one.isCleanedUp := by
    rcases idle.giveUp with same | clean
    · rw [same]
    · simp [clean]
  have abandon : (one.abandonAt.filter fun _ => one.abandons) =
      abandonAt.filter fun _ => one.abandons := by
    rcases idle.abandon with same | abandoned
    · rw [same]
    · have shut (stream : Stream) : one.stillOpen stream = false := by
        rcases abandoned.closed stream with closed | hungUp
        · simp [stillOpen, closed]
        · simp [stillOpen, hungUp]
      have idles : one.abandons = false := by
        simp [abandons, abandoned.launched, shut]
      simp [idles]
  have deadline : one.deadline = (one.setWaits giveUpAt abandonAt).deadline := by
    rw [deadline_eq one, giveUp, abandon]
    rfl
  rw [queries, queries, Queries.mk.injEq]
  exact ⟨rfl, rfl, rfl, rfl, deadline, rfl, rfl, rfl, rfl, rfl, rfl⟩

end Runner

namespace Peer

structure Queries where
  key : Key
  limits : Limits
  writeAllowance : Nat × Bool
  pendingOutput : Stream → List UInt8 → Prop
  deadline : Option Instant
  isFinished : Bool
  hasStarted : Bool
  isDetached : Bool
  memoryBound : Nat
  buffered : Nat
  highWater : Nat

def queries (peer : Peer) : Queries where
  key := peer.key
  limits := peer.limits
  writeAllowance := peer.writeAllowance
  pendingOutput := peer.PendingOutput
  deadline := peer.deadline
  isFinished := peer.finished
  hasStarted := peer.started
  isDetached := peer.detached
  memoryBound := peer.memoryBound
  buffered := peer.buffered
  highWater := peer.highWater

structure Sleeps (peer : Peer) (now : Instant) : Prop where
  timeout : reached peer.timeoutAt now = false
  grace : reached peer.graceUntil now = false
  giveUp : reached peer.giveUpAt now = false

theorem reached_deadline_iff {peer : Peer} : reached peer.deadline now = false ↔
      peer.finished = true ∨ peer.Sleeps now := by
  unfold deadline
  cases peer.finished with
  | true => simp
  | false =>
    simp only [Bool.false_eq_true, if_false, false_or, reached_foldl_earliest,
      reached_none, Bool.false_or, List.any_cons, List.any_nil, Bool.or_false,
      Bool.or_eq_false_iff]
    constructor
    · intro unreached
      exact ⟨unreached.1, unreached.2.1, unreached.2.2⟩
    · intro waits
      exact ⟨waits.timeout, waits.grace, waits.giveUp⟩

theorem terminate_timeoutAt (now : Instant) (cause : Cause) (stopped : timeoutAt peer = none) :
    (peer.terminate now cause).timeoutAt = none := by
  by_cases skipped : (peer.finished || peer.terminatedAt.isSome) = true
  · simp only [terminate, skipped, if_true]
    exact stopped
  · rw [not_or_isSome] at skipped
    rw [terminate_of_none now cause skipped.1 skipped.2]
    simp only
    split <;> rfl

theorem sleeps_tick (now : Instant)
    (unfinished : finished peer = false) : (peer.tick now).Sleeps now := by
  have unfolded : peer.tick now = ((peer.tickTimeout now).tickGrace now).tickGiveUp now := by
    simp [tick, unfinished]
  rw [unfolded]
  have timeout : reached (peer.tickTimeout now).timeoutAt now = false := by
    unfold tickTimeout
    split
    · rw [terminate_timeoutAt now .timedOut rfl]
      rfl
    · rename_i early
      exact Bool.eq_false_iff.mpr early
  generalize peer.tickTimeout now = first at timeout
  obtain ⟨timeout, grace⟩ : reached (first.tickGrace now).timeoutAt now = false ∧
      reached (first.tickGrace now).graceUntil now = false := by
    unfold tickGrace
    split
    · exact ⟨timeout, rfl⟩
    · rename_i early
      exact ⟨timeout, Bool.eq_false_iff.mpr early⟩
  generalize first.tickGrace now = second at timeout grace
  unfold tickGiveUp
  split
  · exact ⟨timeout, rfl, rfl⟩
  · rename_i early
    exact ⟨timeout, grace, Bool.eq_false_iff.mpr early⟩

theorem Sleeps.tick_eq (waits : Sleeps peer now) : peer.tick now = peer := by
  simp [tick, tickTimeout, waits.timeout, tickGrace, waits.grace, tickGiveUp, waits.giveUp]

end Peer

/-- After a tick the next deadline is later, and a tick before the deadline is
not observable: every later sequence of calls returns the same. -/
theorem ticks_neither_spin_nor_oversleep (key : Key) (limits : Limits)
    (timers : Timers) (start now : Instant) :
    (∀ calls : List Runner.Call,
      let runner := Runner.machine.after (Runner.new key limits timers start) calls
      (∀ deadline ∈ (runner.tick now).deadline, now < deadline) ∧
      ((∀ deadline ∈ runner.deadline, now < deadline) →
        ∀ more, Runner.machine.trace (runner.tick now) more = Runner.machine.trace runner more ∧
          (Runner.machine.after (runner.tick now) more).queries =
            (Runner.machine.after runner more).queries)) ∧
    ∀ calls : List Peer.Call,
      let peer := Peer.machine.after (Peer.new key limits timers start) calls
      (∀ deadline ∈ (peer.tick now).deadline, now < deadline) ∧
      ((∀ deadline ∈ peer.deadline, now < deadline) →
        ∀ more, Peer.machine.trace (peer.tick now) more = Peer.machine.trace peer more ∧
          (Peer.machine.after (peer.tick now) more).queries =
            (Peer.machine.after peer more).queries) := by
  constructor
  · intro calls runner
    have consistent : runner.Consistent :=
      (Runner.Consistent.new key limits timers start).after calls
    constructor
    · rw [before_iff, Runner.reached_deadline_iff, Runner.tick_finished]
      cases unfinished : runner.finished with
      | true => exact .inl rfl
      | false => exact .inr (Runner.sleeps_tick now unfinished)
    · intro early more
      rw [before_iff, Runner.reached_deadline_iff] at early
      have alike : runner.Alike (runner.tick now) := by
        cases unfinished : runner.finished with
        | true =>
          have same : runner.tick now = runner := by
            simp [Runner.tick, unfinished]
          rw [same]
          exact .refl runner
        | false =>
          rw [unfinished] at early
          exact (early.resolve_left (by decide)).alike consistent.life
            unfinished
      obtain ⟨traces, last⟩ := Runner.machine.trace_eq_of_alike
        (fun _ call held => Runner.Consistent.step held call)
        (fun _ _ call held alike => Runner.Alike.step held alike call)
        consistent alike more
      exact ⟨traces.symm, last.queries_eq.symm⟩
  · intro calls peer
    constructor
    · rw [before_iff, Peer.reached_deadline_iff]
      cases unfinished : peer.finished with
      | true => exact .inl (by simp [Peer.tick, unfinished])
      | false => exact .inr (Peer.sleeps_tick now unfinished)
    · intro early more
      rw [before_iff, Peer.reached_deadline_iff] at early
      have same : peer.tick now = peer := by
        rcases early with finished | waits
        · simp [Peer.tick, finished]
        · exact waits.tick_eq
      rw [same]
      exact ⟨rfl, rfl⟩

end Nvx.Exec
