import Nvx.Exec.RunnerEnding
import Nvx.Exec.RunnerTerminal
import Nvx.Exec.PeerHistory

namespace Nvx.Exec

open Nvx.Data

namespace Peer

/-! A peer whose termination began reaches its final outcome. -/

/-- The timers of a termination that began: the grace until nothing is left of
the output, and the wait for the runner's outcome. -/
structure Timed (peer : Peer) : Prop where
  grace : ∀ {begun until_}, peer.terminatedAt = some begun →
    after begun peer.timers.grace = some until_ →
      peer.graceUntil = some until_ ∨ ∀ stream, (peer.outputs stream).Silent
  giveUp : ∀ {begun until_ last}, peer.terminatedAt = some begun →
    after begun peer.timers.grace = some until_ →
    after until_ peer.timers.settlement = some last →
      peer.giveUpAt = some last ∨ peer.baseOutcome.isSome = true

namespace Timed

variable {peer next : Peer}

theorem new (key : Key) (limits : Limits) (timers : Timers) (now : Instant) :
    (Peer.new key limits timers now).Timed := by
  constructor <;> simp [Peer.new]

theorem change (change : Change peer next) (timed : peer.Timed) :
    next.Timed := by
  cases change with
  | terminate now cause first unfinished closed =>
    refine ⟨?_, ?_⟩
    · intro begun until_ terminated grace
      obtain rfl : now = begun := Option.some.inj terminated
      exact .inl grace
    · intro begun until_ last terminated grace settlement
      obtain rfl : now = begun := Option.some.inj terminated
      change after now peer.timers.grace = some until_ at grace
      change after until_ peer.timers.settlement = some last at settlement
      cases ended : peer.terminal with
      | none =>
        left
        simp [beginTermination, ended, grace, settlement]
      | some outcome =>
        right
        simp [beginTermination, baseOutcome, ended]
  | outlive now outcome first ended caused unfinished closed =>
    refine ⟨?_, fun _ _ _ => .inr ?_⟩
    · intro begun until_ terminated grace
      obtain rfl : now = begun := Option.some.inj terminated
      exact .inl grace
    · rw [baseOutcome_isSome_iff]
      exact .inl (by simp [outlive, ended])
  | endGrace ending unfinished =>
    have silent := peer.endGrace_silent
    rw [endGrace_eq] at silent ⊢
    exact ⟨fun _ _ => .inr silent, timed.giveUp⟩
  | giveUp waiting unfinished silent =>
    refine ⟨fun _ _ => .inr silent, fun _ _ _ => .inr ?_⟩
    rw [baseOutcome_isSome_iff]
    exact .inr (.inr rfl)
  | leaveRunner ending unfinished =>
    refine ⟨timed.grace, fun _ _ _ => .inr ?_⟩
    rw [baseOutcome_isSome_iff]
    exact .inr (.inl rfl)
  | _ => exact ⟨timed.grace, timed.giveUp⟩

theorem update (timed : peer.Timed) (stream : Stream) (incoming : Incoming)
    (silent : (peer.outputs stream).Silent → incoming.Silent) :
    (peer.setOutput stream incoming).Timed := by
  refine ⟨fun terminated grace => ?_, timed.giveUp⟩
  refine (timed.grace terminated grace).imp id fun all other => ?_
  exact forall_update Incoming.Silent all (silent (all stream)) other

theorem charge (timed : peer.Timed) (stream : Stream) (window : Granted) (bytes : List UInt8) :
    (if (peer.outputs stream).discarding then
        peer.refuseOutput stream window bytes
      else peer.holdOutput stream window bytes).Timed := by
  split
  · have refused := timed.update stream { peer.outputs stream with truncated := true } id
    exact ⟨refused.grace, refused.giveUp⟩
  · rename_i kept
    have held := timed.update stream
      { peer.outputs stream with
        inbox := (peer.outputs stream).inbox.push bytes }
      fun silent => absurd silent.2 kept
    exact ⟨held.grace, held.giveUp⟩

theorem consumed (timed : peer.Timed) (stream : Stream) (bytes : Nat) :
    (peer.consumed stream bytes).Timed := by
  have popped := timed.update stream
    { peer.outputs stream with
      inbox := ((peer.outputs stream).inbox.pop bytes).1 }
    fun silent => ⟨by simp [silent.1], silent.2⟩
  exact ⟨popped.grace, popped.giveUp⟩

theorem kept : Kept Timed where
  change := fun change _ timed => timed.change change
  takeInput := fun _ _ _ timed => ⟨timed.grace, timed.giveUp⟩
  endInput := fun _ _ _ timed => ⟨timed.grace, timed.giveUp⟩
  consumed := fun stream bytes _ _ timed => timed.consumed stream bytes
  tells := fun tells _ timed => by
    cases tells with
    | streamEnd stream ending => exact timed.update stream _ id
    | _ => exact ⟨timed.grace, timed.giveUp⟩
  grant := fun _ _ _ timed => ⟨timed.grace, timed.giveUp⟩
  started := fun _ _ _ _ timed => ⟨timed.grace, timed.giveUp⟩
  charge := fun _ _ _ _ _ timed => timed.charge _ _ _
  endOutput := fun stream _ _ _ timed => timed.update stream _ id
  terminal := fun _ _ _ _ _ _ timed => ⟨timed.grace, fun _ _ _ => .inr rfl⟩
  emits := fun emits _ timed => by
    cases emits <;> exact ⟨timed.grace, timed.giveUp⟩

end Timed

/-- Nothing is left to wait for, but events to tell before the outcome. -/
structure Ready (peer : Peer) : Prop where
  unfinished : peer.finished = false
  empty : ∀ stream, (peer.outputs stream).inbox.bytes = []
  known : peer.baseOutcome.isSome = true

theorem tickTimeout_of_terminated (life : Lifecycle peer)
    (terminated : peer.terminatedAt.isSome = true) (now : Instant) :
    peer.tickTimeout now = peer := by
  unfold tickTimeout
  split
  · rename_i isReached
    obtain ⟨instant, waiting, _⟩ := reached_iff.mp isReached
    have running := (life.timeout (by simp [waiting])).1
    simp [running] at terminated
  · rfl

theorem tick_ready (consistent : Consistent peer)
    (timed : peer.Timed) (unfinished : peer.finished = false) {begun until_ last now : Instant}
    (terminated : peer.terminatedAt = some begun)
    (grace : after begun peer.timers.grace = some until_)
    (settlement : after until_ peer.timers.settlement = some last)
    (past : last ≤ now) : (peer.tick now).Ready := by
  have isSome : peer.terminatedAt.isSome = true := by simp [terminated]
  unfold tick
  rw [if_neg (by simp [unfinished])]
  simp only [tickTimeout_of_terminated consistent.life isSome]
  have silent (stream : Stream) : ((peer.tickGrace now).outputs stream).Silent := by
    unfold tickGrace
    rcases timed.grace terminated grace with pending | silent
    · rw [pending, reached_some, if_pos (by simpa using Nat.le_trans (le_of_after settlement) past)]
      exact peer.endGrace_silent stream
    · split
      · exact peer.endGrace_silent stream
      · exact silent stream
  have known : (peer.tickGrace now).giveUpAt = some last ∨
      (peer.tickGrace now).baseOutcome.isSome = true := by
    have before := timed.giveUp terminated grace settlement
    unfold tickGrace
    split
    · rw [endGrace_eq]
      exact before
    · exact before
  have still : (peer.tickGrace now).finished = false := by
    simpa using unfinished
  generalize peer.tickGrace now = graced at *
  unfold tickGiveUp
  split
  · exact {
      unfinished := still
      empty := fun stream => (endGrace_silent _ stream).1
      known := by
        rw [baseOutcome_isSome_iff]
        exact .inr (.inr rfl) }
  · rename_i waits
    refine ⟨still, fun stream => (silent stream).1, ?_⟩
    rcases known with pending | known
    · rw [pending, reached_some, decide_eq_true_eq] at waits
      exact absurd past waits
    · exact known

def pending (peer : Peer) : Nat :=
  peer.startedEvent.toNat + peer.input.closedEvent.toNat +
    ((!(peer.outputs .stdout).endEvent).toNat + (!(peer.outputs .stderr).endEvent).toNat)

theorem pending_le (peer : Peer) : peer.pending ≤ 4 := by
  have one (flag : Bool) : flag.toNat ≤ 1 := Bool.toNat_le flag
  have started := one peer.startedEvent
  have closed := one peer.input.closedEvent
  have stdout := one (!(peer.outputs .stdout).endEvent)
  have stderr := one (!(peer.outputs .stderr).endEvent)
  unfold pending
  omega

namespace Ready

variable {peer next : Peer}

theorem outcome_isSome (ready : peer.Ready) : peer.outcome ≠ none := by
  obtain ⟨base, known⟩ := Option.isSome_iff_exists.mp ready.known
  simp [outcome, isEmpty, ready.empty, known]

theorem tells (ready : peer.Ready) (tells : Tells peer next event) :
    (∃ outcome, event = some (.finished outcome)) ∨
      next.Ready ∧ next.pending < peer.pending := by
  cases tells with
  | started waiting =>
    refine .inr ⟨{ ready with }, ?_⟩
    simp only [pending, waiting, Bool.toNat_true, Bool.toNat_false]
    omega
  | inputClosed waiting =>
    refine .inr ⟨{ ready with }, ?_⟩
    simp only [pending, setInput, waiting, Bool.toNat_true, Bool.toNat_false]
    omega
  | streamEnd stream ending =>
    refine .inr ⟨{ ready with empty := fun other => ?_ }, ?_⟩
    · refine forall_update (fun incoming : Incoming => incoming.inbox.bytes = []) ready.empty ?_
        other
      exact ready.empty stream
    · simp only [endsNow, Bool.and_eq_true, Bool.not_eq_true'] at ending
      cases stream <;> simp [pending, setOutput, Function.update, ending.2]
  | finished outcome ended unfinished => exact .inl ⟨outcome, rfl⟩
  | nothing quiet =>
    exact absurd (quiet ready.unfinished).2.2.2 ready.outcome_isSome

theorem finished_mem (ready : peer.Ready) (enough : peer.pending < count) :
    ∃ outcome, .finished outcome ∈
      events (machine.trace peer (List.replicate count (.act .nextEvent))) := by
  have done := machine.exists_done_of_rank Ready (fun call => call = .act .nextEvent)
    (fun event => ∃ outcome, told event = some (.finished outcome)) pending ?_
    (List.replicate count (.act .nextEvent)) ready (by simp)
    (by simpa using enough)
  · obtain ⟨event, member, outcome, returned⟩ := done
    exact ⟨outcome, List.mem_filterMap.mpr ⟨event, member, returned⟩⟩
  · rintro peer _ rfl ready
    exact ready.tells peer.nextEvent_tells

end Ready

end Peer

theorem Runner.Consistent.exists_terminal {begun later : Instant} {capacities : List Nat}
    (consistent : Consistent runner) (timed : runner.Timed) (unfinished : runner.finished = false)
    (terminated : runner.terminatedAt = some begun)
    (representable : begun + runner.timers.grace + runner.timers.settlement ≤ latestInstant)
    (past : begun + runner.timers.grace + runner.timers.settlement ≤ later)
    (enough : 5 ≤ capacities.length) :
    ∃ outcome, .terminal outcome ∈ Runner.messages (Runner.machine.trace
      (runner.tick later) (capacities.map .nextMessage)) := by
  obtain ⟨grace, settlement⟩ := after_after representable
  have ready := Runner.tick_ready consistent timed unfinished terminated grace settlement past
  refine ready.terminal_mem ?_ (Nat.lt_of_le_of_lt (Runner.pending_le _) enough)
  exact (consistent.evolves timed (Runner.tick_evolves _ later)).1

theorem Peer.Consistent.exists_finished {begun later : Instant}
    (consistent : Consistent peer) (timed : peer.Timed) (unfinished : peer.finished = false)
    (terminated : peer.terminatedAt = some begun)
    (representable : begun + peer.timers.grace + peer.timers.settlement ≤ latestInstant)
    (past : begun + peer.timers.grace + peer.timers.settlement ≤ later) (enough : 5 ≤ count) :
    ∃ outcome, .finished outcome ∈ Peer.events (Peer.machine.trace
      (peer.tick later) (List.replicate count (.act .nextEvent))) := by
  obtain ⟨grace, settlement⟩ := after_after representable
  have ready := Peer.tick_ready consistent timed unfinished terminated grace settlement past
  exact ready.finished_mem (Nat.lt_of_le_of_lt (Peer.pending_le _) enough)

section Runs

variable (key : Key) (limits : Limits) (timers : Timers) (start : Instant)

/-- Once a termination began and a tick passed its grace and its settlement,
each side returns its outcome within five calls, unless it did before. -/
theorem returns_outcome_after_termination : (∀ (calls : List Runner.Call) (begun later : Instant)
        (capacities : List Nat),
      let initial := Runner.new key limits timers start
      (Runner.machine.after initial calls).terminatedAt = some begun →
      begun + timers.grace + timers.settlement ≤ latestInstant →
      begun + timers.grace + timers.settlement ≤ later →
      5 ≤ capacities.length →
      (∀ outcome, .terminal outcome ∉ Runner.messages (Runner.machine.trace initial calls)) →
      ∃ outcome, .terminal outcome ∈ Runner.messages (Runner.machine.trace
        ((Runner.machine.after initial calls).tick later)
        (capacities.map .nextMessage))) ∧
    ∀ (calls : List Peer.Call) (begun later : Instant) (count : Nat),
      let initial := Peer.new key limits timers start
      (Peer.machine.after initial calls).terminatedAt = some begun →
      begun + timers.grace + timers.settlement ≤ latestInstant →
      begun + timers.grace + timers.settlement ≤ later →
      5 ≤ count →
      (∀ outcome, .finished outcome ∉ Peer.events (Peer.machine.trace initial calls)) →
      ∃ outcome, .finished outcome ∈ Peer.events (Peer.machine.trace
        ((Peer.machine.after initial calls).tick later)
        (List.replicate count (.act .nextEvent))) := by
  refine ⟨fun calls begun later capacities => ?_, fun calls begun later count => ?_⟩
  · intro initial terminated representable past enough unreturned
    have consistent := Runner.Consistent.new key limits timers start
    have timed := Runner.Timed.kept.after consistent
      (Runner.Timed.new key limits timers start) calls
    have same := (consistent.later_after calls).timers
    refine (consistent.after calls).exists_terminal timed ?_ terminated
      (by rwa [same]) (by rwa [same]) enough
    rw [Bool.eq_false_iff]
    intro finished
    obtain ⟨outcome, member⟩ :=
      Runner.terminal_mem_messages key limits timers start calls finished
    exact unreturned outcome member
  · intro initial terminated representable past enough unreturned
    have consistent := Peer.Consistent.new key limits timers start
    have timed := (Peer.Timed.kept.mono fun _ => trivial).after consistent
      (Peer.Timed.new key limits timers start) calls
    have same := (consistent.later_after calls).timers
    refine (consistent.after calls).exists_finished timed ?_ terminated
      (by rwa [same]) (by rwa [same]) enough
    rw [Bool.eq_false_iff]
    intro finished
    obtain ⟨outcome, member⟩ :=
      Peer.finished_mem_events key limits timers start calls finished
    exact unreturned outcome member

end Runs

/-- Both sides of an execution that is dropped at once. -/
theorem returns_outcome_after_drop :
    (∃ outcome, .terminal outcome ∈ Runner.messages (Runner.machine.trace
      ((Runner.machine.after (Runner.new ⟨0, 0⟩ .smallest .immediate 0)
        [.act (.dropped 0)]).tick 0) ([0, 0, 0, 0, 0].map .nextMessage))) ∧
    ∃ outcome, .finished outcome ∈ Peer.events (Peer.machine.trace
      ((Peer.machine.after (Peer.new ⟨0, 0⟩ .smallest .immediate 0)
        [.act (.dropped 0)]).tick 0) (List.replicate 5 (.act .nextEvent))) :=
  ⟨(returns_outcome_after_termination ⟨0, 0⟩ .smallest .immediate 0).1
      [.act (.dropped 0)] 0 0 [0, 0, 0, 0, 0] rfl (by decide) (by decide)
      (by decide) (by intro outcome; exact List.not_mem_nil),
    (returns_outcome_after_termination ⟨0, 0⟩ .smallest .immediate 0).2
      [.act (.dropped 0)] 0 0 5 rfl (by decide) (by decide) (by decide)
      (by intro outcome; exact List.not_mem_nil)⟩

/-- Without its last condition the bound fails: the calls after the outcome
return nothing, however many there are. -/
theorem finished_runner_returns_nothing :
    ¬ ∀ (key : Key) (limits : Limits) (timers : Timers) (start : Instant)
        (calls : List Runner.Call) (begun later : Instant),
      let runner := Runner.machine.after (Runner.new key limits timers start) calls
      runner.terminatedAt = some begun →
      begun + timers.grace + timers.settlement ≤ latestInstant →
      begun + timers.grace + timers.settlement ≤ later →
      ∃ bound, ∀ capacities : List Nat, bound ≤ capacities.length →
        ∃ outcome, .terminal outcome ∈ Runner.messages (Runner.machine.trace
          (runner.tick later) (capacities.map .nextMessage)) := by
  intro returns
  obtain ⟨bound, returned⟩ := returns ⟨0, 0⟩ .smallest .immediate 0
    [.act (.dropped 0), .act (.tick 0), .nextMessage 0] 0 0 rfl (by decide)
    (by decide)
  obtain ⟨outcome, member⟩ := returned (List.replicate bound 0) (by simp)
  have consistent := ((Runner.Consistent.new ⟨0, 0⟩ .smallest .immediate 0).after
    [.act (.dropped 0), .act (.tick 0), .nextMessage 0]).step (.act (.tick 0))
  have silent := Runner.messages_of_finished consistent (by rfl)
    ((List.replicate bound 0).map .nextMessage)
  exact List.not_mem_nil (silent ▸ member)

end Nvx.Exec
