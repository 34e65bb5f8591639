import Nvx.Exec.RunnerHistory

namespace Nvx.Exec.Runner

open Nvx.Data

/-! A runner whose termination began reaches its terminal outcome. -/

theorem isCleanedUp_iff : isCleanedUp runner = true ↔
      runner.launch.isSome = true ∧ runner.exit.isSome = true ∧
        (∀ stream, (runner.outputs stream).closed = true) ∧ runner.settling = .settled := by
  simp [isCleanedUp, Stream.forall_iff, and_assoc]

theorem Later.isCleanedUp (later : Later runner next) (settling : next.settling = runner.settling)
    (clean : runner.isCleanedUp = true) : next.isCleanedUp = true := by
  rw [isCleanedUp_iff] at clean ⊢
  obtain ⟨launched, exited, closed, settled⟩ := clean
  rw [later.launch launched, later.exit exited, settling]
  exact ⟨launched, exited, fun stream => (later.outputs stream).closed (closed stream), settled⟩

/-- The timers of a termination that began: the grace until its streams are
silent, and the wait until the cleanup is over. -/
structure Timed (runner : Runner) : Prop where
  grace : ∀ {begun until_}, runner.terminatedAt = some begun →
    after begun runner.timers.grace = some until_ → runner.graceUntil = some until_ ∨
        ∀ stream, (runner.outputs stream).Silent
  giveUp : ∀ {begun until_ last}, runner.terminatedAt = some begun →
    after begun runner.timers.grace = some until_ →
    after until_ runner.timers.settlement = some last →
      (∃ instant ≤ last, runner.giveUpAt = some instant) ∨
        runner.gaveUp = true ∨ runner.isCleanedUp = true

namespace Timed

variable {runner next : Runner}

theorem of_later (timed : runner.Timed) (later : runner.Later next)
    (terminatedAt : next.terminatedAt = runner.terminatedAt)
    (graceUntil : next.graceUntil = runner.graceUntil) (giveUpAt : next.giveUpAt = runner.giveUpAt)
    (cleanedUp : runner.isCleanedUp = true → next.isCleanedUp = true) :
    next.Timed where
  grace := by
    intro begun until_ terminated grace
    rw [terminatedAt] at terminated
    rw [later.timers] at grace
    rw [graceUntil]
    exact (timed.grace terminated grace).imp id
      fun silent stream => (later.outputs stream).silent (silent stream)
  giveUp := by
    intro begun until_ last terminated grace settlement
    rw [terminatedAt] at terminated
    rw [later.timers] at grace settlement
    rw [giveUpAt]
    exact (timed.giveUp terminated grace settlement).imp id (Or.imp later.gaveUp cleanedUp)

theorem new (key : Key) (limits : Limits) (timers : Timers) (now : Instant) :
    (Runner.new key limits timers now).Timed := by
  constructor <;> simp [Runner.new]

theorem change (change : Change runner next) (timed : runner.Timed) :
    next.Timed := by
  have later := Later.change change
  cases change with
  | terminate now cause first unfinished closed =>
    refine ⟨?_, ?_⟩
    · intro begun until_ terminated grace
      obtain rfl : now = begun := Option.some.inj terminated
      exact .inl grace
    · intro begun until_ last terminated grace settlement
      obtain rfl : now = begun := Option.some.inj terminated
      change after now runner.timers.grace = some until_ at grace
      change after until_ runner.timers.settlement = some last at settlement
      left
      refine ⟨last, Nat.le_refl _, ?_⟩
      simp only [beginTermination, grace, Option.bind_some, settlement]
  | endGrace ending unfinished =>
    refine ⟨fun _ _ => .inr fun stream => Output.endGrace_silent _, ?_⟩
    intro begun until_ last terminated grace settlement
    exact (timed.giveUp terminated grace settlement).imp id (Or.imp id (later.isCleanedUp rfl))
  | fence awaited =>
    refine timed.of_later later rfl rfl rfl fun clean => ?_
    simp [(isCleanedUp_iff.mp clean).2.2.2] at awaited
  | keepWaiting clean =>
    exact ⟨timed.grace, fun _ _ _ => .inr (.inr clean)⟩
  | giveUp waiting unfinished unclean =>
    refine ⟨fun _ _ => .inr fun stream => ?_, fun _ _ _ => .inr (.inl rfl)⟩
    simp only [Runner.giveUp, Output.giveUp_eq]
    exact ⟨rfl, .inl rfl⟩
  | abandonLaunch awaited waiting unfinished =>
    refine timed.of_later later rfl rfl rfl fun clean => ?_
    have launched := (isCleanedUp_iff.mp clean).1
    simp [launch_eq_none_of_awaitsLaunch awaited] at launched
  | abandonOpenStreams fenced waiting unfinished =>
    refine timed.of_later later rfl rfl rfl fun clean => ?_
    simp [(isCleanedUp_iff.mp clean).2.2.2] at fenced
  | leavePeer now ending unfinished silent =>
    refine ⟨timed.grace, ?_⟩
    intro begun until_ last terminated grace settlement
    refine (timed.giveUp terminated grace settlement).imp ?_ id
    rintro ⟨instant, bound, waiting⟩
    simp only [Runner.leavePeer, waiting]
    cases after now runner.timers.settlement with
    | none => exact ⟨instant, bound, rfl⟩
    | some sooner =>
      exact ⟨min instant sooner, Nat.le_trans (Nat.min_le_left _ _) bound,
        rfl⟩
  | _ => exact timed.of_later later rfl rfl rfl id

theorem report (report : Report runner call next)
    (life : runner.Lifecycle) (timed : runner.Timed) : next.Timed := by
  have later := Later.report report life
  have unlaunched (awaited : runner.awaitsLaunch = true) {holds : Prop}
      (clean : runner.isCleanedUp = true) : holds := by
    have launched := (isCleanedUp_iff.mp clean).1
    simp [launch_eq_none_of_awaitsLaunch awaited] at launched
  cases report with
  | launched awaited | launchFailed awaited failure =>
    exact timed.of_later later rfl rfl rfl (unlaunched awaited)
  | exit now status first ongoing closed =>
    refine timed.of_later later rfl rfl rfl fun clean => ?_
    have exited := (isCleanedUp_iff.mp clean).2.1
    simp [first] at exited
  | settle awaited =>
    refine timed.of_later later rfl rfl rfl fun clean => ?_
    simp [(isCleanedUp_iff.mp clean).2.2.2] at awaited
  | setOutput stream call output change =>
    exact timed.of_later later rfl rfl rfl (later.isCleanedUp rfl)

theorem output (timed : runner.Timed) (stream : Stream) (bytes : List UInt8) :
    (runner.output stream bytes).1.Timed := by
  have later := Later.output runner stream bytes
  obtain ⟨_, _, _, _, same⟩ := output_frame runner stream bytes
  rw [same] at later ⊢
  exact timed.of_later later rfl rfl rfl (later.isCleanedUp rfl)

theorem requests (requests : Requests runner next request) (timed : runner.Timed) :
    next.Timed := by
  have later := Later.requests requests
  cases requests <;>
    exact timed.of_later later rfl rfl rfl (later.isCleanedUp rfl)

theorem emits (emits : Emits runner capacity next message) (timed : runner.Timed) :
    next.Timed := by
  have later := Later.emits emits
  cases emits <;>
    exact timed.of_later later rfl rfl rfl (later.isCleanedUp rfl)

theorem kept : KeptUnder Consistent Timed where
  change := fun change _ timed => timed.change change
  report := fun report _ consistent timed =>
    timed.report report consistent.life
  output := fun stream bytes _ _ timed => timed.output stream bytes
  popInput := fun _ _ _ _ timed => ⟨timed.grace, timed.giveUp⟩
  requests := fun requests _ timed => timed.requests requests
  grant := fun _ _ _ timed => ⟨timed.grace, timed.giveUp⟩
  charge := fun _ _ _ _ _ timed => by
    split <;> exact ⟨timed.grace, timed.giveUp⟩
  peerEnds := fun _ _ _ timed => ⟨timed.grace, timed.giveUp⟩
  emits := fun emits _ timed => timed.emits emits

end Timed

/-- Nothing is left to wait for, but messages to send before the outcome. -/
structure Ready (runner : Runner) : Prop where
  unfinished : runner.finished = false
  launched : runner.awaitsLaunch = false
  exited : runner.exit.isSome = true
  closed : ∀ stream, (runner.outputs stream).closed = true ∧ (runner.outputs stream).queue = []
  settled : runner.isSettled = true

theorem Consistent.evolves (consistent : runner.Consistent) (timed : runner.Timed)
    (chain : Evolves runner next) :
    next.Consistent ∧ next.Timed ∧ runner.Later next := by
  have kept := KeptUnder.and (KeptUnder.and Consistent.kept Timed.kept)
    ((Later.kept runner).mono fun held => held.1)
  obtain ⟨⟨nextConsistent, nextTimed⟩, later⟩ := kept.toLocallyKept.evolves
    chain ⟨⟨consistent, timed⟩, .refl runner⟩
  exact ⟨nextConsistent, nextTimed, later⟩

theorem tickTimeout_of_terminated (life : Lifecycle runner)
    (terminated : runner.terminatedAt.isSome = true) (now : Instant) :
    runner.tickTimeout now = runner := by
  unfold tickTimeout
  split
  · rename_i isReached
    obtain ⟨instant, waiting, _⟩ := reached_iff.mp isReached
    have running := life.timeout (by simp [waiting])
    simp [running] at terminated
  · rfl

theorem tickGrace_silent (timed : Timed runner)
    {begun until_ now : Instant} (terminated : runner.terminatedAt = some begun)
    (grace : after begun runner.timers.grace = some until_)
    (past : until_ ≤ now) (stream : Stream) :
    ((runner.tickGrace now).outputs stream).Silent := by
  unfold tickGrace
  rcases timed.grace terminated grace with pending | silent
  · rw [pending, reached_some, if_pos (by simpa using past)]
    exact Output.endGrace_silent _
  · split
    · exact Output.endGrace_silent _
    · exact silent stream

theorem tickGiveUp_over (timed : Timed runner) {begun until_ last now : Instant}
    (terminated : runner.terminatedAt = some begun)
    (grace : after begun runner.timers.grace = some until_)
    (settlement : after until_ runner.timers.settlement = some last) (past : last ≤ now) :
    (runner.tickGiveUp now).gaveUp = true ∨ (runner.tickGiveUp now).isCleanedUp = true := by
  unfold tickGiveUp
  split
  · split
    · rename_i clean
      exact .inr clean
    · exact .inl rfl
  · rename_i waits
    rcases timed.giveUp terminated grace settlement with
      ⟨instant, bound, pending⟩ | isOver
    · rw [pending, reached_some, decide_eq_true_eq] at waits
      exact absurd (Nat.le_trans bound past) waits
    · exact isOver

theorem tickAbandon_over (consistent : Consistent runner)
    (timed : runner.Timed) (unfinished : runner.finished = false)
    (isOver : runner.gaveUp = true ∨ runner.isCleanedUp = true) (now : Instant) :
    (runner.tickAbandon now).gaveUp = true ∨ (runner.tickAbandon now).isCleanedUp = true := by
  rcases isOver with gaveUp | clean
  · obtain ⟨_, _, later⟩ := consistent.evolves timed (tickAbandon_evolves now unfinished)
    exact .inl (later.gaveUp gaveUp)
  · right
    obtain ⟨launched, _, _, settled⟩ := isCleanedUp_iff.mp clean
    have known : runner.awaitsLaunch = false := by
      simp [awaitsLaunch, Option.isSome_iff_ne_none.mp launched]
    have same : runner.tickAbandon now = runner := by
      unfold tickAbandon
      simp [known, settled]
    rwa [same]

theorem ready_of_over (consistent : Consistent runner)
    (unfinished : runner.finished = false) (silent : ∀ stream, (runner.outputs stream).Silent)
    (isOver : runner.gaveUp = true ∨ runner.isCleanedUp = true) :
    runner.Ready := by
  rcases isOver with gaveUp | clean
  · obtain ⟨exited, fenced, _⟩ := consistent.life.gaveUp gaveUp
    exact {
      unfinished := unfinished
      launched := by simp [awaitsLaunch, gaveUp]
      exited := exited
      closed := fun stream => (consistent.outputs stream).gaveUp gaveUp
      settled := by simp [isSettled, fenced] }
  · obtain ⟨launched, exited, closed, settled⟩ := isCleanedUp_iff.mp clean
    exact {
      unfinished := unfinished
      launched := by
        simp [awaitsLaunch, Option.isSome_iff_ne_none.mp launched]
      exited := exited
      closed := fun stream => ⟨closed stream, (silent stream).1⟩
      settled := by simp [isSettled, settled] }

theorem tick_ready (consistent : Consistent runner)
    (timed : runner.Timed) (unfinished : runner.finished = false) {begun until_ last now : Instant}
    (terminated : runner.terminatedAt = some begun)
    (grace : after begun runner.timers.grace = some until_)
    (settlement : after until_ runner.timers.settlement = some last)
    (past : last ≤ now) : (runner.tick now).Ready := by
  have isSome : runner.terminatedAt.isSome = true := by simp [terminated]
  unfold tick
  rw [if_neg (by simp [unfinished])]
  simp only [tickTimeout_of_terminated consistent.life isSome]
  -- The phases of the tick, each with the invariants at its start.
  have graceSilent := tickGrace_silent timed terminated grace
    (Nat.le_trans (le_of_after settlement) past)
  have graceUnfinished : (runner.tickGrace now).finished = false := by
    simpa using unfinished
  obtain ⟨graceConsistent, graceTimed, graceLater⟩ := consistent.evolves timed
    (tickGrace_evolves now unfinished)
  have settledUnfinished : ((runner.tickGrace now).tickSettlement now).finished = false := by
    simpa using unfinished
  obtain ⟨settledConsistent, settledTimed, settledLater⟩ :=
    graceConsistent.evolves graceTimed (tickSettlement_evolves _ now)
  have untilSettled := graceLater.trans settledLater
  have isOver := tickGiveUp_over settledTimed ((untilSettled.terminatedAt isSome).trans terminated)
    (by rw [untilSettled.timers]; exact grace)
    (by rw [untilSettled.timers]; exact settlement) past
  obtain ⟨overConsistent, overTimed, overLater⟩ :=
    settledConsistent.evolves settledTimed (tickGiveUp_evolves now settledUnfinished)
  have overUnfinished : (((runner.tickGrace now).tickSettlement
      now).tickGiveUp now).finished = false := by
    simpa using unfinished
  obtain ⟨lastConsistent, _, lastLater⟩ := overConsistent.evolves overTimed
    (tickAbandon_evolves now overUnfinished)
  refine ready_of_over lastConsistent ?_ (fun stream => ?_)
    (tickAbandon_over overConsistent overTimed overUnfinished isOver now)
  · simpa using unfinished
  · exact ((settledLater.trans (overLater.trans lastLater)).outputs
      stream).silent (graceSilent stream)

def pending (runner : Runner) : Nat :=
  runner.startedMessage.toNat + runner.input.closedMessage.toNat +
    ((!(runner.outputs .stdout).ended).toNat + (!(runner.outputs .stderr).ended).toNat)

theorem pending_le (runner : Runner) : runner.pending ≤ 4 := by
  have one (flag : Bool) : flag.toNat ≤ 1 := Bool.toNat_le flag
  have started := one runner.startedMessage
  have closed := one runner.input.closedMessage
  have stdout := one (!(runner.outputs .stdout).ended)
  have stderr := one (!(runner.outputs .stderr).ended)
  unfold pending
  omega

namespace Ready

variable {runner next : Runner}

theorem concluded (ready : runner.Ready) (told : ∀ stream, (runner.outputs stream).ended = true ∨
      runner.detached = true) : runner.Concluded where
  launched := ready.launched
  exited := ready.exited
  delivered := fun stream =>
    delivered_iff.mpr ⟨ready.closed stream, told stream⟩
  settled := ready.settled

theorem outcome_isSome (ready : runner.Ready)
    (quiet : runner.detached = false → runner.Quiet capacity) :
    runner.outcome ≠ none := by
  have told (stream : Stream) : (runner.outputs stream).ended = true ∨ runner.detached = true := by
    cases detached : runner.detached with
    | true => exact .inr rfl
    | false =>
      have ends := (quiet detached).ends ready.launched stream
      obtain ⟨closed, empty⟩ := ready.closed stream
      simpa [endsNow, Output.isDone, closed, empty] using ends
  rw [(ready.concluded told).outcome_eq]
  simp

theorem emits (ready : runner.Ready) (consistent : runner.Consistent)
    (emits : Emits runner capacity next message) :
    (∃ outcome, message = some (.terminal outcome)) ∨
      next.Ready ∧ next.pending < runner.pending := by
  cases emits with
  | credit speaks accepts positive =>
    have closed := consistent.life.exitCloses ready.exited
    simp [inputAccepts, closed] at accepts
  | started speaks waiting | inputClosed speaks waiting =>
    refine .inr ⟨{ ready with }, ?_⟩
    simp only [pending, waiting, Bool.toNat_true, Bool.toNat_false]
    omega
  | streamEnd stream speaks started launched ending =>
    refine .inr ⟨{ ready with closed := fun other => ?_ }, ?_⟩
    · refine forall_update (fun output : Output => output.closed = true ∧ output.queue = [])
        ready.closed ?_ other
      exact ready.closed stream
    · simp only [endsNow, Bool.and_eq_true, Bool.not_eq_true'] at ending
      cases stream <;> simp [pending, Function.update, ending.2]
  | output stream length speaks started launched positive queued =>
    rw [(ready.closed stream).2, List.length_nil] at queued
    omega
  | terminal outcome unfinished ended quiet => exact .inl ⟨outcome, rfl⟩
  | nothing quiet =>
    obtain ⟨none, isQuiet⟩ := quiet ready.unfinished
    exact absurd none (ready.outcome_isSome isQuiet)

theorem terminal_mem (ready : runner.Ready) (consistent : runner.Consistent)
    {capacities : List Nat} (enough : runner.pending < capacities.length) :
    ∃ outcome, .terminal outcome ∈
      messages (machine.trace runner (capacities.map .nextMessage)) := by
  have done := machine.exists_done_of_rank (fun runner => runner.Consistent ∧ runner.Ready)
    (fun call => ∃ capacity, call = .nextMessage capacity)
    (fun event => ∃ outcome, sent event = some (.terminal outcome)) pending ?_
    (capacities.map .nextMessage) ⟨consistent, ready⟩ (by simp)
    (by simpa using enough)
  · obtain ⟨event, member, outcome, returned⟩ := done
    exact ⟨outcome, List.mem_filterMap.mpr ⟨event, member, returned⟩⟩
  · rintro runner call ⟨capacity, rfl⟩ ⟨consistent, ready⟩
    rcases ready.emits consistent (consistent.emits capacity) with
      ended | ⟨next, lower⟩
    · exact .inl ended
    · exact .inr ⟨⟨consistent.step _, next⟩, lower⟩

end Ready

end Nvx.Exec.Runner
