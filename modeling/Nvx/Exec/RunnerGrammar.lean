import Nvx.Exec.RunnerHistory

namespace Nvx.Exec.Runner

open Nvx.Data

/-! The order and number of a runner's messages and requests. -/

def Message.isTerminal : Message → Bool
  | .terminal _ => true
  | _ => false

def Request.isTerminate : Request → Bool
  | .terminate _ => true
  | _ => false

structure Grammar (messages : List Message) (requests : List Request) : Prop where
  started : messages.count .started ≤ 1
  startedFirst : messages.Pairwise fun earlier later =>
    (∃ stream, earlier = .streamEnd stream ∨
      ∃ bytes, earlier = .output stream bytes) → later ≠ .started
  streamEnd : ∀ stream, messages.count (.streamEnd stream) ≤ 1
  outputFirst : ∀ stream, messages.Pairwise fun earlier later =>
    earlier = .streamEnd stream → ∀ bytes, later ≠ .output stream bytes
  inputClosed : messages.count .inputClosed ≤ 1
  creditFirst : messages.Pairwise fun earlier later =>
    earlier = .inputClosed → ∀ units, later ≠ .credit units
  terminal : messages.countP Message.isTerminal ≤ 1
  terminalLast : messages.Pairwise fun earlier _ =>
    earlier.isTerminal = false
  terminate : requests.countP Request.isTerminate ≤ 1
  discard : ∀ stream, requests.count (.discard stream) ≤ 1
  closeInput : requests.count .closeInput ≤ 1
  settle : requests.count .settle ≤ 1

section Rules

variable {start : Runner} {holds : Runner → Prop}

theorem stable_of_later (kept : ∀ {runner next : Runner}, runner.Later next → holds runner →
      holds next) : machine.Stable Consistent holds :=
  fun _ call consistent held => kept (consistent.later call) held

/-- A message that is only returned by a runner that has not `spent` it, and
spends it, is returned at most once. -/
theorem countP_messages_le_one (consistent : start.Consistent)
    (spent : Runner → Prop) (counted : Message → Bool)
    (kept : ∀ {runner next : Runner}, runner.Later next → spent runner → spent next)
    (spends : ∀ {runner next : Runner} {capacity message},
      runner.Consistent → Emits runner capacity next (some message) →
        counted message = true → ¬ spent runner ∧ spent next)
    (calls : List Call) :
    (messages (machine.trace start calls)).countP counted ≤ 1 := by
  rw [messages, List.countP_filterMap]
  refine (stable_of_later kept).countP_le_one (fun calls => consistent.after calls) _ ?_ calls
  intro runner call consistent occurs
  cases returned : sent (call, (runner.step call).2) with
  | none => exact absurd occurs (by simp [machine, returned])
  | some message =>
    obtain ⟨capacity, emits⟩ := emits_of_sent consistent returned
    refine spends consistent emits ?_
    simpa [machine, returned] using occurs

theorem countP_requests_le_one (consistent : start.Consistent)
    (spent : Runner → Prop) (counted : Request → Bool)
    (kept : ∀ {runner next : Runner}, runner.Later next → spent runner → spent next)
    (spends : ∀ {runner next : Runner} {request},
      runner.Consistent → Requests runner next (some request) →
        counted request = true → ¬ spent runner ∧ spent next)
    (calls : List Call) :
    (requests (machine.trace start calls)).countP counted ≤ 1 := by
  rw [requests, List.countP_filterMap]
  refine (stable_of_later kept).countP_le_one (fun calls => consistent.after calls) _ ?_ calls
  intro runner call consistent occurs
  cases returned : asked (call, (runner.step call).2) with
  | none => exact absurd occurs (by simp [machine, returned])
  | some request =>
    refine spends consistent (requests_of_asked returned) ?_
    simpa [machine, returned] using occurs

/-- A message that makes `closed` true for good is never followed by one that
`closed` bars. -/
theorem pairwise_messages (consistent : start.Consistent)
    (closed : Runner → Prop) (closing barred : Message → Prop)
    (kept : ∀ {runner next : Runner}, runner.Later next → closed runner → closed next)
    (closes : ∀ {runner next : Runner} {capacity message},
      runner.Consistent → Emits runner capacity next (some message) → closing message → closed next)
    (bars : ∀ {runner next : Runner} {capacity message}, runner.Consistent → closed runner →
        Emits runner capacity next (some message) → ¬ barred message)
    (calls : List Call) :
    (messages (machine.trace start calls)).Pairwise
      fun earlier later => closing earlier → ¬ barred later := by
  have ordered := (stable_of_later kept).pairwise_not_after (fun calls => consistent.after calls)
    (fun event => ∃ message, sent event = some message ∧ closing message)
    (fun event => ∃ message, sent event = some message ∧ barred message)
    (fun runner call consistent ⟨message, returned, closesIt⟩ => by
      obtain ⟨capacity, emits⟩ := emits_of_sent consistent returned
      exact closes consistent emits closesIt)
    (fun runner call consistent isClosed ⟨message, returned, isBarred⟩ => by
      obtain ⟨capacity, emits⟩ := emits_of_sent consistent returned
      exact bars consistent isClosed emits isBarred) calls
  rw [messages, List.pairwise_filterMap]
  refine ordered.imp ?_
  intro earlier later order message sentEarlier next sentLater isClosing isBarred
  exact order ⟨message, sentEarlier, isClosing⟩ ⟨next, sentLater, isBarred⟩

end Rules

def CloseTold (runner : Runner) : Prop :=
  runner.input.closed = true ∧ runner.input.closedMessage = false ∧
    runner.input.closeRequested = false

namespace Later

variable {runner next : Runner}

theorem startedSpent (later : runner.Later next)
    (spent : runner.launch.isSome = true ∧ runner.startedMessage = false) :
    next.launch.isSome = true ∧ next.startedMessage = false := by
  refine ⟨(later.launch spent.1).symm ▸ spent.1, ?_⟩
  by_contra starts
  rcases later.startedMessage (by simpa using starts) with before | awaits
  · simp [spent.2] at before
  · have none := launch_eq_none_of_awaitsLaunch awaits
    simp [none] at spent

theorem launchOver (later : runner.Later next)
    (isOver : runner.awaitsLaunch = false ∧ runner.startedMessage = false) :
    next.awaitsLaunch = false ∧ next.startedMessage = false := by
  constructor
  · by_contra awaits
    simp [later.awaitsLaunch (by simpa using awaits)] at isOver
  · by_contra starts
    rcases later.startedMessage (by simpa using starts) with before | awaits
    · simp [before] at isOver
    · simp [awaits] at isOver

theorem closeTold (later : runner.Later next) (told : runner.CloseTold) :
    next.CloseTold := by
  obtain ⟨closed, untold, unrequested⟩ := told
  refine ⟨later.inputClosed closed, ?_, ?_⟩
  · by_contra tells
    rcases later.closedMessage (by simpa using tells) with before | stillOpen
    · simp [untold] at before
    · simp [closed] at stillOpen
  · by_contra requested
    rcases later.closeRequested (by simpa using requested) with
      before | stillOpen
    · simp [unrequested] at before
    · simp [closed] at stillOpen

theorem terminateSpent (later : runner.Later next) (spent : runner.terminatedAt.isSome = true ∧
      runner.terminateRequest = none) :
    next.terminatedAt.isSome = true ∧ next.terminateRequest = none := by
  refine ⟨(later.terminatedAt spent.1).symm ▸ spent.1, ?_⟩
  by_contra requested
  rcases later.terminateRequest (Option.isSome_iff_ne_none.mpr requested) with
    before | running
  · simp [spent.2] at before
  · simp [running] at spent

theorem discardSpent (later : runner.Later next)
    (spent : (runner.outputs stream).discarding = true ∧
      (runner.outputs stream).discardRequested = false) :
    (next.outputs stream).discarding = true ∧ (next.outputs stream).discardRequested = false := by
  have output := later.outputs stream
  refine ⟨output.discarding spent.1, ?_⟩
  by_contra requested
  rcases output.discardRequested (by simpa using requested) with before | kept
  · simp [spent.2] at before
  · simp [kept] at spent

theorem settleSpent (later : runner.Later next)
    (spent : runner.exit.isSome = true ∧ runner.settleRequest = false) :
    next.exit.isSome = true ∧ next.settleRequest = false := by
  refine ⟨(later.exit spent.1).symm ▸ spent.1, ?_⟩
  by_contra requested
  rcases later.settleRequest (by simpa using requested) with before | running
  · simp [spent.2] at before
  · simp [running] at spent

end Later

theorem Emits.tellsClose (consistent : runner.Consistent)
    (emits : Emits runner capacity next (some .inputClosed)) :
    ¬ runner.CloseTold ∧ next.CloseTold := by
  cases emits with
  | inputClosed speaks waiting =>
    refine ⟨by simp [CloseTold, waiting],
      (consistent.input.closedMessage waiting).1, rfl, ?_⟩
    by_contra requested
    exact consistent.input.exclusive ⟨waiting, by simpa using requested⟩

theorem Requests.tellsClose (consistent : runner.Consistent)
    (requests : Requests runner next (some .closeInput)) :
    ¬ runner.CloseTold ∧ next.CloseTold := by
  cases requests with
  | closeInput waiting =>
    refine ⟨by simp [CloseTold, waiting],
      consistent.input.closeRequested waiting, ?_, rfl⟩
    by_contra tells
    exact consistent.input.exclusive ⟨Bool.eq_true_of_not_eq_false tells, waiting⟩

theorem Emits.concluded {outcome : Outcome}
    (emits : Emits runner capacity next (some (.terminal outcome))) :
    runner.Concluded := by
  cases emits with
  | terminal _ unfinished ended => exact (outcome_eq_some_iff.mp ended).1

/-- A settlement is requested of a runner that exited and has not given up. -/
theorem Consistent.exited_of_settle (consistent : runner.Consistent)
    (requested : Requests runner next (some .settle)) :
    runner.exit.isSome = true ∧ runner.gaveUp = false := by
  cases requested with
  | settle waiting =>
    refine ⟨consistent.life.settleRequest waiting, ?_⟩
    by_contra gaveUp
    have none := consistent.life.gaveUpRequest (by simpa using gaveUp)
    simp [waiting] at none

theorem started_once (consistent : start.Consistent) (calls : List Call) :
    (messages (machine.trace start calls)).count .started ≤ 1 := by
  refine countP_messages_le_one consistent (fun runner =>
    runner.launch.isSome = true ∧ runner.startedMessage = false) _
    Later.startedSpent ?_ calls
  intro runner next capacity message consistent emits counted
  rw [beq_iff_eq] at counted
  subst counted
  cases emits with
  | started speaks waiting =>
    exact ⟨by simp [waiting], (consistent.life.started waiting).1, rfl⟩

theorem started_first (consistent : start.Consistent) (calls : List Call) :
    (messages (machine.trace start calls)).Pairwise fun earlier later =>
      (∃ stream, earlier = .streamEnd stream ∨
        ∃ bytes, earlier = .output stream bytes) → later ≠ .started := by
  refine pairwise_messages consistent (fun runner =>
    runner.awaitsLaunch = false ∧ runner.startedMessage = false) _
    (fun message => message = .started) Later.launchOver ?_ ?_ calls
  · intro runner next capacity message consistent emits closing
    obtain ⟨stream, rfl | ⟨bytes, rfl⟩⟩ := closing
    · cases emits with
      | streamEnd _ speaks started launched ending => exact ⟨launched, started⟩
    · cases emits with
      | output _ length speaks started launched => exact ⟨launched, started⟩
  · intro runner next capacity message consistent isOver emits same
    subst same
    cases emits with
    | started speaks waiting => simp [waiting] at isOver

theorem streamEnd_once (consistent : start.Consistent) (stream : Stream) (calls : List Call) :
    (messages (machine.trace start calls)).count (.streamEnd stream) ≤ 1 := by
  refine countP_messages_le_one consistent (fun runner => (runner.outputs stream).ended = true) _
    (fun later => (later.outputs stream).ended) ?_ calls
  intro runner next capacity message consistent emits counted
  rw [beq_iff_eq] at counted
  subst counted
  cases emits with
  | streamEnd _ speaks started launched ending =>
    simp only [endsNow, Bool.and_eq_true, Bool.not_eq_true'] at ending
    exact ⟨by simp [ending.2], by simp⟩

theorem output_first (consistent : start.Consistent) (stream : Stream) (calls : List Call) :
    (messages (machine.trace start calls)).Pairwise fun earlier later =>
      earlier = .streamEnd stream → ∀ bytes, later ≠ .output stream bytes := by
  have ordered := pairwise_messages consistent (fun runner => (runner.outputs stream).ended = true)
    (fun message => message = .streamEnd stream)
    (fun message => ∃ bytes, message = .output stream bytes)
    (fun later => (later.outputs stream).ended)
    (fun _ emits closing => by
      subst closing
      cases emits
      simp)
    (fun consistent ended emits barred => by
      obtain ⟨bytes, rfl⟩ := barred
      cases emits with
      | output _ length speaks started launched positive queued =>
        have empty := ((consistent.outputs stream).ended ended).2
        rw [empty] at queued
        exact absurd queued (by simp; omega)) calls
  refine ordered.imp ?_
  intro earlier later order closing bytes same
  exact order closing ⟨bytes, same⟩

theorem inputClosed_once (consistent : start.Consistent) (calls : List Call) :
    (messages (machine.trace start calls)).count .inputClosed ≤ 1 := by
  refine countP_messages_le_one consistent CloseTold _ Later.closeTold ?_ calls
  intro runner next capacity message consistent emits counted
  rw [beq_iff_eq] at counted
  subst counted
  exact emits.tellsClose consistent

theorem credit_first (consistent : start.Consistent) (calls : List Call) :
    (messages (machine.trace start calls)).Pairwise fun earlier later =>
      earlier = .inputClosed → ∀ units, later ≠ .credit units := by
  have ordered := pairwise_messages consistent (fun runner => runner.input.closed = true)
    (fun message => message = .inputClosed)
    (fun message => ∃ units, message = .credit units) Later.inputClosed
    (fun consistent emits closing => by
      subst closing
      cases emits with
      | inputClosed speaks waiting =>
        exact (consistent.input.closedMessage waiting).1)
    (fun consistent closed emits barred => by
      obtain ⟨units, rfl⟩ := barred
      cases emits with
      | credit speaks accepts positive =>
        simp [inputAccepts, closed] at accepts) calls
  refine ordered.imp ?_
  intro earlier later order closing units same
  exact order closing ⟨units, same⟩

theorem terminal_once (consistent : start.Consistent) (calls : List Call) :
    (messages (machine.trace start calls)).countP Message.isTerminal ≤ 1 := by
  refine countP_messages_le_one consistent
    (fun runner => runner.finished = true) _ Later.finished ?_ calls
  intro runner next capacity message consistent emits counted
  cases emits with
  | terminal outcome unfinished => exact ⟨by simp [unfinished], rfl⟩
  | _ => simp [Message.isTerminal] at counted

theorem Emits.unfinished (emits : Emits runner capacity next (some message)) :
    runner.finished = false := by
  cases emits with
  | terminal outcome unfinished => exact unfinished
  | credit speaks | started speaks | inputClosed speaks | streamEnd stream speaks
  | output stream length speaks =>
    exact speaks.unfinished

theorem Emits.isTerminal (emits : Emits runner capacity next (some message))
    (detached : runner.detached = true) : message.isTerminal = true := by
  have speechless {holds : Prop} (speaks : runner.Speaks) : holds := by
    have attached := speaks.attached
    simp [detached] at attached
  cases emits with
  | terminal outcome => rfl
  | credit speaks | started speaks | inputClosed speaks | streamEnd stream speaks
  | output stream length speaks =>
    exact speechless speaks

theorem terminal_last (consistent : start.Consistent) (calls : List Call) :
    (messages (machine.trace start calls)).Pairwise fun earlier _ =>
      earlier.isTerminal = false := by
  have ordered := pairwise_messages consistent (fun runner => runner.finished = true)
    (fun message => message.isTerminal = true) (fun _ => True) Later.finished
    (fun consistent emits closing => by
      cases emits with
      | terminal outcome unfinished => rfl
      | _ => simp [Message.isTerminal] at closing)
    (fun consistent finished emits _ => by
      simp [emits.unfinished] at finished) calls
  refine ordered.imp ?_
  intro earlier later order
  by_contra terminal
  exact order (by simpa using terminal) trivial

theorem terminate_once (consistent : start.Consistent) (calls : List Call) :
    (requests (machine.trace start calls)).countP Request.isTerminate ≤ 1 := by
  refine countP_requests_le_one consistent (fun runner =>
    runner.terminatedAt.isSome = true ∧ runner.terminateRequest = none) _
    Later.terminateSpent ?_ calls
  intro runner next request consistent requested counted
  cases requested with
  | terminate cause waiting =>
    exact ⟨by simp [waiting],
      consistent.life.terminateRequest (by simp [waiting]), rfl⟩
  | _ => simp [Request.isTerminate] at counted

theorem discard_once (consistent : start.Consistent) (stream : Stream) (calls : List Call) :
    (requests (machine.trace start calls)).count (.discard stream) ≤ 1 := by
  refine countP_requests_le_one consistent (fun runner =>
    (runner.outputs stream).discarding = true ∧ (runner.outputs stream).discardRequested = false) _
    Later.discardSpent ?_ calls
  intro runner next request consistent requested counted
  rw [beq_iff_eq] at counted
  subst counted
  cases requested with
  | discard _ waiting =>
    have discarding := (consistent.outputs stream).discardRequested waiting
    exact ⟨by simp [waiting], by simpa [setOutput] using discarding⟩

theorem closeInput_once (consistent : start.Consistent) (calls : List Call) :
    (requests (machine.trace start calls)).count .closeInput ≤ 1 := by
  refine countP_requests_le_one consistent CloseTold _ Later.closeTold ?_ calls
  intro runner next request consistent requested counted
  rw [beq_iff_eq] at counted
  subst counted
  exact requested.tellsClose consistent

theorem settle_once (consistent : start.Consistent) (calls : List Call) :
    (requests (machine.trace start calls)).count .settle ≤ 1 := by
  refine countP_requests_le_one consistent (fun runner =>
    runner.exit.isSome = true ∧ runner.settleRequest = false) _
    Later.settleSpent ?_ calls
  intro runner next request consistent requested counted
  rw [beq_iff_eq] at counted
  subst counted
  cases requested with
  | settle waiting =>
    exact ⟨by simp [waiting], consistent.life.settleRequest waiting, rfl⟩

theorem grammar_after (consistent : start.Consistent) (calls : List Call) :
    Grammar (messages (machine.trace start calls)) (requests (machine.trace start calls)) where
  started := started_once consistent calls
  startedFirst := started_first consistent calls
  streamEnd := fun stream => streamEnd_once consistent stream calls
  outputFirst := fun stream => output_first consistent stream calls
  inputClosed := inputClosed_once consistent calls
  creditFirst := credit_first consistent calls
  terminal := terminal_once consistent calls
  terminalLast := terminal_last consistent calls
  terminate := terminate_once consistent calls
  discard := fun stream => discard_once consistent stream calls
  closeInput := closeInput_once consistent calls
  settle := settle_once consistent calls

theorem terminal_of_detached (consistent : start.Consistent)
    (detached : start.detached = true) (calls : List Call)
    (returned : message ∈ messages (machine.trace start calls)) :
    message.isTerminal = true := by
  have terminal := run_invariant (fun trace runner =>
    runner.detached = true ∧ ∀ message ∈ messages trace, message.isTerminal = true) consistent
    ⟨detached, by simp [messages]⟩ ?_ calls
  · exact terminal.2 message returned
  · intro trace runner call consistent held
    obtain ⟨detached, terminal⟩ := held
    refine ⟨(consistent.later call).detached detached, ?_⟩
    intro message member
    rw [messages, List.filterMap_append, List.mem_append] at member
    rcases member with earlier | last
    · exact terminal message earlier
    · simp only [List.mem_filterMap, List.mem_singleton, exists_eq_left] at last
      obtain ⟨capacity, emits⟩ := emits_of_sent consistent last
      exact emits.isTerminal detached

/-- The runner's messages and requests follow the protocol's grammar.  A
terminal outcome comes after both ends, unless the runner is detached, and then
nothing but the outcome comes; a settlement is requested after an exit. -/
theorem run_follows_grammar (key : Key) (limits : Limits) (timers : Timers)
    (now : Instant) (calls : List Call) :
    let start := Runner.new key limits timers now
    let trace := machine.trace start calls
    let runner := machine.after start calls
    Grammar (messages trace) (requests trace) ∧
    (∀ capacity outcome, (runner.nextMessage capacity).2 = some (.terminal outcome) →
        runner.detached = true ∨ ∀ stream, .streamEnd stream ∈ messages trace) ∧
    (runner.detached = true → ∀ more, ∀ message ∈
      messages (machine.trace runner more), message.isTerminal = true) ∧
    (runner.nextRequest.2 = some .settle →
      ∃ instant status, .act (.exited instant status) ∈ calls) := by
  intro start trace runner
  have initial : start.Consistent := Consistent.new key limits timers now
  have consistent : runner.Consistent := initial.after calls
  refine ⟨grammar_after initial calls, ?_, ?_, ?_⟩
  · intro capacity outcome returned
    have emits := consistent.emits capacity
    rw [returned] at emits
    by_cases detached : runner.detached = true
    · exact .inl detached
    · right
      intro stream
      have delivered := delivered_iff.mp (emits.concluded.delivered stream)
      exact streamEnd_mem_messages key limits timers now calls stream
        (delivered.2.resolve_right detached)
  · intro detached more message member
    exact terminal_of_detached consistent detached more member
  · intro settles
    have requested := runner.nextRequest_requests
    rw [settles] at requested
    obtain ⟨exited, ongoing⟩ := consistent.exited_of_settle requested
    rcases exit_eq_firstExit key limits timers now calls with gaveUp | same
    · exact (Bool.eq_false_iff.mp ongoing gaveUp).elim
    · have reported : ((firstExit trace).map Prod.snd).isSome = true :=
        same ▸ exited
      rw [Option.isSome_map] at reported
      obtain ⟨exit, first⟩ := Option.isSome_iff_exists.mp reported
      exact ⟨exit.1, exit.2, mem_of_firstExit first⟩

end Nvx.Exec.Runner
