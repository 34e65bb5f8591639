import Nvx.Exec.SystemCredit

namespace Nvx.Exec

open Nvx.Data

namespace System

/-! What holds of both sides and both channels in every run. -/

structure Sound (limits : Limits) (system : System) : Prop where
  paired : system.Paired limits
  sized : system.Sized limits
  ordered : system.Ordered
  funded : system.Funded limits

namespace Sound

theorem new (key : Key) (limits : Limits) (runnerTimers peerTimers : Timers)
    (runnerStart peerStart : Instant) :
    (System.new key limits runnerTimers peerTimers runnerStart peerStart).Sound limits where
  paired := .new key limits runnerTimers peerTimers runnerStart peerStart
  sized := ⟨by simp [System.new], by simp [System.new]⟩
  ordered := .new key limits runnerTimers peerTimers runnerStart peerStart
  funded := .new key limits runnerTimers peerTimers runnerStart peerStart

variable {system next : System}

theorem steps (sound : system.Sound limits)
    (steps : Steps system next event) : next.Sound limits where
  paired := sound.paired.steps steps
  sized := (Sized.kept limits).steps steps sound.paired sound.paired sound.sized
  ordered := (Ordered.kept limits).steps steps sound.paired sound.paired sound.ordered
  funded := (Funded.kept limits).steps steps sound.paired
    ⟨sound.paired, sound.sized, sound.ordered⟩ sound.funded

theorem after (sound : start.Sound limits)
    (calls : List Call) : (machine.after start calls).Sound limits :=
  machine.invariant (fun _ system => system.Sound limits) sound
    (fun _ call held => held.steps (step_steps _ call)) calls

theorem runner_receive_ok (sound : system.Sound limits) (now : Instant)
    (delivered : system.toRunner = message :: rest) :
    ∃ receipt, (system.runner.receive now system.peer.key message).2 = .ok receipt := by
  have arrives := sound.sized.toRunner message (by simp [delivered])
  rw [← sound.paired.key]
  cases finished : system.runner.finished with
  | true =>
    rw [← sound.paired.runnerLimits] at arrives
    exact ⟨.late, Runner.receive_late finished now arrives⟩
  | false =>
    have reads := sound.ordered.input (.inl finished)
    rw [delivered] at reads
    obtain ⟨ended, first, _⟩ := reads.exists_of_cons
    cases first with
    | cancel cause => exact Runner.cancel_ok now cause
    | credit pool units =>
      obtain ⟨positive, index, named⟩ := arrives
      have fits := sound.funded.grant_fits sound.paired delivered named
      rw [← sound.paired.runnerLimits] at named
      exact ⟨_, congrArg Prod.snd (Runner.credit_eq finished named positive fits)⟩
    | input unended bytes =>
      have fits := sound.funded.input_fits sound.paired delivered
      rw [← sound.paired.runnerLimits] at arrives
      simp only [Runner.receive, Runner.receiveInput_eq finished unended arrives fits]
      split
      · exact ⟨_, rfl⟩
      · exact ⟨_, rfl⟩
    | inputEnd unended =>
      simp only [Runner.receive, Runner.endInput_eq finished unended]
      split
      · exact ⟨_, rfl⟩
      · exact ⟨_, rfl⟩

theorem peer_receive_ok (sound : system.Sound limits) (now : Instant)
    (delivered : system.toPeer = message :: rest) :
    ∃ receipt, (system.peer.receive now system.runner.key message).2 = .ok receipt := by
  have arrives := sound.sized.toPeer message (by simp [delivered])
  rw [sound.paired.key]
  cases ignores : system.peer.ignoresRunner with
  | true => exact ⟨.late, Peer.receive_late ignores now message⟩
  | false =>
    obtain ⟨_, reads, _⟩ := sound.ordered.output (.inl ignores)
    rw [delivered] at reads
    obtain ⟨view, first, _⟩ := reads.exists_of_cons
    rw [← sound.paired.peerLimits] at arrives
    refine Peer.receive_ok ignores first arrives ?_ ?_ now
    · rintro units rfl
      exact sound.funded.credit_fits sound.paired delivered
    · rintro stream bytes rfl
      exact sound.funded.output_fits sound.paired delivered

end Sound

def violation : Event → Option Violation
  | (_, .runner (_, .received (.error violation))) => some violation
  | (_, .peer (_, .received (.error violation))) => some violation
  | _ => none

theorem Sound.violation_eq_none (sound : system.Sound limits)
    (steps : Steps system next event) : violation event = none := by
  cases steps with
  | runnerActs call | peerActs call => cases call <;> rfl
  | runnerSends capacity => rfl
  | peerSends capacity => rfl
  | runnerReceives now message rest delivered =>
    obtain ⟨receipt, taken⟩ := sound.runner_receive_ok now delivered
    rw [taken]
    rfl
  | peerReceives now message rest delivered =>
    obtain ⟨receipt, taken⟩ := sound.peer_receive_ok now delivered
    rw [taken]
    rfl
  | idle call => rfl

section Runs

variable (key : Key) (limits : Limits) (runnerTimers peerTimers : Timers)
  (runnerStart peerStart : Instant)

/-- Honest sides never reject each other's messages, in any interleaving. -/
theorem run_has_no_violation (calls : List Call) :
    (machine.trace (System.new key limits runnerTimers peerTimers runnerStart
      peerStart) calls).filterMap violation = [] := by
  have initial := Sound.new key limits runnerTimers peerTimers runnerStart peerStart
  refine machine.invariant (fun trace _ => trace.filterMap violation = []) rfl ?_ calls
  intro calls call none
  rw [List.filterMap_append, none, List.nil_append, List.filterMap_cons_none]
  · rfl
  · exact (initial.after calls).violation_eq_none (step_steps _ call)

end Runs

/-- The units of the output pool at `index`: the runner's credit, the grants and
the data on their way, what the sinks have not taken, and what is to be granted
again. -/
def outputUnits (limits : Limits) (system : System) (index : Fin 2) : Nat :=
  (system.runner.credits index).available +
    (system.toRunner.map (Peer.Message.grants limits index)).sum +
    (system.toPeer.map (Runner.Message.cost limits index)).sum +
    system.peer.heldIn index + (system.peer.windows index).returnable

def inputUnits (limits : Limits) (system : System) : Nat :=
  system.peer.input.credit.available + (system.toPeer.map Runner.Message.grants).sum +
    (system.toRunner.map (Peer.Message.cost limits)).sum +
    system.runner.input.inbox.held + system.runner.input.window.returnable

theorem Sound.outputUnits_eq {system : System}
    (sound : system.Sound limits) (live : system.Live) (index : Fin 2) :
    system.outputUnits limits index = limits.output.size.toNat := by
  have settled := (sound.funded.output index).settled live
  have accounted := sound.paired.peer.sound.accounted index
  rw [sound.paired.peerLimits] at accounted
  unfold outputUnits
  omega

theorem Sound.inputUnits_eq {system : System} (sound : system.Sound limits) (live : system.Live)
    (stillOpen : system.runner.input.closed = false) :
    system.inputUnits limits = limits.input.size.toNat := by
  have settled := sound.funded.input.settled live
  have accounted := sound.paired.runner.sound.accounted stillOpen
  rw [sound.paired.runnerLimits] at accounted
  unfold inputUnits
  omega

end System

namespace Runner

theorem quiet_of_none (consistent : Consistent runner)
    (unfinished : runner.finished = false) (attached : runner.detached = false)
    (silent : (runner.nextMessage capacity).2 = none) :
    runner.Quiet capacity := by
  have emits := consistent.emits capacity
  rw [silent] at emits
  generalize (runner.nextMessage capacity).1 = next at emits
  cases emits with
  | nothing quiet => exact (quiet unfinished).2 attached

theorem Quiet.available_eq_zero (quiet : Quiet runner capacity) (nonempty : 0 < capacity)
    (launched : runner.awaitsLaunch = false) (queued : (runner.outputs stream).queue ≠ []) :
    (runner.credits (runner.limits.poolOf stream)).available = 0 := by
  by_contra credit
  have length := List.length_pos_of_ne_nil queued
  have chunk := runner.limits.zero_lt_chunk
  have sendable := Credit.sendable_pos (show 0 < min (min (runner.outputs stream).queue.length
      runner.limits.chunk) capacity by omega) (Nat.pos_of_ne_zero credit)
  have none := quiet.output launched stream
  omega

end Runner

namespace Peer

theorem quiet_of_none (consistent : Consistent peer) (speaks : peer.Speaks)
    (silent : (peer.nextMessage capacity).2 = none) : peer.Quiet capacity := by
  have emits := consistent.emits capacity
  rw [silent] at emits
  generalize (peer.nextMessage capacity).1 = next at emits
  cases emits with
  | nothing quiet => exact quiet speaks

/-- A peer is quiet only if nothing is left to grant for a stream that has not
ended. -/
theorem Quiet.returnable_eq_zero (quiet : Quiet peer capacity) (running : peer.terminal = none)
    (unended : (peer.outputs stream).ended = false) :
    (peer.windows (peer.limits.poolOf stream)).returnable = 0 := by
  have granted {index : Fin 2} {pool : Pool} (inPool : peer.limits.poolOf stream = index)
      (silent : peer.nextCredit index pool = (peer, none)) :
      (peer.windows index).returnable = 0 := by
    have stillOpen : peer.poolOpen index = true := by
      cases stream <;> simp [poolOpen, inPool, unended]
    have none := congrArg Prod.snd silent
    simpa [nextCredit, running, stillOpen, Granted.takeGrant] using none
  cases shared : peer.limits.shared with
  | true =>
    have first := quiet.sources 0 (by simp [Limits.outputPools, shared])
    simp only [nextFrom, Limits.outputPools, shared, if_true] at first
    have inPool : peer.limits.poolOf stream = 0 := by
      simp [Limits.poolOf, shared]
    rw [inPool]
    exact granted inPool first
  | false =>
    have first := quiet.sources 0 (by simp [Limits.outputPools, shared])
    have second := quiet.sources 1 (by simp [Limits.outputPools, shared])
    simp only [nextFrom, Limits.outputPools, shared, Bool.false_eq_true, if_false] at first second
    have inPool : peer.limits.poolOf stream = stream.index := by
      simp [Limits.poolOf, shared]
    rw [inPool]
    cases stream with
    | stdout => exact granted inPool first
    | stderr => exact granted inPool second

theorem Quiet.available_eq_zero (quiet : Quiet peer capacity) (nonempty : 0 < capacity)
    (stillOpen : peer.input.closed = false) (queued : peer.input.queue ≠ []) :
    peer.input.credit.available = 0 := by
  have last := quiet.sources peer.limits.outputPools.length (Nat.lt_succ_self _)
  have silent : peer.nextInput capacity = (peer, none) := by
    rw [← last]
    cases shared : peer.limits.shared <;>
      simp [nextFrom, Limits.outputPools, shared]
  by_contra credit
  have length := List.length_pos_of_ne_nil queued
  have chunk := peer.limits.zero_lt_chunk
  have sendable := Credit.sendable_pos
    (show 0 < min (min peer.input.queue.length peer.limits.chunk) capacity by
      omega) (Nat.pos_of_ne_zero credit)
  have none := congrArg Prod.snd silent
  simp only [nextInput, stillOpen, Bool.false_eq_true, if_false,
    if_pos sendable, reduceCtorEq] at none

end Peer

namespace System

structure Idle (system : System) : Prop where
  toPeer : system.toPeer = []
  toRunner : system.toRunner = []
  runnerUnfinished : system.runner.finished = false
  runnerAttached : system.runner.detached = false
  runnerOngoing : system.runner.gaveUp = false
  peerUnfinished : system.peer.finished = false
  peerAttached : system.peer.detached = false
  peerOngoing : system.peer.gaveUp = false
  running : system.peer.terminal = none

def Speaks (system : System) (runnerCapacity peerCapacity : Nat) : Prop :=
  (system.runner.nextMessage runnerCapacity).2.isSome = true ∨
    (system.peer.nextMessage peerCapacity).2.isSome = true

namespace Idle

variable {system : System}

theorem live (idle : system.Idle) : system.Live :=
  ⟨by simp [Peer.ignoresRunner, idle.peerUnfinished, idle.peerAttached,
      idle.peerOngoing],
    idle.runnerUnfinished⟩

theorem quiet_of_silent (idle : system.Idle) (sound : system.Sound limits)
    (silent : ¬ system.Speaks runnerCapacity peerCapacity) :
    system.runner.Quiet runnerCapacity ∧ system.peer.Quiet peerCapacity := by
  simp only [Speaks, not_or, Bool.not_eq_true, Option.isSome_eq_false_iff,
    Option.isNone_iff_eq_none] at silent
  exact ⟨Runner.quiet_of_none sound.paired.runner idle.runnerUnfinished
      idle.runnerAttached silent.1,
    Peer.quiet_of_none sound.paired.peer ⟨idle.peerUnfinished, idle.peerAttached⟩ silent.2⟩

theorem output_speaks (idle : system.Idle) (sound : system.Sound limits)
    (runnerBuffer : 0 < runnerCapacity) (queued : (system.runner.outputs stream).queue ≠ [])
    (launched : system.runner.awaitsLaunch = false)
    (taken : ∀ stream, (system.peer.outputs stream).inbox.bytes = []) :
    system.Speaks runnerCapacity peerCapacity := by
  by_contra silent
  obtain ⟨runnerQuiet, peerQuiet⟩ := idle.quiet_of_silent sound silent
  have noCredit :=
    runnerQuiet.available_eq_zero runnerBuffer launched queued
  have unended : (system.peer.outputs stream).ended = false := by
    obtain ⟨last, reads, seen⟩ := sound.ordered.output (.inl idle.live.1)
    rw [idle.toPeer] at reads
    have told := seen.ended stream
    rw [reads.eq_of_nil] at told
    change (system.peer.outputs stream).ended = _ at told
    rw [told]
    by_contra ended
    exact queued ((sound.paired.runner.outputs stream).ended (by simpa using ended)).2
  have noReturn := peerQuiet.returnable_eq_zero idle.running unended
  have empty (stream : Stream) : (system.peer.outputs stream).inbox.held = 0 :=
    (sound.paired.peer.sound.inbox stream).bytes_eq_nil_iff.mpr (taken stream)
  have units := sound.outputUnits_eq idle.live (limits.poolOf stream)
  rw [sound.paired.runnerLimits] at noCredit
  rw [sound.paired.peerLimits] at noReturn
  have positive := limits.output_pos
  simp [outputUnits, idle.toPeer, idle.toRunner, noCredit, noReturn, Peer.heldIn, empty] at units
  omega

theorem input_speaks (idle : system.Idle) (sound : system.Sound limits)
    (peerBuffer : 0 < peerCapacity) (queued : system.peer.input.queue ≠ [])
    (peerOpen : system.peer.input.closed = false) (runnerOpen : system.runner.input.closed = false)
    (taken : system.runner.input.inbox.bytes = []) :
    system.Speaks runnerCapacity peerCapacity := by
  by_contra silent
  obtain ⟨runnerQuiet, peerQuiet⟩ := idle.quiet_of_silent sound silent
  have noCredit := peerQuiet.available_eq_zero peerBuffer peerOpen queued
  have unended : system.runner.input.peerEnded = false := by
    have reads := sound.ordered.input (.inl idle.runnerUnfinished)
    rw [idle.toRunner] at reads
    rw [← reads.eq_of_nil]
    by_contra ended
    exact queued (sound.paired.peer.input.endSent (by simpa using ended)).2
  have noReturn := runnerQuiet.credit (by
    simp [Runner.inputAccepts, runnerOpen, unended])
  have empty : system.runner.input.inbox.held = 0 :=
    sound.paired.runner.sound.inbox.bytes_eq_nil_iff.mpr taken
  have units := sound.inputUnits_eq idle.live runnerOpen
  have positive := limits.input_pos
  simp [inputUnits, idle.toPeer, idle.toRunner, noCredit, noReturn, empty] at units
  omega

end Idle

section Runs

variable (key : Key) (limits : Limits) (runnerTimers peerTimers : Timers)
  (runnerStart peerStart : Instant)

/-- No unit of a pool is lost while both sides are live, of the input pool while
the runner's input is open; so a sender with something to send, and a receiver
that took all that it has, never wait for each other. -/
theorem credit_is_conserved (calls : List Call) :
    let system := machine.after (System.new key limits runnerTimers peerTimers
      runnerStart peerStart) calls
    (system.Live → (∀ index, system.outputUnits limits index = limits.output.size.toNat) ∧
      (system.runner.input.closed = false → system.inputUnits limits = limits.input.size.toNat)) ∧
    (system.Idle → ∀ runnerCapacity peerCapacity, 0 < runnerCapacity → 0 < peerCapacity →
      ((∃ stream, (system.runner.outputs stream).queue ≠ []) → system.runner.awaitsLaunch = false →
        (∀ stream, (system.peer.outputs stream).inbox.bytes = []) →
        system.Speaks runnerCapacity peerCapacity) ∧
      (system.peer.input.queue ≠ [] → system.peer.input.closed = false →
        system.runner.input.closed = false →
        system.runner.input.inbox.bytes = [] →
        system.Speaks runnerCapacity peerCapacity)) := by
  have sound := (Sound.new key limits runnerTimers peerTimers runnerStart peerStart).after calls
  refine ⟨fun live => ⟨fun index => sound.outputUnits_eq live index, sound.inputUnits_eq live⟩, ?_⟩
  intro idle runnerCapacity peerCapacity runnerBuffer peerBuffer
  refine ⟨?_, ?_⟩
  · rintro ⟨stream, queued⟩ launched taken
    exact idle.output_speaks sound runnerBuffer queued launched taken
  · intro queued peerOpen runnerOpen taken
    exact idle.input_speaks sound peerBuffer queued peerOpen runnerOpen taken

/-- A runner with a byte to send and no credit, and a peer that has granted
none. -/
theorem queued_output_speaks :
    (machine.after (System.new ⟨0, 0⟩ .smallest .immediate .immediate 0 0)
      [.runner (.launched (.ok ())), .runner (.output .stdout [0])]).Speaks 1 1 :=
  ((credit_is_conserved ⟨0, 0⟩ .smallest .immediate .immediate 0 0
    [.runner (.launched (.ok ())), .runner (.output .stdout [0])]).2
      ⟨rfl, rfl, rfl, rfl, rfl, rfl, rfl, rfl, rfl⟩ 1 1 (by decide)
      (by decide)).1 ⟨.stdout, by decide⟩ rfl (fun _ => rfl)

/-- A runner that closes its input early drops the units of what it holds. -/
theorem closing_loses_input_units :
    ¬ ∀ (key : Key) (limits : Limits) (runnerTimers peerTimers : Timers)
        (runnerStart peerStart : Instant) (calls : List Call),
      let system := machine.after (System.new key limits runnerTimers peerTimers
        runnerStart peerStart) calls
      system.Idle → system.inputUnits limits = limits.input.size.toNat := by
  intro conserved
  have lost := conserved ⟨0, 0⟩ .smallest .immediate .immediate 0 0
    [.runnerSends 0, .peerReceives 0, .peer (.input [0]), .peerSends 1,
      .peerSends 1, .peerSends 1, .runnerReceives 0, .runnerReceives 0,
      .runnerReceives 0, .runner .inputClosed]
    ⟨rfl, rfl, rfl, rfl, rfl, rfl, rfl, rfl, rfl⟩
  exact absurd lost (by decide)

/-- Credit is never forged: in no state, also once a side has finished or left,
are there more units of a pool than its window has. -/
theorem credit_is_never_forged (calls : List Call) :
    let system := machine.after (System.new key limits runnerTimers peerTimers
      runnerStart peerStart) calls
    (∀ index, system.outputUnits limits index ≤ limits.output.size.toNat) ∧
      system.inputUnits limits ≤ limits.input.size.toNat := by
  intro system
  have sound : system.Sound limits :=
    (Sound.new key limits runnerTimers peerTimers runnerStart peerStart).after calls
  constructor
  · intro index
    have covered := (sound.funded.output index).covered
    have accounted := sound.paired.peer.sound.accounted index
    rw [sound.paired.peerLimits] at accounted
    unfold outputUnits
    omega
  · have covered := sound.funded.input.covered
    have granted := sound.paired.runner.sound.granted.bounded
    rw [sound.paired.runner.sound.window_eq, sound.paired.runnerLimits] at granted
    unfold inputUnits
    omega

end Runs

end System

end Nvx.Exec
