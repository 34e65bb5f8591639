import Nvx.Data.Ledger
import Nvx.Exec.SystemOrder

namespace Nvx.Exec

open Nvx.Data

/-! The sizes and units of messages. -/

namespace Runner.Message

/-- Grants and data are never empty, and data fits into a chunk. -/
def Sized (limits : Limits) : Runner.Message → Prop
  | .credit units => 0 < units
  | .output _ bytes => 0 < bytes.length ∧ bytes.length ≤ limits.chunk
  | _ => True

def grants : Runner.Message → Nat
  | .credit units => units
  | _ => 0

/-- The units that a message takes of the output pool at `index`. -/
def cost (limits : Limits) (index : Fin 2) : Runner.Message → Nat
  | .output stream bytes =>
    if limits.poolOf stream = index then limits.output.cost bytes.length
    else 0
  | _ => 0

end Runner.Message

namespace Peer.Message

/-- Grants and data are never empty, grants name an output pool, and data fits
into a chunk. -/
def Sized (limits : Limits) : Peer.Message → Prop
  | .credit pool units =>
    0 < units ∧ ∃ index, limits.outputPool pool = .ok index
  | .input bytes => 0 < bytes.length ∧ bytes.length ≤ limits.chunk
  | _ => True

/-- The units that a message grants of the output pool at `index`. -/
def grants (limits : Limits) (index : Fin 2) : Peer.Message → Nat
  | .credit pool units =>
    match limits.outputPool pool with
    | .ok named => if named = index then units else 0
    | .error _ => 0
  | _ => 0

def cost (limits : Limits) : Peer.Message → Nat
  | .input bytes => limits.input.cost bytes.length
  | _ => 0

end Peer.Message

namespace Runner

variable {runner : Runner}

theorem receive_late (finished : runner.finished = true) (now : Instant)
    (sized : message.Sized runner.limits) :
    (runner.receive now runner.key message).2 = .ok .late := by
  cases message with
  | cancel cause =>
    simp [receive, cancel, tick, finished]
  | credit pool units =>
    obtain ⟨_, index, named⟩ := sized
    simp [receive, credit, named, finished]
  | input bytes => simp [receive, receiveInput, finished]
  | inputEnd => simp [receive, endInput, finished]

theorem credit_eq {units : Nat} (unfinished : runner.finished = false)
    (named : runner.limits.outputPool pool = .ok index) (positive : 0 < units)
    (fits : (runner.credits index).available + units ≤ (runner.credits index).window.size.toNat) :
    runner.credit runner.key pool units =
      ({ runner with
          credits := Function.update runner.credits index
            { runner.credits index with
              available := (runner.credits index).available + units } },
        .ok .applied) := by
  simp [credit, named, unfinished, Credit.grant_of_le positive fits]

theorem receiveInput_eq {bytes : List UInt8} (unfinished : runner.finished = false)
    (unended : runner.input.peerEnded = false)
    (sized : 0 < bytes.length ∧ bytes.length ≤ runner.limits.chunk)
    (fits : runner.input.window.window.cost bytes.length ≤ runner.input.window.opened) :
    let charged := runner.setInput { runner.input with
      window := { runner.input.window with
        opened := runner.input.window.opened -
          runner.input.window.window.cost bytes.length } }
    runner.receiveInput runner.key bytes =
      if runner.input.closed then (charged, .ok .late)
      else (charged.holdInput bytes, .ok .applied) := by
  simp only [receiveInput, Key.receive_self, unfinished, unended, Bool.false_eq_true, if_false,
    (runner.limits.checkChunk_ok_iff bytes.length).mpr sized,
    Granted.charge_of_le fits]
  rfl

theorem endInput_eq (unfinished : runner.finished = false)
    (unended : runner.input.peerEnded = false) :
    let ended := runner.setInput { runner.input with peerEnded := true }
    runner.endInput runner.key =
      if runner.input.closed then (ended, .ok .late)
      else (ended.closeInputWhenTaken, .ok .applied) := by
  simp only [endInput, Key.receive_self, unfinished, unended, Bool.false_eq_true, if_false]
  rfl

theorem cancel_ok (now : Instant) (cause : Cause) :
    ∃ receipt, (runner.cancel now runner.key cause).2 = .ok receipt := by
  simp only [cancel, Key.receive_self]
  split
  · exact ⟨_, rfl⟩
  · exact ⟨_, rfl⟩

end Runner

namespace Peer

variable {peer : Peer}

theorem receive_late (ignores : peer.ignoresRunner = true) (now : Instant)
    (message : Runner.Message) :
    (peer.receive now peer.key message).2 = .ok .late := by
  cases message with
  | credit units => simp [receive, receiveCredit, ignores]
  | started => simp [receive, receiveStarted, ignores]
  | output stream bytes => simp [receive, output, ignores]
  | streamEnd stream => simp [receive, endOutput, ignores]
  | inputClosed => simp [receive, inputClosed, ignores]
  | terminal outcome =>
    have ticked : (peer.tick now).ignoresRunner = true :=
      ((Later.kept peer).toLocallyKept.evolves (peer.tick_evolves now)
        (.refl peer)).ignoresRunner ignores
    simp [receive, receiveTerminal, ticked]

theorem receiveCredit_eq {units : Nat}
    (listening : peer.ignoresRunner = false) (positive : 0 < units)
    (fits : peer.input.credit.available + units ≤ peer.input.credit.window.size.toNat) :
    peer.receiveCredit peer.key units =
      (peer.setInput { peer.input with
          credit := { peer.input.credit with
            available := peer.input.credit.available + units } },
        .ok (if peer.input.closed || peer.input.endSent then .late else .applied)) := by
  simp only [receiveCredit, Key.receive_self, listening, Bool.false_eq_true,
    if_false, Credit.grant_of_le positive fits, setInput]
  split <;> simp_all

theorem output_eq {stream : Stream} {bytes : List UInt8} (listening : peer.ignoresRunner = false)
    (unended : (peer.outputs stream).ended = false)
    (sized : 0 < bytes.length ∧ bytes.length ≤ peer.limits.chunk)
    (fits : (peer.windows (peer.limits.poolOf stream)).window.cost
      bytes.length ≤ (peer.windows (peer.limits.poolOf stream)).opened) :
    let window := { peer.windows (peer.limits.poolOf stream) with
      opened := (peer.windows (peer.limits.poolOf stream)).opened -
        (peer.windows (peer.limits.poolOf stream)).window.cost bytes.length }
    peer.output peer.key stream bytes =
      if (peer.outputs stream).discarding then
        (peer.refuseOutput stream window bytes, .ok .late)
      else (peer.holdOutput stream window bytes, .ok .applied) := by
  simp only [output, Key.receive_self, listening, unended, Bool.false_eq_true,
    if_false, (peer.limits.checkChunk_ok_iff bytes.length).mpr sized,
    Granted.charge_of_le fits]

theorem receive_units (peer : Peer) (now : Instant) (key : Key)
    (message : Runner.Message) (noGrant : ∀ units, message ≠ .credit units)
    (noOutput : ∀ stream bytes, message ≠ .output stream bytes) :
    (peer.receive now key message).1.input.credit = peer.input.credit ∧
      ∀ index, ((peer.receive now key message).1.windows index).opened =
        (peer.windows index).opened := by
  cases message with
  | credit units => exact absurd rfl (noGrant units)
  | output stream bytes => exact absurd rfl (noOutput stream bytes)
  | started =>
    rcases peer.receiveStarted_cases key with same | ⟨_, _, _, starting⟩
    · simp [receive, same]
    · simp [receive, starting]
  | streamEnd stream =>
    rcases peer.endOutput_cases key stream with same | ⟨_, _, ending⟩
    · simp [receive, same]
    · simp [receive, ending, setOutput]
  | inputClosed =>
    have framed := Framed.evolves (peer.inputClosed_evolves key)
    exact ⟨framed.credit, framed.opened⟩
  | terminal outcome =>
    have ticked := Framed.evolves (peer.tick_evolves now)
    rcases peer.receiveTerminal_cases now key outcome with
      same | ticks | ⟨listening, _, _, accepted⟩
    · simp [receive, same]
    · simp [receive, ticks, ticked.credit, ticked.opened]
    · have unfinished : (peer.tick now).finished = false := by
        simp only [ignoresRunner, Bool.or_eq_false_iff] at listening
        exact listening.1.1
      have closed := Framed.evolves (closeInput_evolves (peer.tick now))
      have framed := Framed.evolves (acceptTerminal_evolves now outcome unfinished)
      simp only [receive, accepted]
      exact ⟨framed.credit.trans (closed.credit.trans ticked.credit),
        fun index => (framed.opened index).trans
          ((closed.opened index).trans (ticked.opened index))⟩

theorem receive_ok (listening : peer.ignoresRunner = false)
    (reads : peer.view.Next message last) (sized : message.Sized peer.limits)
    (affordable : ∀ units, message = .credit units → peer.input.credit.available + units ≤
        peer.input.credit.window.size.toNat)
    (opened : ∀ stream bytes, message = .output stream bytes →
      (peer.windows (peer.limits.poolOf stream)).window.cost bytes.length ≤
        (peer.windows (peer.limits.poolOf stream)).opened) (now : Instant) :
    ∃ receipt, (peer.receive now peer.key message).2 = .ok receipt := by
  have running : peer.terminal = none := by
    simpa [view] using reads.running
  cases reads with
  | credit _ units =>
    exact ⟨_, congrArg Prod.snd (receiveCredit_eq listening sized (affordable units rfl))⟩
  | started _ first =>
    have unstarted : peer.started = false := first
    exact ⟨.applied, by
      simp [receive, receiveStarted, listening, unstarted, running]⟩
  | output _ stream unended bytes =>
    simp only [receive, output_eq listening unended sized (opened stream bytes rfl)]
    split
    · exact ⟨_, rfl⟩
    · exact ⟨_, rfl⟩
  | streamEnd _ stream unended =>
    have notYet : (peer.outputs stream).ended = false := unended
    exact ⟨.applied, by simp [receive, endOutput, listening, notYet]⟩
  | inputClosed _ =>
    simp only [receive, inputClosed, Key.receive_self]
    split
    · exact ⟨_, rfl⟩
    · exact ⟨_, rfl⟩
  | terminal _ ended outcome =>
    have framed := Framed.evolves (peer.tick_evolves now)
    have told (stream : Stream) : (peer.outputs stream).ended = true :=
      ended stream
    simp only [receive, receiveTerminal, Key.receive_self, framed.terminal,
      framed.ended, running, told, Option.isSome_none, Bool.false_eq_true,
      if_false, Bool.and_self, Bool.not_true]
    split
    · exact ⟨_, rfl⟩
    · exact ⟨_, rfl⟩

end Peer

namespace System

structure Sized (limits : Limits) (system : System) : Prop where
  toPeer : ∀ message ∈ system.toPeer, message.Sized limits
  toRunner : ∀ message ∈ system.toRunner, message.Sized limits

namespace Sized

variable {system : System}

theorem runnerSends (sized : system.Sized limits) (paired : system.Paired limits)
    (emits : Runner.Emits system.runner capacity next message) :
    ∀ posting ∈ system.toPeer ++ posted system.runner message,
      posting.Sized limits := by
  intro posting member
  rcases List.mem_append.mp member with earlier | new
  · exact sized.toPeer posting earlier
  · cases emits with
    | credit speaks accepts positive =>
      rw [List.mem_singleton.mp new]
      exact positive
    | output stream length speaks started launched positive queued chunked =>
      rw [List.mem_singleton.mp new]
      have exactly := List.length_take_of_le queued
      rw [← paired.runnerLimits]
      exact ⟨by rwa [exactly], by rwa [exactly]⟩
    | terminal outcome unfinished ended quiet =>
      simp only [posted] at new
      split at new
      · simp at new
      · rw [List.mem_singleton.mp new]
        trivial
    | nothing quiet => simp [posted] at new
    | _ =>
      rw [List.mem_singleton.mp new]
      trivial

theorem peerSends (sized : system.Sized limits) (paired : system.Paired limits)
    (emits : Peer.Emits system.peer capacity next message) :
    ∀ posting ∈ system.toRunner ++ message.toList, posting.Sized limits := by
  intro posting member
  rcases List.mem_append.mp member with earlier | new
  · exact sized.toRunner posting earlier
  · cases emits with
    | credit index pool turn speaks named running stillOpen positive =>
      rw [List.mem_singleton.mp new, ← paired.peerLimits]
      exact ⟨positive, index, named⟩
    | input length turn speaks stillOpen positive queued chunked =>
      rw [List.mem_singleton.mp new, ← paired.peerLimits]
      have exactly := List.length_take_of_le queued
      exact ⟨by rwa [exactly], by rwa [exactly]⟩
    | nothing quiet => simp at new
    | _ =>
      rw [List.mem_singleton.mp new]
      trivial

theorem kept (limits : Limits) : KeptUnder (Paired limits) (Sized limits) where
  runnerActs := fun _ _ sized => { sized with }
  peerActs := fun _ _ sized => { sized with }
  runnerSends := fun emits paired sized =>
    { sized with toPeer := sized.runnerSends paired emits }
  peerSends := fun emits paired sized =>
    { sized with toRunner := sized.peerSends paired emits }
  runnerReceives := fun _ _ _ delivered _ sized =>
    { sized with
      toRunner := fun message member => sized.toRunner message (by
        rw [delivered]
        exact List.mem_cons_of_mem _ member) }
  peerReceives := fun _ _ _ delivered _ sized =>
    { sized with
      toPeer := fun message member => sized.toPeer message (by
        rw [delivered]
        exact List.mem_cons_of_mem _ member) }

end Sized

theorem sum_map_concat (units : Message → Nat) (messages : List Message) (message : Message) :
    ((messages ++ [message]).map units).sum = (messages.map units).sum + units message := by
  simp

def Live (system : System) : Prop :=
  system.peer.ignoresRunner = false ∧ system.runner.finished = false

structure Funded (limits : Limits) (system : System) : Prop where
  output : ∀ index, Balanced system.Live (system.runner.credits index).available
    (system.toRunner.map (Peer.Message.grants limits index)).sum
    (system.toPeer.map (Runner.Message.cost limits index)).sum
    (system.peer.windows index).opened
  input : Balanced system.Live system.peer.input.credit.available
    (system.toPeer.map Runner.Message.grants).sum
    (system.toRunner.map (Peer.Message.cost limits)).sum
    system.runner.input.window.opened

namespace Funded

theorem new (key : Key) (limits : Limits) (runnerTimers peerTimers : Timers)
    (runnerStart peerStart : Instant) :
    (System.new key limits runnerTimers peerTimers runnerStart peerStart).Funded limits where
  output := fun _ => .zero
  input := .zero

variable {system : System}

/-- The runner's calls that move no units, and post messages that carry none. -/
theorem of_runner (funded : system.Funded limits) {next : Runner} (messages : List Runner.Message)
    (finished : next.finished = false → system.runner.finished = false)
    (credits : next.credits = system.runner.credits)
    (opened : next.input.window.opened = system.runner.input.window.opened)
    (noGrants : (messages.map Runner.Message.grants).sum = 0)
    (noCosts : ∀ index, (messages.map (Runner.Message.cost limits index)).sum = 0) :
    { system with
      runner := next
      toPeer := system.toPeer ++ messages }.Funded limits where
  output := fun index => by
    simp only [credits, List.map_append, List.sum_append, noCosts, Nat.add_zero]
    exact (funded.output index).mono fun live => ⟨live.1, finished live.2⟩
  input := by
    simp only [opened, List.map_append, List.sum_append, noGrants, Nat.add_zero]
    exact funded.input.mono fun live => ⟨live.1, finished live.2⟩

/-- The peer's calls that move no units, and post messages that carry none. -/
theorem of_peer (funded : system.Funded limits)
    (messages : List Peer.Message) (later : system.peer.Later next)
    (credit : next.input.credit = system.peer.input.credit)
    (opened : ∀ index, (next.windows index).opened = (system.peer.windows index).opened)
    (noGrants : ∀ index, (messages.map (Peer.Message.grants limits index)).sum = 0)
    (noCosts : (messages.map (Peer.Message.cost limits)).sum = 0) :
    { system with
      peer := next
      toRunner := system.toRunner ++ messages }.Funded limits := by
  have still (live : next.ignoresRunner = false) : system.peer.ignoresRunner = false :=
    Runner.Later.false_of_kept later.ignoresRunner live
  refine ⟨fun index => ?_, ?_⟩
  · simp only [opened, List.map_append, List.sum_append, noGrants, Nat.add_zero]
    exact (funded.output index).mono fun live => ⟨still live.1, live.2⟩
  · simp only [credit, List.map_append, List.sum_append, noCosts, Nat.add_zero]
    exact funded.input.mono fun live => ⟨still live.1, live.2⟩

theorem runnerActs (funded : system.Funded limits) (call : Runner.LocalCall) :
    { system with runner := (system.runner.act call).1 }.Funded limits := by
  have framed := Runner.Framed.act system.runner call
  simpa using funded.of_runner [] (fun live => framed.finished.symm.trans live)
    framed.credits framed.opened rfl (fun _ => rfl)

theorem peerActs (funded : system.Funded limits) (paired : system.Paired limits)
    (call : Peer.LocalCall) :
    { system with peer := (system.peer.act call).1 }.Funded limits := by
  have framed := Peer.Framed.act system.peer call
  have later : system.peer.Later (system.peer.act call).1 :=
    paired.peer.later (.act call)
  simpa using funded.of_peer [] later framed.credit framed.opened (fun _ => rfl) rfl

theorem runnerSends (funded : system.Funded limits) (paired : system.Paired limits)
    (emits : Runner.Emits system.runner capacity next message) :
    { system with
      runner := next
      toPeer := system.toPeer ++ posted system.runner message
      }.Funded limits := by
  cases emits with
  | credit speaks accepts positive =>
    refine ⟨fun index => ?_, ?_⟩
    · simp only [posted, sum_map_concat]
      exact funded.output index
    · simp only [posted, sum_map_concat, paired.runner.sound.granted.takeGrant_eq]
      exact funded.input.grant system.runner.input.window.returnable
  | output stream length speaks started launched positive queued chunked affordable =>
    refine ⟨fun index => ?_, ?_⟩
    · have exactly := List.length_take_of_le queued
      have window := (paired.runner.sound.credits (limits.poolOf stream)).window_eq
      rw [paired.runnerLimits] at window affordable
      have spent : ((system.runner.credits (limits.poolOf stream)).spend
          length).available = (system.runner.credits
            (limits.poolOf stream)).available - limits.output.cost length := by
        rw [Credit.spend_of_le affordable, window]
      rw [window] at affordable
      simp only [posted, sum_map_concat, Runner.Message.cost, exactly,
        Runner.sentOutput, paired.runnerLimits]
      by_cases same : limits.poolOf stream = index
      · subst same
        rw [if_pos rfl, Function.update_self, spent]
        exact (funded.output _).spend affordable
      · rw [if_neg same, Function.update_of_ne (Ne.symm same)]
        exact funded.output index
    · simp only [posted, sum_map_concat]
      exact funded.input
  | terminal outcome unfinished ended quiet =>
    refine funded.of_runner _ (fun _ => unfinished) rfl rfl ?_ fun index => ?_
    · cases detached : system.runner.detached <;>
        simp [posted, detached, Runner.Message.grants]
    · cases detached : system.runner.detached <;>
        simp [posted, detached, Runner.Message.cost]
  | _ => exact funded.of_runner _ id rfl rfl rfl fun _ => rfl

theorem peerSends (funded : system.Funded limits) (paired : system.Paired limits)
    (emits : Peer.Emits system.peer capacity next message) :
    { system with
      peer := next
      toRunner := system.toRunner ++ message.toList }.Funded limits := by
  have later := Peer.Later.emits emits
  cases emits with
  | credit index pool turn speaks named running stillOpen positive =>
    rw [paired.peerLimits] at named
    refine ⟨fun other => ?_, ?_⟩
    · simp only [Option.toList_some, sum_map_concat, Peer.Message.grants,
        named, (paired.peer.sound.granted index).takeGrant_eq]
      by_cases same : index = other
      · subst same
        rw [if_pos rfl, Function.update_self]
        exact (funded.output index).grant _
      · rw [if_neg same, Function.update_of_ne (Ne.symm same)]
        exact funded.output other
    · simp only [Option.toList_some, sum_map_concat]
      exact funded.input
  | input length turn speaks stillOpen positive queued chunked affordable =>
    have exactly := List.length_take_of_le queued
    have window := paired.peer.sound.credit.window_eq
    rw [paired.peerLimits] at window
    refine ⟨fun index => ?_, ?_⟩
    · simp only [Option.toList_some, sum_map_concat]
      exact funded.output index
    · have spent : (system.peer.input.credit.spend length).available =
          system.peer.input.credit.available - limits.input.cost length := by
        rw [Credit.spend_of_le affordable, window]
      rw [window] at affordable
      simp only [Option.toList_some, sum_map_concat, Peer.Message.cost,
        exactly, Peer.sentInput, Peer.setInput, spent]
      exact funded.input.spend affordable
  | nothing quiet => simpa using funded
  | _ => exact funded.of_peer _ later rfl (fun _ => rfl) (fun _ => rfl) rfl

theorem grant_fits (funded : system.Funded limits) (paired : system.Paired limits) {units : Nat}
    (delivered : system.toRunner = .credit pool units :: rest)
    (named : limits.outputPool pool = .ok index) :
    (system.runner.credits index).available + units ≤
      (system.runner.credits index).window.size.toNat := by
  have balanced := funded.output index
  simp only [delivered, List.map_cons, List.sum_cons, Peer.Message.grants,
    named, if_true] at balanced
  have accounted := paired.peer.sound.accounted index
  rw [paired.peerLimits] at accounted
  rw [(paired.runner.sound.credits index).window_eq, paired.runnerLimits]
  exact Nat.le_trans balanced.grant_le (by omega)

theorem input_fits (funded : system.Funded limits) (paired : system.Paired limits)
    (delivered : system.toRunner = .input bytes :: rest) :
    system.runner.input.window.window.cost bytes.length ≤
      system.runner.input.window.opened := by
  have balanced := funded.input
  simp only [delivered, List.map_cons, List.sum_cons, Peer.Message.cost] at balanced
  rw [paired.runner.sound.window_eq, paired.runnerLimits]
  exact balanced.cost_le

theorem credit_fits (funded : system.Funded limits) (paired : system.Paired limits) {units : Nat}
    (delivered : system.toPeer = .credit units :: rest) :
    system.peer.input.credit.available + units ≤
      system.peer.input.credit.window.size.toNat := by
  have balanced := funded.input
  simp only [delivered, List.map_cons, List.sum_cons, Runner.Message.grants] at balanced
  have bounded := paired.runner.sound.granted.bounded
  rw [paired.runner.sound.window_eq, paired.runnerLimits] at bounded
  rw [paired.peer.sound.credit.window_eq, paired.peerLimits]
  exact Nat.le_trans balanced.grant_le (by omega)

theorem output_fits (funded : system.Funded limits) (paired : system.Paired limits)
    (delivered : system.toPeer = .output stream bytes :: rest) :
    (system.peer.windows (system.peer.limits.poolOf stream)).window.cost bytes.length ≤
      (system.peer.windows (system.peer.limits.poolOf stream)).opened := by
  have balanced := funded.output (limits.poolOf stream)
  simp only [delivered, List.map_cons, List.sum_cons, Runner.Message.cost, if_true] at balanced
  rw [paired.peer.sound.window_eq, paired.peerLimits]
  exact balanced.cost_le

theorem runnerIgnores (funded : system.Funded limits) (finished : system.runner.finished = true)
    (delivered : system.toRunner = message :: rest) :
    { system with toRunner := rest }.Funded limits := by
  have dead : ¬ { system with toRunner := rest }.Live :=
    fun live => Bool.false_ne_true (live.2.symm.trans finished)
  refine ⟨fun index => ?_, ?_⟩
  · refine (funded.output index).ignore ?_ (Nat.le_refl _) dead
    simp [delivered]
  · refine funded.input.ignore (Nat.le_refl _) ?_ dead
    simp [delivered]

/-- A message that grants nothing, and takes its cost of what the runner
opened. -/
theorem runnerTakes (funded : system.Funded limits) (delivered : system.toRunner = message :: rest)
    (finished : next.finished = system.runner.finished)
    (credits : next.credits = system.runner.credits)
    (opened : next.input.window.opened = system.runner.input.window.opened - message.cost limits)
    (noGrants : ∀ index, message.grants limits index = 0) :
    { system with runner := next, toRunner := rest }.Funded limits := by
  have still (live : { system with
      runner := next
      toRunner := rest }.Live) : system.Live :=
    ⟨live.1, finished.symm.trans live.2⟩
  refine ⟨fun index => ?_, ?_⟩
  · have balanced := (funded.output index).mono still
    rw [delivered, List.map_cons, List.sum_cons, noGrants, Nat.zero_add] at balanced
    simp only [credits]
    exact balanced
  · have balanced := funded.input.mono still
    rw [delivered, List.map_cons, List.sum_cons] at balanced
    simp only [opened]
    exact balanced.charge

theorem runnerReceives (funded : system.Funded limits)
    (paired : system.Paired limits) (sized : system.Sized limits)
    (ordered : system.Ordered) (now : Instant) (delivered : system.toRunner = message :: rest) :
    { system with
      runner := (system.runner.receive now system.peer.key message).1
      toRunner := rest }.Funded limits := by
  cases finished : system.runner.finished with
  | true =>
    rw [Runner.receive_of_finished finished]
    exact funded.runnerIgnores finished delivered
  | false =>
    have arrives := sized.toRunner message (by simp [delivered])
    have reads := ordered.input (.inl finished)
    rw [delivered] at reads
    obtain ⟨ended, first, _⟩ := reads.exists_of_cons
    rw [← paired.key]
    cases message with
    | cancel cause =>
      have framed := Runner.Framed.evolves (system.runner.cancel_evolves now
        system.runner.key cause)
      exact funded.runnerTakes delivered framed.finished framed.credits framed.opened fun _ => rfl
    | credit pool units =>
      obtain ⟨positive, index, named⟩ := arrives
      have fits := funded.grant_fits paired delivered named
      simp only [Runner.receive, Runner.credit_eq finished
        (by rw [paired.runnerLimits]; exact named) positive fits]
      refine ⟨fun other => ?_, ?_⟩
      · have balanced := funded.output other
        simp only [delivered, List.map_cons, List.sum_cons, Peer.Message.grants, named] at balanced
        by_cases same : index = other
        · subst same
          rw [if_pos rfl] at balanced
          simp only [Function.update_self]
          exact balanced.granted
        · rw [if_neg same, Nat.zero_add] at balanced
          simp only [Function.update_of_ne (Ne.symm same)]
          exact balanced
      · have balanced := funded.input
        simp only [delivered, List.map_cons, List.sum_cons,
          Peer.Message.cost, Nat.zero_add] at balanced
        exact balanced
    | input bytes =>
      have unended : system.runner.input.peerEnded = false := by
        cases first
        assumption
      have fits := funded.input_fits paired delivered
      rw [← paired.runnerLimits] at arrives
      have window := paired.runner.sound.window_eq
      rw [paired.runnerLimits] at window
      simp only [Runner.receive, Runner.receiveInput_eq finished unended arrives fits, window]
      split
      · exact funded.runnerTakes delivered rfl rfl rfl fun _ => rfl
      · exact funded.runnerTakes delivered rfl rfl rfl fun _ => rfl
    | inputEnd =>
      have unended : system.runner.input.peerEnded = false := by
        cases first
        assumption
      simp only [Runner.receive, Runner.endInput_eq finished unended]
      split
      · exact funded.runnerTakes delivered rfl rfl rfl fun _ => rfl
      · have framed := Runner.Framed.evolves
          (Runner.closeInputWhenTaken_evolves (system.runner.setInput
            { system.runner.input with peerEnded := true }))
        exact funded.runnerTakes delivered framed.finished framed.credits framed.opened fun _ => rfl

theorem peerIgnores (funded : system.Funded limits) (ignores : system.peer.ignoresRunner = true)
    (later : system.peer.Later next) (framed : system.peer.Framed next)
    (delivered : system.toPeer = message :: rest) :
    { system with peer := next, toPeer := rest }.Funded limits := by
  have dead : ¬ { system with peer := next, toPeer := rest }.Live :=
    fun live => Bool.false_ne_true (live.1.symm.trans (later.ignoresRunner ignores))
  refine ⟨fun index => ?_, ?_⟩
  · simp only [framed.opened]
    refine (funded.output index).ignore (Nat.le_refl _) ?_ dead
    simp [delivered]
  · simp only [framed.credit]
    refine funded.input.ignore ?_ (Nat.le_refl _) dead
    simp [delivered]

/-- A message that grants nothing, and takes its cost of what the peer
opened. -/
theorem peerTakes (funded : system.Funded limits) (later : system.peer.Later next)
    (delivered : system.toPeer = message :: rest)
    (credit : next.input.credit = system.peer.input.credit)
    (opened : ∀ index, (next.windows index).opened =
      (system.peer.windows index).opened - message.cost limits index)
    (noGrants : message.grants = 0) :
    { system with peer := next, toPeer := rest }.Funded limits := by
  have still (live : { system with
      peer := next
      toPeer := rest }.Live) : system.Live :=
    ⟨Runner.Later.false_of_kept later.ignoresRunner live.1, live.2⟩
  refine ⟨fun index => ?_, ?_⟩
  · have balanced := (funded.output index).mono still
    rw [delivered, List.map_cons, List.sum_cons] at balanced
    simp only [opened]
    exact balanced.charge
  · have balanced := funded.input.mono still
    rw [delivered, List.map_cons, List.sum_cons, noGrants, Nat.zero_add] at balanced
    simp only [credit]
    exact balanced

theorem peerReceives (funded : system.Funded limits)
    (paired : system.Paired limits) (sized : system.Sized limits)
    (ordered : system.Ordered) (now : Instant) (delivered : system.toPeer = message :: rest) :
    { system with
      peer := (system.peer.receive now system.runner.key message).1
      toPeer := rest }.Funded limits := by
  have later : system.peer.Later (system.peer.receive now system.runner.key message).1 :=
    paired.peer.later (.receive now system.runner.key message)
  cases ignores : system.peer.ignoresRunner with
  | true =>
    refine funded.peerIgnores ignores later ?_ delivered
    rcases Peer.receive_of_ignores ignores now system.runner.key message with
      same | ticks
    · rw [same]
      exact .refl _
    · rw [ticks]
      exact .evolves (system.peer.tick_evolves now)
  | false =>
    have arrives := sized.toPeer message (by simp [delivered])
    obtain ⟨_, reads, _⟩ := ordered.output (.inl ignores)
    rw [delivered] at reads
    obtain ⟨view, first, _⟩ := reads.exists_of_cons
    rw [paired.key] at later ⊢
    have units := Peer.receive_units system.peer now system.peer.key message
    cases message with
    | credit units =>
      have fits := funded.credit_fits paired delivered
      simp only [Peer.receive, Peer.receiveCredit_eq ignores arrives fits]
      refine ⟨fun index => ?_, ?_⟩
      · have balanced := funded.output index
        simp only [delivered, List.map_cons, List.sum_cons,
          Runner.Message.cost, Nat.zero_add] at balanced
        exact balanced
      · have balanced := funded.input
        simp only [delivered, List.map_cons, List.sum_cons, Runner.Message.grants] at balanced
        exact balanced.granted
    | output stream bytes =>
      have unended : (system.peer.outputs stream).ended = false := by
        cases first
        assumption
      have fits := funded.output_fits paired delivered
      rw [← paired.peerLimits] at arrives
      have window := paired.peer.sound.window_eq (limits.poolOf stream)
      rw [paired.peerLimits] at window arrives fits
      have accepted := Peer.output_eq ignores unended (by rw [paired.peerLimits]; exact arrives)
        (by rw [paired.peerLimits]; exact fits)
      refine funded.peerTakes later delivered ?_ (fun index => ?_) rfl
      · simp only [Peer.receive, accepted]
        split <;> rfl
      · rw [Peer.receive, accepted, paired.peerLimits, window, Runner.Message.cost]
        by_cases same : limits.poolOf stream = index
        · subst same
          rw [if_pos rfl]
          split <;> simp [Peer.refuseOutput, Peer.holdOutput,
            Peer.setWindow, Peer.noteBuffered, Granted.free,
            paired.peerLimits]
        · rw [if_neg same]
          split <;> simp [Peer.refuseOutput, Peer.holdOutput,
            Peer.setWindow, Peer.setOutput, Peer.noteBuffered,
            paired.peerLimits, Function.update_of_ne (Ne.symm same)]
    | _ =>
      obtain ⟨credit, opened⟩ := units (by simp) (by simp)
      exact funded.peerTakes later delivered credit opened rfl

theorem kept (limits : Limits) :
    KeptUnder (fun system => system.Paired limits ∧ system.Sized limits ∧
      system.Ordered) (Funded limits) where
  runnerActs := fun call _ funded => funded.runnerActs call
  peerActs := fun call inv funded => funded.peerActs inv.1 call
  runnerSends := fun emits inv funded => funded.runnerSends inv.1 emits
  peerSends := fun emits inv funded => funded.peerSends inv.1 emits
  runnerReceives := fun now _ _ delivered inv funded =>
    funded.runnerReceives inv.1 inv.2.1 inv.2.2 now delivered
  peerReceives := fun now _ _ delivered inv funded =>
    funded.peerReceives inv.1 inv.2.1 inv.2.2 now delivered

end Funded

end System

end Nvx.Exec
