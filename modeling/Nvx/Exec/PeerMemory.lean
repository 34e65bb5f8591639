import Nvx.Exec.RunnerMemory
import Nvx.Exec.PeerMessage

namespace Nvx.Exec.Peer

open Nvx.Data

/-! What bounds the peer's memory and its arithmetic, against any runner. -/

def heldIn (peer : Peer) (index : Fin 2) : Nat :=
  (if peer.limits.poolOf .stdout = index then
    (peer.outputs .stdout).inbox.held else 0) +
      if peer.limits.poolOf .stderr = index then
        (peer.outputs .stderr).inbox.held else 0

theorem heldIn_setOutput (peer : Peer) (stream : Stream) (next : Incoming) :
    (peer.setOutput stream next).heldIn (peer.limits.poolOf stream) +
        (peer.outputs stream).inbox.held =
      peer.heldIn (peer.limits.poolOf stream) + next.inbox.held := by
  unfold heldIn
  cases stream <;> simp [setOutput] <;> omega

theorem heldIn_setOutput_of_ne {peer : Peer}
    (next : Incoming) (other : peer.limits.poolOf stream ≠ index) :
    (peer.setOutput stream next).heldIn index = peer.heldIn index := by
  unfold heldIn
  cases stream <;> simp [setOutput, other]

theorem held_le_heldIn (peer : Peer) (stream : Stream) : (peer.outputs stream).inbox.held ≤
      peer.heldIn (peer.limits.poolOf stream) := by
  unfold heldIn
  cases stream <;> simp

/-- No addition or subtraction left its word, in the calls so far or in the
allowance that the state gives. -/
structure InRange (peer : Peer) : Prop where
  credit : peer.input.credit.overflowed = false
  windows : ∀ index, (peer.windows index).overflowed = false
  inboxes : ∀ stream, (peer.outputs stream).inbox.overflowed = false
  input : peer.overflowed = false
  writeAllowance : peer.writeAllowance.2 = false

/-- Each window holds exactly its units: those open, those to grant again, and
those that the sink has not taken. -/
structure Sound (peer : Peer) : Prop where
  credit : peer.input.credit.Sound peer.limits.input
  queue : peer.input.queue.length ≤ peer.limits.chunk
  window_eq : ∀ index, (peer.windows index).window = peer.limits.output
  accounted : ∀ index, (peer.windows index).opened + (peer.windows index).returnable +
      peer.heldIn index = peer.limits.output.size.toNat
  windows : ∀ index, (peer.windows index).overflowed = false
  unit_eq : ∀ stream, (peer.outputs stream).inbox.unit = peer.limits.output.unit
  inbox : ∀ stream, (peer.outputs stream).inbox.Sound peer.limits.chunk
  inRange : peer.overflowed = false

namespace Sound

theorem new (key : Key) (limits : Limits) (timers : Timers) (now : Instant) :
    (Peer.new key limits timers now).Sound where
  credit := Credit.Sound.new limits.input
  queue := Nat.zero_le _
  window_eq := fun _ => rfl
  accounted := by
    intro index
    have empty : (Inbox.new limits.output.unit).held = 0 := Inbox.held_new _
    simp [Peer.new, heldIn, Granted.new, Incoming.new, empty]
  windows := fun _ => rfl
  unit_eq := fun _ => rfl
  inbox := fun _ => Inbox.Sound.new _ _
  inRange := rfl

variable {peer : Peer}

theorem granted (sound : peer.Sound) (index : Fin 2) :
    (peer.windows index).Sound (peer.heldIn index) where
  bounded := by
    rw [sound.window_eq]
    exact Nat.le_of_eq (sound.accounted index)
  inRange := sound.windows index

theorem opened_lt (sound : peer.Sound) (index : Fin 2) :
    (peer.windows index).opened < wordSize 32 := by
  have accounted := sound.accounted index
  have small := peer.limits.output.size_lt
  omega

theorem held_lt (sound : peer.Sound) (stream : Stream) :
    (peer.outputs stream).inbox.held < wordSize 32 := by
  have accounted := sound.accounted (peer.limits.poolOf stream)
  have held := peer.held_le_heldIn stream
  have small := peer.limits.output.size_lt
  omega

theorem of_eq {next : Peer} (sound : peer.Sound) (limits : next.limits = peer.limits)
    (credit : next.input.credit = peer.input.credit)
    (queue : next.input.queue.length ≤ peer.input.queue.length)
    (windows : next.windows = peer.windows)
    (inboxes : ∀ stream, (next.outputs stream).inbox = (peer.outputs stream).inbox)
    (overflowed : next.overflowed = peer.overflowed) : next.Sound where
  credit := by
    rw [credit, limits]
    exact sound.credit
  queue := by
    rw [limits]
    exact Nat.le_trans queue sound.queue
  window_eq := by
    rw [windows, limits]
    exact sound.window_eq
  accounted := by
    have held (index : Fin 2) : next.heldIn index = peer.heldIn index := by
      simp only [heldIn, limits, inboxes]
    intro index
    rw [windows, limits, held]
    exact sound.accounted index
  windows := by
    rw [windows]
    exact sound.windows
  unit_eq := by
    intro stream
    rw [inboxes, limits]
    exact sound.unit_eq stream
  inbox := by
    intro stream
    rw [inboxes, limits]
    exact sound.inbox stream
  inRange := by
    rw [overflowed]
    exact sound.inRange

/-- A change of one inbox is sound with a change of its window that accounts for
the difference. -/
theorem replace (sound : peer.Sound) (stream : Stream) (next : Incoming)
    (unit_eq : next.inbox.unit = peer.limits.output.unit)
    (inbox : next.inbox.Sound peer.limits.chunk) (window_eq : window.window = peer.limits.output)
    (inRange : window.overflowed = false)
    (accounted : window.opened + window.returnable + next.inbox.held =
      (peer.windows (peer.limits.poolOf stream)).opened +
        (peer.windows (peer.limits.poolOf stream)).returnable + (peer.outputs stream).inbox.held) :
    ((peer.setOutput stream next).setWindow (peer.limits.poolOf stream) window).Sound := by
  refine ⟨sound.credit, sound.queue, fun index => ?_, fun index => ?_,
    fun index => ?_, fun other => ?_, fun other => ?_, sound.inRange⟩
  · simp only [setWindow, setOutput, Function.update_apply]
    split
    · exact window_eq
    · exact sound.window_eq index
  · have held : ((peer.setOutput stream next).setWindow
        (peer.limits.poolOf stream) window).heldIn index =
          (peer.setOutput stream next).heldIn index := rfl
    have before := sound.accounted index
    rw [held]
    by_cases same : peer.limits.poolOf stream = index
    · subst index
      have moved := peer.heldIn_setOutput stream next
      simp only [setWindow, setOutput, Function.update_self] at moved ⊢
      omega
    · rw [heldIn_setOutput_of_ne next same]
      simpa [setWindow, setOutput, Function.update_of_ne (Ne.symm same)] using before
  · simp only [setWindow, setOutput, Function.update_apply]
    split
    · exact inRange
    · exact sound.windows index
  · simp only [setWindow, setOutput, Function.update_apply]
    split
    · exact unit_eq
    · exact sound.unit_eq other
  · simp only [setWindow, setOutput, Function.update_apply]
    split
    · exact inbox
    · exact sound.inbox other

theorem free_eq (sound : peer.Sound) {units : Nat}
    (held : units ≤ (peer.outputs stream).inbox.held) :
    (peer.windows (peer.limits.poolOf stream)).free units =
      { peer.windows (peer.limits.poolOf stream) with
        returnable :=
          (peer.windows (peer.limits.poolOf stream)).returnable + units } := by
  have granted := sound.granted (peer.limits.poolOf stream)
  have bound := peer.held_le_heldIn stream
  rw [show peer.heldIn (peer.limits.poolOf stream) =
    peer.heldIn (peer.limits.poolOf stream) - units + units by omega] at granted
  exact granted.free_eq

theorem release {units : Nat} (sound : peer.Sound)
    (unit_eq : next.inbox.unit = peer.limits.output.unit)
    (inbox : next.inbox.Sound peer.limits.chunk)
    (freed : next.inbox.held + units = (peer.outputs stream).inbox.held) :
    ((peer.setOutput stream next).setWindow (peer.limits.poolOf stream)
      ((peer.windows (peer.limits.poolOf stream)).free units)).Sound := by
  rw [sound.free_eq (show units ≤ (peer.outputs stream).inbox.held by omega)]
  exact sound.replace stream next unit_eq inbox (sound.window_eq _) (sound.windows _)
    (by simp only; omega)

theorem discardStream (sound : peer.Sound) (stream : Stream) :
    (peer.discardStream stream).Sound := by
  obtain ⟨inbox, empty, freed⟩ := (sound.inbox stream).clear (sound.held_lt stream)
  refine sound.release ?_ inbox ?_
  · simpa [Incoming.dropInbox] using sound.unit_eq stream
  · simp only [Incoming.dropInbox]
    omega

theorem endGrace (sound : peer.Sound) : peer.endGrace.Sound := by
  have started : { peer with graceUntil := none }.Sound :=
    sound.of_eq rfl rfl (Nat.le_refl _) rfl (fun _ => rfl) rfl
  exact (started.discardStream .stdout).discardStream .stderr

theorem change (change : Change peer next) (sound : peer.Sound) : next.Sound := by
  cases change with
  | closeInput stillOpen =>
    exact sound.of_eq rfl rfl (Nat.zero_le _) rfl (fun _ => rfl) rfl
  | endGrace ending unfinished => exact sound.endGrace
  | _ => exact sound.of_eq rfl rfl (Nat.le_refl _) rfl (fun _ => rfl) rfl

theorem grant (sound : peer.Sound) {units : Nat} {granted : Credit}
    (accepted : peer.input.credit.grant units = .ok granted) :
    (peer.setInput { peer.input with credit := granted }).Sound :=
  { sound with credit := sound.credit.grant accepted }

theorem charge (sound : peer.Sound)
    (charged : (peer.windows (peer.limits.poolOf stream)).charge bytes.length = .ok window)
    (sized : 0 < bytes.length ∧ bytes.length ≤ peer.limits.chunk) :
    (if (peer.outputs stream).discarding then
        peer.refuseOutput stream window bytes
      else peer.holdOutput stream window bytes).Sound := by
  obtain ⟨fits, charged_eq⟩ := Granted.charge_ok charged
  rw [sound.window_eq] at fits charged_eq
  have opened : window.opened + peer.limits.output.cost bytes.length =
      (peer.windows (peer.limits.poolOf stream)).opened := by
    simp only [charged_eq]
    omega
  have returnable : window.returnable = (peer.windows (peer.limits.poolOf stream)).returnable := by
    rw [charged_eq]
  have window_eq : window.window = peer.limits.output := by rw [charged_eq]
  have inRange : window.overflowed = false := by
    rw [charged_eq]
    exact sound.windows _
  have small : bytes.length < wordSize 32 :=
    Nat.lt_of_le_of_lt sized.2 peer.limits.chunk_lt
  split
  · have bounded := sound.accounted (peer.limits.poolOf stream)
    have size := peer.limits.output.size_lt
    have granted : window.Sound (0 + peer.limits.output.cost bytes.length) :=
      ⟨by rw [window_eq]; omega, inRange⟩
    unfold refuseOutput
    rw [granted.free_eq]
    exact sound.replace stream _ (sound.unit_eq stream) (sound.inbox stream)
      window_eq inRange (by simp only; omega)
  · have pushed : ((peer.outputs stream).inbox.push bytes).held = (peer.outputs stream).inbox.held +
          peer.limits.output.cost bytes.length :=
      Inbox.held_push (sound.unit_eq stream) small
    have held := sound.replace stream { peer.outputs stream with
      inbox := (peer.outputs stream).inbox.push bytes } (sound.unit_eq stream)
      ((sound.inbox stream).push sized.1 sized.2) window_eq inRange
      (by simp only; omega)
    exact held.of_eq rfl rfl (Nat.le_refl _) rfl (fun _ => rfl) rfl

theorem setOutput (sound : peer.Sound) (stream : Stream) (next : Incoming)
    (inbox : next.inbox = (peer.outputs stream).inbox) :
    (peer.setOutput stream next).Sound := by
  refine sound.of_eq rfl rfl (Nat.le_refl _) rfl (fun other => ?_) rfl
  simp only [Peer.setOutput, Function.update_apply]
  split
  · rename_i same
    subst other
    exact inbox
  · rfl

theorem takeInput (sound : peer.Sound) (bytes : List UInt8) : (peer.takeInput bytes).1.Sound := by
  have fits := sound.queue
  have room : overflowingSub 64 peer.limits.chunk peer.input.queue.length =
      (peer.limits.chunk - peer.input.queue.length, false) :=
    overflowingSub_of_le fits
  have allowance : peer.writeAllowance.2 = false ∧
      peer.writeAllowance.1 ≤ peer.limits.chunk - peer.input.queue.length := by
    unfold writeAllowance
    split
    · simp
    · simp [room]
  refine ⟨sound.credit, ?_, sound.window_eq, sound.accounted, sound.windows,
    sound.unit_eq, sound.inbox, ?_⟩
  · simp only [Peer.takeInput, noteBuffered, setInput, List.length_append, List.length_take]
    omega
  · simpa [Peer.takeInput, noteBuffered, setInput, allowance.1] using sound.inRange

theorem consumed (sound : peer.Sound) (stream : Stream) (bytes : Nat) :
    (peer.consumed stream bytes).Sound := by
  obtain ⟨inbox, freed⟩ := (sound.inbox stream).pop (sound.held_lt stream) bytes
  exact sound.release (by simpa using sound.unit_eq stream) inbox freed

theorem emits (emits : Emits peer capacity next message) (sound : peer.Sound) :
    next.Sound := by
  cases emits with
  | credit index pool turn speaks named running stillOpen positive =>
    refine ⟨sound.credit, sound.queue, fun other => ?_, fun other => ?_,
      fun other => ?_, sound.unit_eq, sound.inbox, sound.inRange⟩
    all_goals
      rw [(sound.granted index).takeGrant_eq]
      simp only [Function.update_apply]
      split
    · exact sound.window_eq index
    · exact sound.window_eq other
    · rename_i same
      subst other
      have accounted := sound.accounted index
      simp only [heldIn] at accounted ⊢
      omega
    · exact sound.accounted other
    · exact sound.windows index
    · exact sound.windows other
  | input length turn speaks stillOpen positive queued chunked affordable =>
    refine { sound with credit := sound.credit.spend affordable, queue := ?_ }
    have bounded := sound.queue
    simp only [sentInput, setInput, List.length_drop]
    omega
  | _ => exact sound.of_eq rfl rfl (Nat.le_refl _) rfl (fun _ => rfl) rfl

theorem tells (tells : Tells peer next event) (sound : peer.Sound) : next.Sound := by
  cases tells with
  | streamEnd stream ending => exact sound.setOutput stream _ rfl
  | _ => exact sound.of_eq rfl rfl (Nat.le_refl _) rfl (fun _ => rfl) rfl

theorem kept : Kept Sound where
  change := fun change _ sound => sound.change change
  grant := fun accepted _ _ sound => sound.grant accepted
  started := fun _ _ _ _ sound =>
    sound.of_eq rfl rfl (Nat.le_refl _) rfl (fun _ => rfl) rfl
  charge := fun charged sized _ _ _ sound => sound.charge charged sized
  endOutput := fun stream _ _ _ sound => sound.setOutput stream _ rfl
  terminal := fun _ _ _ _ _ _ sound =>
    sound.of_eq rfl rfl (Nat.le_refl _) rfl (fun _ => rfl) rfl
  takeInput := fun bytes _ _ sound => sound.takeInput bytes
  endInput := fun _ _ _ sound =>
    sound.of_eq rfl rfl (Nat.le_refl _) rfl (fun _ => rfl) rfl
  consumed := fun stream bytes _ _ sound => sound.consumed stream bytes
  emits := fun emits _ sound => sound.emits emits
  tells := fun tells _ sound => sound.tells tells

theorem inbox_length_le (sound : peer.Sound) (stream : Stream) :
    (peer.outputs stream).inbox.bytes.length ≤
      match peer.limits.output.unit with
      | .bytes => (peer.outputs stream).inbox.held
      | .frames => (peer.outputs stream).inbox.held * peer.limits.chunk := by
  have length := (sound.inbox stream).length_le
  rwa [sound.unit_eq] at length

theorem held_le (sound : peer.Sound) :
    (peer.outputs .stdout).inbox.held + (peer.outputs .stderr).inbox.held ≤
      peer.limits.output.size.toNat * (if peer.limits.shared then 1 else 2) := by
  have first := sound.accounted 0
  have second := sound.accounted 1
  unfold heldIn Limits.poolOf at first second
  cases shared : peer.limits.shared with
  | true =>
    simp only [shared, if_true] at first ⊢
    omega
  | false =>
    simp [shared, Stream.index] at first second ⊢
    omega

theorem inboxes_length_le (sound : peer.Sound) : (peer.outputs .stdout).inbox.bytes.length +
        (peer.outputs .stderr).inbox.bytes.length ≤
      (match peer.limits.output.unit with
        | .bytes => peer.limits.output.size.toNat
        | .frames => peer.limits.output.size.toNat * peer.limits.chunk) *
          (if peer.limits.shared then 1 else 2) := by
  have stdout := sound.inbox_length_le .stdout
  have stderr := sound.inbox_length_le .stderr
  have held := sound.held_le
  cases kind : peer.limits.output.unit with
  | bytes =>
    simp only [kind] at stdout stderr ⊢
    omega
  | frames =>
    simp only [kind] at stdout stderr ⊢
    calc (peer.outputs .stdout).inbox.bytes.length + (peer.outputs .stderr).inbox.bytes.length
        ≤ ((peer.outputs .stdout).inbox.held +
            (peer.outputs .stderr).inbox.held) * peer.limits.chunk := by
          rw [Nat.add_mul]
          exact Nat.add_le_add stdout stderr
      _ ≤ peer.limits.output.size.toNat *
            (if peer.limits.shared then 1 else 2) * peer.limits.chunk :=
          Nat.mul_le_mul_right _ held
      _ = _ := Nat.mul_right_comm _ _ _

theorem buffered_le (sound : peer.Sound) : peer.buffered ≤ peer.memoryBound := by
  have queue := sound.queue
  have inboxes := sound.inboxes_length_le
  have word : peer.buffered < wordSize 64 := Nat.mod_lt _ (by decide)
  have counted : peer.buffered ≤ peer.input.queue.length +
      ((peer.outputs .stdout).inbox.bytes.length +
        (peer.outputs .stderr).inbox.bytes.length) := Nat.mod_le _ _
  unfold memoryBound Limits.outputBytes Window.bytesWith saturatingAdd saturatingMul
  cases kind : peer.limits.output.unit <;>
    cases shared : peer.limits.shared <;>
    simp only [kind, shared, if_true, if_false, Bool.false_eq_true] at inboxes ⊢ <;>
    omega

theorem arithmetic (sound : peer.Sound) : peer.InRange where
  credit := sound.credit.inRange
  windows := sound.windows
  inboxes := fun stream => (sound.inbox stream).inRange
  input := sound.inRange
  writeAllowance := by
    unfold writeAllowance
    split
    · rfl
    · rw [overflowingSub_of_le sound.queue]

theorem after (key : Key) (limits : Limits) (timers : Timers) (now : Instant) (calls : List Call) :
    (machine.after (Peer.new key limits timers now) calls).Sound :=
  machine.invariant (fun _ peer => peer.Sound) (Sound.new key limits timers now)
    (fun _ call sound => kept.step sound.opened_lt call sound) calls

end Sound

end Nvx.Exec.Peer

namespace Nvx.Exec

/-- No sequence of calls, whatever messages it hands over, takes either side
past its memory bound or its arithmetic out of range. -/
theorem buffered_le_memoryBound (key : Key) (limits : Limits) (timers : Timers) (now : Instant) :
    (∀ calls : List Runner.Call,
      let runner := Runner.machine.after (.new key limits timers now) calls
      runner.buffered ≤ runner.memoryBound ∧ runner.InRange) ∧
    ∀ calls : List Peer.Call,
      let peer := Peer.machine.after (.new key limits timers now) calls
      peer.buffered ≤ peer.memoryBound ∧ peer.InRange := by
  constructor
  · intro calls
    have sound := Runner.Sound.after key limits timers now calls
    exact ⟨sound.buffered_le, sound.arithmetic⟩
  · intro calls
    have sound := Peer.Sound.after key limits timers now calls
    exact ⟨sound.buffered_le, sound.arithmetic⟩

end Nvx.Exec
