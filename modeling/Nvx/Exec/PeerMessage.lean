import Nvx.Exec.PeerChange

namespace Nvx.Exec.Peer

open Nvx.Data

/-! What `next_message` and `next_event` return, and under which conditions. -/

def sentInput (peer : Peer) (length : Nat) : Peer :=
  peer.setInput { peer.input with
    queue := peer.input.queue.drop length
    credit := peer.input.credit.spend length }

structure Speaks (peer : Peer) : Prop where
  unfinished : peer.finished = false
  attached : peer.detached = false

/-- Why the peer has nothing to send into a buffer of `capacity` bytes. -/
structure Quiet (peer : Peer) (capacity : Nat) : Prop where
  cancel : peer.cancelMessage = false
  sources : ∀ source < peer.limits.outputPools.length + 1,
    peer.nextFrom capacity source = (peer, none)

inductive Emits (peer : Peer) (capacity : Nat) : Peer → Option Message → Prop
  | cancel (speaks : peer.Speaks) (waiting : peer.cancelMessage = true) :
      Emits peer capacity { peer with cancelMessage := false }
        (some (.cancel (peer.cause.getD .cancelled)))
  | credit (index : Fin 2) (pool : Pool) (turn : Nat) (speaks : peer.Speaks)
      (named : peer.limits.outputPool pool = .ok index)
      (running : peer.terminal = none) (stillOpen : peer.poolOpen index = true)
      (positive : 0 < (peer.windows index).returnable) :
      Emits peer capacity
        { peer with
          windows := Function.update peer.windows index (peer.windows index).takeGrant.1
          turn := turn }
        (some (.credit pool (peer.windows index).returnable))
  | input (length turn : Nat) (speaks : peer.Speaks) (stillOpen : peer.input.closed = false)
      (positive : 0 < length) (queued : length ≤ peer.input.queue.length)
      (chunked : length ≤ peer.limits.chunk)
      (affordable : peer.input.credit.window.cost length ≤ peer.input.credit.available) :
      Emits peer capacity { peer.sentInput length with turn := turn }
        (some (.input (peer.input.queue.take length)))
  | inputEnd (turn : Nat) (speaks : peer.Speaks)
      (stillOpen : peer.input.closed = false) (ended : peer.input.ended = true)
      (empty : peer.input.queue = []) (first : peer.input.endSent = false) :
      Emits peer capacity
        { peer with
          input := { peer.input with endSent := true }
          turn := turn }
        (some .inputEnd)
  | nothing (quiet : peer.Speaks → peer.Quiet capacity) : Emits peer capacity peer none

theorem nextCredit_cases (small : (peer.windows index).opened < wordSize 32)
    (speaks : peer.Speaks) (named : peer.limits.outputPool pool = .ok index) (capacity : Nat) :
    peer.nextCredit index pool = (peer, none) ∨
      ∃ next message, peer.nextCredit index pool = (next, some message) ∧
        ∀ turn, Emits peer capacity { next with turn := turn } (some message) := by
  unfold nextCredit
  split
  · exact .inl rfl
  · rename_i running
    split
    · exact .inl rfl
    · rename_i stillOpen
      rcases Nat.eq_zero_or_pos (peer.windows index).returnable with
        zero | positive
      · rw [Granted.takeGrant_of_zero small zero]
        refine .inl ?_
        simp [setWindow]
      · refine .inr ⟨peer.setWindow index (peer.windows index).takeGrant.1,
          .credit pool (peer.windows index).returnable, ?_, fun turn => ?_⟩
        · simp [Granted.takeGrant, positive]
        · exact .credit index pool turn speaks named (by simpa using running)
            (by simpa using stillOpen) positive

theorem nextInput_cases (speaks : peer.Speaks) (capacity : Nat) :
    peer.nextInput capacity = (peer, none) ∨
      ∃ next message, peer.nextInput capacity = (next, some message) ∧
        ∀ turn, Emits peer capacity { next with turn := turn } (some message) := by
  unfold nextInput
  split
  · exact .inl rfl
  · rename_i opened
    have stillOpen : peer.input.closed = false := Bool.eq_false_iff.mpr opened
    have bounded := Credit.sendable_le peer.input.credit
      (min (min peer.input.queue.length peer.limits.chunk) capacity)
    simp only
    split
    · rename_i positive
      rw [take_of_le (by omega) (by omega)]
      exact .inr ⟨_, _, rfl, fun turn => .input _ turn speaks stillOpen positive
        (by omega) (by omega) (Credit.cost_sendable_le positive)⟩
    · split
      · rename_i ending
        simp only [Bool.and_eq_true, List.isEmpty_iff, Bool.not_eq_true'] at ending
        exact .inr ⟨_, _, rfl, fun turn => .inputEnd turn speaks stillOpen
          ending.1.1 ending.1.2 ending.2⟩
      · exact .inl rfl

theorem nextFrom_cases (small : ∀ index, (peer.windows index).opened < wordSize 32)
    (speaks : peer.Speaks) (capacity source : Nat) :
    peer.nextFrom capacity source = (peer, none) ∨
      ∃ next message, peer.nextFrom capacity source = (next, some message) ∧
        ∀ turn, Emits peer capacity { next with turn := turn } (some message) := by
  unfold nextFrom Limits.outputPools
  cases shared : peer.limits.shared with
  | true =>
    have named : peer.limits.outputPool .output = .ok 0 := by
      simp [Limits.outputPool, shared]
    match source with
    | 0 => exact nextCredit_cases (small 0) speaks named capacity
    | 1 => exact nextInput_cases speaks capacity
    | _ + 2 => exact nextInput_cases speaks capacity
  | false =>
    have first : peer.limits.outputPool .stdout = .ok 0 := by
      simp [Limits.outputPool, shared]
    have second : peer.limits.outputPool .stderr = .ok 1 := by
      simp [Limits.outputPool, shared]
    match source with
    | 0 => exact nextCredit_cases (small 0) speaks first capacity
    | 1 => exact nextCredit_cases (small 1) speaks second capacity
    | _ + 2 => exact nextInput_cases speaks capacity

theorem pollSources_cases (small : ∀ index, (peer.windows index).opened < wordSize 32)
    (speaks : peer.Speaks) (capacity sources offset rounds : Nat) :
    peer.pollSources capacity sources offset rounds = (peer, none) ∧
        (∀ round < rounds, peer.nextFrom capacity
          ((peer.turn + offset + round) % sources) = (peer, none)) ∨
      ∃ message, (peer.pollSources capacity sources offset rounds).2 = some message ∧
        Emits peer capacity (peer.pollSources capacity sources offset rounds).1 (some message) := by
  induction rounds generalizing offset with
  | zero => exact .inl ⟨rfl, by simp⟩
  | succ rounds induction =>
    unfold pollSources
    simp only
    rcases nextFrom_cases small speaks capacity ((peer.turn + offset) % sources) with
      none | ⟨next, message, sent, emits⟩
    · rw [none]
      rcases induction (offset + 1) with ⟨unsent, rest⟩ | later
      · refine .inl ⟨unsent, ?_⟩
        intro round bound
        cases round with
        | zero => exact none
        | succ round =>
          have moved := rest round (by omega)
          rwa [show peer.turn + offset + (round + 1) = peer.turn + (offset + 1) + round by omega]
      · exact .inr later
    · rw [sent]
      exact .inr ⟨message, rfl, emits _⟩

theorem exists_round (turn : Nat) (bound : source < sources) :
    ∃ round < sources, (turn + round) % sources = source := by
  have remainder := Nat.mod_lt turn (Nat.lt_of_le_of_lt (Nat.zero_le _) bound)
  refine ⟨(source + (sources - turn % sources)) % sources, Nat.mod_lt _ (by omega), ?_⟩
  rw [Nat.add_mod_mod, Nat.add_mod, Nat.add_mod source]
  rcases Nat.eq_zero_or_pos (turn % sources) with zero | positive
  · simp [zero, Nat.mod_eq_of_lt bound]
  · rw [Nat.mod_eq_of_lt (show sources - turn % sources < sources by omega),
      Nat.mod_eq_of_lt bound, Nat.add_mod_mod,
      show turn % sources + (source + (sources - turn % sources)) =
        source + sources by omega, Nat.add_mod_right, Nat.mod_eq_of_lt bound]

theorem nextMessage_emits (small : ∀ index, (peer.windows index).opened < wordSize 32)
    (capacity : Nat) :
    Emits peer capacity (peer.nextMessage capacity).1 (peer.nextMessage capacity).2 := by
  unfold nextMessage
  split
  · rename_i gone
    refine .nothing fun speaks => ?_
    simp [speaks.unfinished, speaks.attached] at gone
  · rename_i present
    simp only [Bool.or_eq_true, not_or, Bool.not_eq_true] at present
    have speaks : peer.Speaks := ⟨present.1, present.2⟩
    split
    · rename_i waiting
      exact .cancel speaks waiting
    · rename_i uncancelled
      simp only
      rcases pollSources_cases small speaks capacity (peer.limits.outputPools.length + 1) 0
          (peer.limits.outputPools.length + 1) with
        ⟨unsent, quiet⟩ | ⟨message, sent, emits⟩
      · rw [unsent]
        refine .nothing fun _ => ⟨Bool.eq_false_iff.mpr uncancelled, ?_⟩
        intro source bound
        obtain ⟨round, inRange, reaches⟩ := exists_round peer.turn bound
        simpa [reaches] using quiet round inRange
      · rw [sent]
        exact emits

/-- What `next_event` returns, and the flag that it sets or clears. -/
inductive Tells (peer : Peer) : Peer → Option Event → Prop
  | started (waiting : peer.startedEvent = true) :
      Tells peer { peer with startedEvent := false } (some .started)
  | inputClosed (waiting : peer.input.closedEvent = true) : Tells peer
        (peer.setInput { peer.input with closedEvent := false })
        (some .inputClosed)
  | streamEnd (stream : Stream) (ending : peer.endsNow stream = true) : Tells peer
        (peer.setOutput stream { peer.outputs stream with endEvent := true })
        (some (.streamEnd stream))
  | finished (outcome : Outcome) (ended : peer.outcome = some outcome)
      (unfinished : peer.finished = false) :
      Tells peer { peer with finished := true } (some (.finished outcome))
  | nothing (quiet : peer.finished = false →
        peer.startedEvent = false ∧ peer.input.closedEvent = false ∧
          (∀ stream, peer.endsNow stream = false) ∧ peer.outcome = none) :
      Tells peer peer none

theorem nextEvent_tells (peer : Peer) : Tells peer peer.nextEvent.1 peer.nextEvent.2 := by
  unfold nextEvent
  split
  · rename_i finished
    exact .nothing (by simp [finished])
  · rename_i ongoing
    split
    · rename_i waiting
      exact .started waiting
    · rename_i started
      split
      · rename_i waiting
        exact .inputClosed waiting
      · rename_i closed
        split
        · rename_i ending
          exact .streamEnd .stdout ending
        · rename_i stdout
          split
          · rename_i ending
            exact .streamEnd .stderr ending
          · rename_i stderr
            split
            · rename_i none
              refine .nothing fun _ => ⟨Bool.eq_false_iff.mpr started,
                Bool.eq_false_iff.mpr closed, ?_, none⟩
              rw [Stream.forall_iff]
              exact ⟨Bool.eq_false_iff.mpr stdout, Bool.eq_false_iff.mpr stderr⟩
            · rename_i outcome ended
              exact .finished outcome ended (Bool.eq_false_iff.mpr ongoing)

/-- What the `allowed` local calls have to keep for `holds` to persist across
them in the states that satisfy `Inv`. -/
structure LocallyKept (allowed : LocalCall → Prop) (Inv holds : Peer → Prop) : Prop where
  change : ∀ {peer next}, Change peer next → Inv peer → holds peer → holds next
  takeInput : ∀ {peer} bytes, allowed (.input bytes) → Inv peer →
    holds peer → holds (peer.takeInput bytes).1
  endInput : ∀ {peer}, allowed .endInput → peer.input.closed = false → Inv peer → holds peer →
      holds (peer.setInput { peer.input with ended := true })
  consumed : ∀ {peer} stream bytes, allowed (.consumed stream bytes) →
    Inv peer → holds peer → holds (peer.consumed stream bytes)
  tells : ∀ {peer next event}, Tells peer next event → Inv peer → holds peer → holds next

structure RemotelyKept (Inv holds : Peer → Prop) : Prop where
  change : ∀ {peer next}, Change peer next → Inv peer → holds peer → holds next
  grant : ∀ {peer units granted}, peer.input.credit.grant units = .ok granted →
    peer.ignoresRunner = false → Inv peer → holds peer →
      holds (peer.setInput { peer.input with credit := granted })
  started : ∀ {peer}, peer.ignoresRunner = false → peer.started = false →
    peer.terminal = none → Inv peer → holds peer →
      holds { peer with started := true, startedEvent := true }
  charge : ∀ {peer stream window} {bytes : List UInt8},
    (peer.windows (peer.limits.poolOf stream)).charge bytes.length = .ok window →
    0 < bytes.length ∧ bytes.length ≤ peer.limits.chunk →
    peer.ignoresRunner = false → (peer.outputs stream).ended = false →
    Inv peer → holds peer → holds (if (peer.outputs stream).discarding then
          peer.refuseOutput stream window bytes
        else peer.holdOutput stream window bytes)
  endOutput : ∀ {peer} stream, peer.ignoresRunner = false →
    (peer.outputs stream).ended = false → Inv peer → holds peer →
      holds (peer.setOutput stream { peer.outputs stream with ended := true })
  terminal : ∀ {peer} outcome, peer.ignoresRunner = false →
    peer.terminal = none → (∀ stream, (peer.outputs stream).ended = true) →
    peer.input.closed = true → Inv peer → holds peer → holds (peer.recordTerminal outcome)

structure KeptUnder (Inv holds : Peer → Prop) : Prop extends
    LocallyKept (fun _ => True) Inv holds, RemotelyKept Inv holds where
  emits : ∀ {peer next capacity message}, Emits peer capacity next message →
    Inv peer → holds peer → holds next

abbrev Kept : (Peer → Prop) → Prop := KeptUnder fun _ => True

theorem LocallyKept.and {allowed : LocalCall → Prop} {Inv holds : Peer → Prop} (inv : Kept Inv)
    (kept : LocallyKept allowed Inv holds) :
    LocallyKept allowed (fun _ => True) fun peer => Inv peer ∧ holds peer where
  change := fun change _ held =>
    ⟨inv.change change trivial held.1, kept.change change held.1 held.2⟩
  takeInput := fun bytes permitted _ held =>
    ⟨inv.takeInput bytes trivial trivial held.1, kept.takeInput bytes permitted held.1 held.2⟩
  endInput := fun permitted stillOpen _ held =>
    ⟨inv.endInput trivial stillOpen trivial held.1, kept.endInput permitted stillOpen held.1 held.2⟩
  consumed := fun stream bytes permitted _ held =>
    ⟨inv.consumed stream bytes trivial trivial held.1,
      kept.consumed stream bytes permitted held.1 held.2⟩
  tells := fun tells _ held =>
    ⟨inv.tells tells trivial held.1, kept.tells tells held.1 held.2⟩

theorem RemotelyKept.and {Inv holds : Peer → Prop} (inv : Kept Inv)
    (kept : RemotelyKept Inv holds) :
    RemotelyKept (fun _ => True) fun peer => Inv peer ∧ holds peer where
  change := fun change _ held =>
    ⟨inv.change change trivial held.1, kept.change change held.1 held.2⟩
  grant := fun accepted listening _ held =>
    ⟨inv.grant accepted listening trivial held.1, kept.grant accepted listening held.1 held.2⟩
  started := fun listening first running _ held =>
    ⟨inv.started listening first running trivial held.1,
      kept.started listening first running held.1 held.2⟩
  charge := fun charged sized listening unended _ held =>
    ⟨inv.charge charged sized listening unended trivial held.1,
      kept.charge charged sized listening unended held.1 held.2⟩
  endOutput := fun stream listening unended _ held =>
    ⟨inv.endOutput stream listening unended trivial held.1,
      kept.endOutput stream listening unended held.1 held.2⟩
  terminal := fun outcome listening first ended closed _ held =>
    ⟨inv.terminal outcome listening first ended closed trivial held.1,
      kept.terminal outcome listening first ended closed held.1 held.2⟩

theorem KeptUnder.and {Inv holds : Peer → Prop} (inv : Kept Inv) (kept : KeptUnder Inv holds) :
    Kept fun peer => Inv peer ∧ holds peer :=
  { LocallyKept.and inv kept.toLocallyKept,
    RemotelyKept.and inv kept.toRemotelyKept with
    emits := fun emits _ held =>
      ⟨inv.emits emits trivial held.1, kept.emits emits held.1 held.2⟩ }

theorem KeptUnder.mono {Inv weaker holds : Peer → Prop} (kept : KeptUnder weaker holds)
    (implies : ∀ {peer}, Inv peer → weaker peer) : KeptUnder Inv holds where
  change := fun change inv => kept.change change (implies inv)
  takeInput := fun bytes permitted inv =>
    kept.takeInput bytes permitted (implies inv)
  endInput := fun permitted stillOpen inv =>
    kept.endInput permitted stillOpen (implies inv)
  consumed := fun stream bytes permitted inv =>
    kept.consumed stream bytes permitted (implies inv)
  tells := fun tells inv => kept.tells tells (implies inv)
  grant := fun accepted listening inv =>
    kept.grant accepted listening (implies inv)
  started := fun listening first running inv =>
    kept.started listening first running (implies inv)
  charge := fun charged sized listening unended inv =>
    kept.charge charged sized listening unended (implies inv)
  endOutput := fun stream listening unended inv =>
    kept.endOutput stream listening unended (implies inv)
  terminal := fun outcome listening first ended closed inv =>
    kept.terminal outcome listening first ended closed (implies inv)
  emits := fun emits inv => kept.emits emits (implies inv)

theorem LocallyKept.evolves (kept : LocallyKept allowed (fun _ => True) holds)
    (chain : Evolves peer next) (held : holds peer) :
    holds next :=
  chain.preserves (fun _ _ change => kept.change change trivial) held

theorem LocallyKept.act (kept : LocallyKept allowed (fun _ => True) holds)
    (peer : Peer) (permitted : allowed call) (held : holds peer) : holds (peer.act call).1 := by
  have evolves {next : Peer} (chain : Evolves peer next) : holds next :=
    kept.evolves chain held
  cases call with
  | input bytes => exact kept.takeInput bytes permitted trivial held
  | endInput =>
    simp only [Peer.act, Peer.endInput]
    split
    · rename_i stillOpen
      exact kept.endInput permitted (by simpa using stillOpen) trivial held
    · exact held
  | consumed stream bytes =>
    exact kept.consumed stream bytes permitted trivial held
  | cancel now => exact evolves (peer.cancel_evolves now)
  | dropped now => exact evolves (peer.dropped_evolves now)
  | reset now => exact evolves (peer.detach_evolves now .reset)
  | disconnect now => exact evolves (peer.detach_evolves now .disconnected)
  | tick now => exact evolves (peer.tick_evolves now)
  | nextEvent => exact kept.tells peer.nextEvent_tells trivial held

theorem RemotelyKept.evolves (kept : RemotelyKept (fun _ => True) holds)
    (chain : Evolves peer next) (held : holds peer) :
    holds next :=
  chain.preserves (fun _ _ change => kept.change change trivial) held

theorem RemotelyKept.receive (kept : RemotelyKept (fun _ => True) holds)
    (peer : Peer) (now : Instant) (key : Key) (message : Runner.Message)
    (held : holds peer) : holds (peer.receive now key message).1 := by
  cases message with
  | credit units =>
    rcases peer.receiveCredit_cases key units with
      same | ⟨granted, accepted, listening, granting⟩
    · simpa only [Peer.receive, same] using held
    · simp only [Peer.receive, granting]
      exact kept.grant accepted listening trivial held
  | started =>
    rcases peer.receiveStarted_cases key with
      same | ⟨listening, first, running, starting⟩
    · simpa only [Peer.receive, same] using held
    · simp only [Peer.receive, starting]
      exact kept.started listening first running trivial held
  | output stream bytes =>
    rcases peer.output_cases key stream bytes with
      same | ⟨window, charged, sized, listening, unended, accepted⟩
    · simpa only [Peer.receive, same] using held
    · simp only [Peer.receive, accepted]
      exact kept.charge charged sized listening unended trivial held
  | streamEnd stream =>
    rcases peer.endOutput_cases key stream with
      same | ⟨listening, unended, ending⟩
    · simpa only [Peer.receive, same] using held
    · simp only [Peer.receive, ending]
      exact kept.endOutput stream listening unended trivial held
  | inputClosed => exact kept.evolves (peer.inputClosed_evolves key) held
  | terminal outcome =>
    have ticked : holds (peer.tick now) :=
      kept.evolves (peer.tick_evolves now) held
    rcases peer.receiveTerminal_cases now key outcome with
      same | ticks | ⟨listening, first, ended, accepted⟩
    · simpa only [Peer.receive, same] using held
    · simpa only [Peer.receive, ticks] using ticked
    · simp only [Peer.receive, accepted]
      have unfinished : (peer.tick now).finished = false := by
        simp only [ignoresRunner, Bool.or_eq_false_iff] at listening
        exact listening.1.1
      have closed : holds (peer.tick now).closeInput :=
        kept.evolves (closeInput_evolves _) ticked
      refine kept.evolves (acceptTerminal_evolves now outcome unfinished)
        (kept.terminal outcome ?_ ?_ ?_ ?_ trivial closed)
      · rw [closeInput_eq]
        exact listening
      · rw [closeInput_eq]
        exact first
      · rw [closeInput_eq]
        exact ended
      · exact closeInput_closed _

theorem Kept.step (kept : Kept holds)
    (small : ∀ index, (peer.windows index).opened < wordSize 32) (call : Call)
    (held : holds peer) : holds (peer.step call).1 := by
  cases call with
  | act call => exact kept.toLocallyKept.act peer trivial held
  | receive now key message =>
    exact kept.toRemotelyKept.receive peer now key message held
  | nextMessage capacity =>
    exact kept.emits (nextMessage_emits small capacity) trivial held

end Nvx.Exec.Peer
