import Nvx.Data.Machine
import Nvx.Exec.Credit

namespace Nvx.Exec

open Nvx.Data

namespace Peer

inductive Event where
  | started
  | streamEnd (stream : Stream)
  | inputClosed
  | finished (outcome : Outcome)
  deriving DecidableEq

structure Incoming where
  inbox : Inbox
  ended : Bool
  endEvent : Bool
  discarding : Bool
  truncated : Bool

namespace Incoming

def new (unit : CreditUnit) : Incoming where
  inbox := Inbox.new unit
  ended := false
  endEvent := false
  discarding := false
  truncated := false

def dropInbox (incoming : Incoming) : Incoming × Nat :=
  let cleared := incoming.inbox.clear
  ({ incoming with
      inbox := cleared.1
      truncated := incoming.truncated || decide (0 < cleared.2.1) },
    cleared.2.2)

end Incoming

structure Outgoing where
  queue : List UInt8
  credit : Credit
  ended : Bool
  endSent : Bool
  closed : Bool
  closedEvent : Bool

end Peer

open Peer in
/-- The peer's fields are the source's; `overflowed` marks a `usize`
subtraction of its own that left its word. -/
structure Peer where
  key : Key
  limits : Limits
  timers : Timers
  started : Bool
  startedEvent : Bool
  input : Outgoing
  outputs : Stream → Incoming
  windows : Fin 2 → Granted
  turn : Nat
  terminal : Option Outcome
  cause : Option Cause
  cancelMessage : Bool
  timeoutAt : Option Instant
  terminatedAt : Option Instant
  graceUntil : Option Instant
  giveUpAt : Option Instant
  gaveUp : Bool
  detached : Bool
  finished : Bool
  highWater : Nat
  overflowed : Bool

namespace Peer

def new (key : Key) (limits : Limits) (timers : Timers) (now : Instant) : Peer where
  key := key
  limits := limits
  timers := timers
  started := false
  startedEvent := false
  input := {
    queue := []
    credit := Credit.new limits.input
    ended := false
    endSent := false
    closed := false
    closedEvent := false }
  outputs := fun _ => Incoming.new limits.output.unit
  windows := fun _ => Granted.new limits.output
  turn := 0
  terminal := none
  cause := none
  cancelMessage := false
  timeoutAt := timers.timeout.bind (after now)
  terminatedAt := none
  graceUntil := none
  giveUpAt := none
  gaveUp := false
  detached := false
  finished := false
  highWater := 0
  overflowed := false

def setOutput (peer : Peer) (stream : Stream) (incoming : Incoming) : Peer :=
  { peer with outputs := Function.update peer.outputs stream incoming }

def setWindow (peer : Peer) (index : Fin 2) (window : Granted) : Peer :=
  { peer with windows := Function.update peer.windows index window }

def setInput (peer : Peer) (input : Outgoing) : Peer :=
  { peer with input := input }

def memoryBound (peer : Peer) : Nat :=
  saturatingAdd 64 peer.limits.chunk peer.limits.outputBytes

def buffered (peer : Peer) : Nat :=
  (peer.input.queue.length + ((peer.outputs .stdout).inbox.bytes.length +
      (peer.outputs .stderr).inbox.bytes.length)) % wordSize 64

def noteBuffered (peer : Peer) : Peer :=
  { peer with highWater := max peer.highWater peer.buffered }

def writeAllowance (peer : Peer) : Nat × Bool :=
  if peer.input.closed || peer.input.ended || peer.terminatedAt.isSome || peer.finished then
    (0, false)
  else overflowingSub 64 peer.limits.chunk peer.input.queue.length

def ignoresRunner (peer : Peer) : Bool :=
  peer.finished || peer.detached || peer.gaveUp

def isEmpty (peer : Peer) : Bool :=
  (peer.outputs .stdout).inbox.bytes.isEmpty && (peer.outputs .stderr).inbox.bytes.isEmpty

/-- The outcome that the peer starts from: the runner's, or its own. -/
def baseOutcome (peer : Peer) : Option Outcome :=
  match peer.terminal with
  | some terminal => some terminal
  | none =>
    if peer.detached || peer.gaveUp then
      some (((Outcome.new none).withTruncated .stdout).withTruncated .stderr)
    else none

/-- Adds what the peer itself knows: its cause, unless the outcome has one, and
the streams that it truncated. -/
def markOutcome (peer : Peer) (outcome : Outcome) : Outcome :=
  let outcome := match outcome.cause, peer.cause with
    | none, some cause => outcome.withCause cause
    | _, _ => outcome
  outcome.withTruncations fun stream => (peer.outputs stream).truncated

def outcome (peer : Peer) : Option Outcome :=
  if !peer.isEmpty then none else peer.baseOutcome.map peer.markOutcome

def closeInput (peer : Peer) : Peer :=
  if peer.input.closed then peer
  else
    peer.setInput { peer.input with
      closed := true
      queue := []
      closedEvent := !peer.input.endSent }

def discardStream (peer : Peer) (stream : Stream) : Peer :=
  let dropped :=
    { peer.outputs stream with discarding := true : Incoming }.dropInbox
  let peer := peer.setOutput stream dropped.1
  let index := peer.limits.poolOf stream
  peer.setWindow index ((peer.windows index).free dropped.2)

def endGrace (peer : Peer) : Peer :=
  let peer := { peer with graceUntil := none }
  (peer.discardStream .stdout).discardStream .stderr

def startGrace (peer : Peer) (now : Instant) : Peer :=
  { peer with graceUntil := after now peer.timers.grace }

/-- Sends the cancellation, and starts the wait for the terminal outcome, unless
that arrived. -/
def awaitTerminal (peer : Peer) : Peer :=
  if peer.terminal.isNone then
    { peer with
      cancelMessage := !peer.detached
      giveUpAt := peer.graceUntil.bind fun grace =>
        after grace peer.timers.settlement }
  else peer

def terminate (peer : Peer) (now : Instant) (cause : Cause) : Peer :=
  if peer.finished || peer.terminatedAt.isSome then peer
  else
    let peer := { peer with
      terminatedAt := some now
      timeoutAt := none
      cause := some cause }
    let peer := peer.closeInput
    let peer := peer.startGrace now
    let peer := peer.awaitTerminal
    if reached peer.graceUntil now then peer.endGrace else peer

def tickTimeout (peer : Peer) (now : Instant) : Peer :=
  if reached peer.timeoutAt now then
    { peer with timeoutAt := none }.terminate now .timedOut
  else peer

def tickGrace (peer : Peer) (now : Instant) : Peer :=
  if reached peer.graceUntil now then peer.endGrace else peer

def tickGiveUp (peer : Peer) (now : Instant) : Peer :=
  if reached peer.giveUpAt now then
    { peer with giveUpAt := none, gaveUp := true }.endGrace
  else peer

def tick (peer : Peer) (now : Instant) : Peer :=
  if peer.finished then peer
  else
    let peer := peer.tickTimeout now
    let peer := peer.tickGrace now
    peer.tickGiveUp now

def deadline (peer : Peer) : Option Instant :=
  if peer.finished then none
  else
    [peer.timeoutAt, peer.graceUntil, peer.giveUpAt].foldl earliest none

def cancel (peer : Peer) (now : Instant) : Peer :=
  (peer.tick now).terminate now .cancelled

def dropped (peer : Peer) (now : Instant) : Peer :=
  let peer := (peer.tick now).terminate now .dropped
  if !peer.finished then peer.endGrace else peer

def detach (peer : Peer) (now : Instant) (cause : Cause) : Peer :=
  let peer := peer.tick now
  if peer.finished || peer.detached then peer
  else
    let peer := peer.terminate now cause
    { peer with detached := true, cancelMessage := false, giveUpAt := none }

def receiveCredit (peer : Peer) (key : Key) (units : Nat) : Peer × Except Violation Receipt :=
  peer.key.receive key peer <|
    if peer.ignoresRunner then (peer, .ok .late)
    else
      match peer.input.credit.grant units with
      | .error violation => (peer, .error violation)
      | .ok credit =>
        let peer := peer.setInput { peer.input with credit := credit }
        if peer.input.closed || peer.input.endSent then (peer, .ok .late)
        else (peer, .ok .applied)

def receiveStarted (peer : Peer) (key : Key) : Peer × Except Violation Receipt :=
  peer.key.receive key peer <|
    if peer.ignoresRunner then (peer, .ok .late)
    else if peer.started || peer.terminal.isSome then (peer, .error .order)
    else ({ peer with started := true, startedEvent := true }, .ok .applied)

/-- Drops a charged message of a discarded stream, and frees its units. -/
def refuseOutput (peer : Peer) (stream : Stream) (window : Granted) (bytes : List UInt8) : Peer :=
  (peer.setOutput stream { peer.outputs stream with truncated := true
    }).setWindow (peer.limits.poolOf stream)
      (window.free (peer.limits.output.cost bytes.length))

def holdOutput (peer : Peer) (stream : Stream) (window : Granted) (bytes : List UInt8) : Peer :=
  ((peer.setOutput stream { peer.outputs stream with
      inbox := (peer.outputs stream).inbox.push bytes
    }).setWindow (peer.limits.poolOf stream) window).noteBuffered

def output (peer : Peer) (key : Key) (stream : Stream) (bytes : List UInt8) :
    Peer × Except Violation Receipt :=
  peer.key.receive key peer <|
    if peer.ignoresRunner then (peer, .ok .late)
    else if (peer.outputs stream).ended then (peer, .error .ended)
    else
      match peer.limits.checkChunk bytes.length with
      | .error violation => (peer, .error violation)
      | .ok () =>
        match (peer.windows (peer.limits.poolOf stream)).charge bytes.length with
        | .error violation => (peer, .error violation)
        | .ok window =>
          if (peer.outputs stream).discarding then
            (peer.refuseOutput stream window bytes, .ok .late)
          else (peer.holdOutput stream window bytes, .ok .applied)

def endOutput (peer : Peer) (key : Key) (stream : Stream) : Peer × Except Violation Receipt :=
  peer.key.receive key peer <|
    if peer.ignoresRunner then (peer, .ok .late)
    else if (peer.outputs stream).ended then (peer, .error .ended)
    else
      (peer.setOutput stream { peer.outputs stream with ended := true }, .ok .applied)

def inputClosed (peer : Peer) (key : Key) : Peer × Except Violation Receipt :=
  peer.key.receive key peer <|
    if peer.ignoresRunner || peer.input.closed || peer.input.endSent then
      (peer, .ok .late)
    else (peer.closeInput, .ok .applied)

def acceptTerminal (peer : Peer) (now : Instant) (outcome : Outcome) : Peer :=
  let peer := { peer with
    terminal := some outcome
    giveUpAt := none
    timeoutAt := none
    cancelMessage := false }
  let peer := peer.closeInput
  if outcome.cause.isSome && peer.terminatedAt.isNone then
    let peer := { peer with terminatedAt := some now }.startGrace now
    if reached peer.graceUntil now then peer.endGrace else peer
  else peer

def receiveTerminal (peer : Peer) (now : Instant) (key : Key)
    (outcome : Outcome) : Peer × Except Violation Receipt :=
  peer.key.receive key peer <|
    let peer := peer.tick now
    if peer.ignoresRunner then (peer, .ok .late)
    else if peer.terminal.isSome then (peer, .error .ended)
    else if !((peer.outputs .stdout).ended && (peer.outputs .stderr).ended) then
      (peer, .error .order)
    else (peer.acceptTerminal now outcome, .ok .applied)

def takeInput (peer : Peer) (bytes : List UInt8) : Peer × Nat :=
  let allowance := peer.writeAllowance
  let length := min bytes.length allowance.1
  let peer := peer.setInput { peer.input with
    queue := peer.input.queue ++ bytes.take length }
  ({ peer with overflowed := peer.overflowed || allowance.2 }.noteBuffered, length)

def endInput (peer : Peer) : Peer :=
  if !peer.input.closed then peer.setInput { peer.input with ended := true }
  else peer

def PendingOutput (peer : Peer) (stream : Stream) (slice : List UInt8) : Prop :=
  (peer.outputs stream).inbox.Front slice

def consumed (peer : Peer) (stream : Stream) (bytes : Nat) : Peer :=
  let popped := (peer.outputs stream).inbox.pop bytes
  let peer := peer.setOutput stream { peer.outputs stream with
    inbox := popped.1 }
  let index := peer.limits.poolOf stream
  peer.setWindow index ((peer.windows index).free popped.2)

def poolOpen (peer : Peer) (index : Fin 2) : Bool :=
  let openIn (stream : Stream) : Bool :=
    decide (peer.limits.poolOf stream = index) && !(peer.outputs stream).ended
  openIn .stdout || openIn .stderr

def nextCredit (peer : Peer) (index : Fin 2) (pool : Pool) : Peer × Option Message :=
  if peer.terminal.isSome then (peer, none)
  else if !peer.poolOpen index then (peer, none)
  else
    let granted := (peer.windows index).takeGrant
    (peer.setWindow index granted.1, granted.2.map (.credit pool))

def nextInput (peer : Peer) (capacity : Nat) : Peer × Option Message :=
  if peer.input.closed then (peer, none)
  else
    let wanted :=
      min (min peer.input.queue.length peer.limits.chunk) capacity
    let length := peer.input.credit.sendable wanted
    if 0 < length then
      let moved := take peer.input.queue capacity length
      (peer.setInput { peer.input with
          queue := moved.2
          credit := peer.input.credit.spend length },
        some (.input moved.1))
    else if peer.input.ended && peer.input.queue.isEmpty && !peer.input.endSent then
      (peer.setInput { peer.input with endSent := true }, some .inputEnd)
    else (peer, none)

/-- The message of one source: the credit of the output pool at its position,
or, past the pools, the input. -/
def nextFrom (peer : Peer) (capacity source : Nat) : Peer × Option Message :=
  match source, peer.limits.outputPools with
  | 0, pool :: _ => peer.nextCredit 0 pool
  | 1, _ :: pool :: _ => peer.nextCredit 1 pool
  | _, _ => peer.nextInput capacity

/-- The loop over the sources from the one whose turn it is, `rounds` of which
are left. -/
def pollSources (peer : Peer) (capacity sources : Nat) :
    (offset rounds : Nat) → Peer × Option Message
  | _, 0 => (peer, none)
  | offset, rounds + 1 =>
    let source := (peer.turn + offset) % sources
    match peer.nextFrom capacity source with
    | (peer, some message) =>
      ({ peer with turn := (source + 1) % sources }, some message)
    | (peer, none) => peer.pollSources capacity sources (offset + 1) rounds

/-- `capacity` is the length of the buffer that the adapter lends. -/
def nextMessage (peer : Peer) (capacity : Nat) : Peer × Option Message :=
  if peer.finished || peer.detached then (peer, none)
  else if peer.cancelMessage then
    ({ peer with cancelMessage := false }, some (.cancel (peer.cause.getD .cancelled)))
  else
    let sources := peer.limits.outputPools.length + 1
    peer.pollSources capacity sources 0 sources

def endsNow (peer : Peer) (stream : Stream) : Bool :=
  (peer.outputs stream).ended &&
    (peer.outputs stream).inbox.bytes.isEmpty && !(peer.outputs stream).endEvent

def tellEnd (peer : Peer) (stream : Stream) : Peer × Option Event :=
  (peer.setOutput stream { peer.outputs stream with endEvent := true }, some (.streamEnd stream))

def nextEvent (peer : Peer) : Peer × Option Event :=
  if peer.finished then (peer, none)
  else if peer.startedEvent then
    ({ peer with startedEvent := false }, some .started)
  else if peer.input.closedEvent then
    (peer.setInput { peer.input with closedEvent := false }, some .inputClosed)
  else if peer.endsNow .stdout then peer.tellEnd .stdout
  else if peer.endsNow .stderr then peer.tellEnd .stderr
  else
    match peer.outcome with
    | none => (peer, none)
    | some outcome =>
      ({ peer with finished := true }, some (.finished outcome))

inductive LocalCall where
  | input (bytes : List UInt8)
  | endInput
  | consumed (stream : Stream) (bytes : Nat)
  | cancel (now : Instant)
  | dropped (now : Instant)
  | reset (now : Instant)
  | disconnect (now : Instant)
  | tick (now : Instant)
  | nextEvent

/-- `receive` hands over a message of the runner's, with any key. -/
inductive Call where
  | act (call : LocalCall)
  | receive (now : Instant) (key : Key) (message : Runner.Message)
  | nextMessage (capacity : Nat)

/-- `consumed` names the bytes of the pending output that the sink took. -/
inductive Return where
  | done
  | taken (count : Nat)
  | consumed (bytes : List UInt8)
  | event (event : Option Event)
  | received (receipt : Except Violation Receipt)
  | message (message : Option Message)

def act (peer : Peer) : LocalCall → Peer × Return
  | .input bytes => ((peer.takeInput bytes).1, .taken (peer.takeInput bytes).2)
  | .endInput => (peer.endInput, .done)
  | .consumed stream bytes =>
    (peer.consumed stream bytes, .consumed ((peer.outputs stream).inbox.bytes.take bytes))
  | .cancel now => (peer.cancel now, .done)
  | .dropped now => (peer.dropped now, .done)
  | .reset now => (peer.detach now .reset, .done)
  | .disconnect now => (peer.detach now .disconnected, .done)
  | .tick now => (peer.tick now, .done)
  | .nextEvent => (peer.nextEvent.1, .event peer.nextEvent.2)

def receive (peer : Peer) (now : Instant) (key : Key) :
    Runner.Message → Peer × Except Violation Receipt
  | .credit units => peer.receiveCredit key units
  | .started => peer.receiveStarted key
  | .output stream bytes => peer.output key stream bytes
  | .streamEnd stream => peer.endOutput key stream
  | .inputClosed => peer.inputClosed key
  | .terminal outcome => peer.receiveTerminal now key outcome

def step (peer : Peer) : Call → Peer × Return
  | .act call => peer.act call
  | .receive now key message =>
    ((peer.receive now key message).1, .received (peer.receive now key message).2)
  | .nextMessage capacity =>
    ((peer.nextMessage capacity).1, .message (peer.nextMessage capacity).2)

def machine : Machine Peer Call Return := ⟨step⟩

end Peer

end Nvx.Exec
