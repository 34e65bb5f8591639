import Nvx.Data.Machine
import Nvx.Exec.Credit

namespace Nvx.Exec

open Nvx.Data

namespace Runner

inductive Request where
  | terminate (cause : Cause)
  | discard (stream : Stream)
  | closeInput
  | settle
  deriving DecidableEq

structure Output where
  queue : List UInt8
  closed : Bool
  hungUp : Bool
  ended : Bool
  discarding : Bool
  discardRequested : Bool
  truncated : Bool

namespace Output

def new : Output where
  queue := []
  closed := false
  hungUp := false
  ended := false
  discarding := false
  discardRequested := false
  truncated := false

def isDone (output : Output) : Bool := output.closed && output.queue.isEmpty

def dropQueue (output : Output) : Output :=
  { output with
    truncated := output.truncated || !output.queue.isEmpty
    queue := [] }

def endGrace (output : Output) : Output :=
  let output := output.dropQueue
  if !output.closed && !output.discarding then
    { output with discarding := true, discardRequested := true }
  else output

def giveUp (output : Output) : Output :=
  let output := output.dropQueue
  if !output.closed then { output with closed := true, truncated := true }
  else output

def abandon (output : Output) : Output :=
  if !output.closed && !output.hungUp then
    { output with closed := true, truncated := true }
  else output

end Output

structure Input where
  inbox : Inbox
  window : Granted
  peerEnded : Bool
  closed : Bool
  closeRequested : Bool
  closedMessage : Bool

inductive Settling where
  | idle
  | requested (by_ : Option Instant)
  | settled
  | fenced
  deriving DecidableEq

end Runner

open Runner in
/-- The runner's fields are the source's; `overflowed` marks a `usize`
subtraction of its own that left its word. -/
structure Runner where
  key : Key
  limits : Limits
  timers : Timers
  launch : Option (Except LaunchFailure Unit)
  startedMessage : Bool
  exit : Option (Option Status)
  cause : Option Cause
  terminateRequest : Option Cause
  settleRequest : Bool
  timeoutAt : Option Instant
  terminatedAt : Option Instant
  graceUntil : Option Instant
  giveUpAt : Option Instant
  abandonAt : Option Instant
  gaveUp : Bool
  launchAbandoned : Bool
  detached : Bool
  outputs : Stream → Output
  credits : Fin 2 → Credit
  turn : Stream
  credited : Bool
  input : Input
  settling : Settling
  finished : Bool
  highWater : Nat
  overflowed : Bool

namespace Runner

def new (key : Key) (limits : Limits) (timers : Timers) (now : Instant) : Runner where
  key := key
  limits := limits
  timers := timers
  launch := none
  startedMessage := false
  exit := none
  cause := none
  terminateRequest := none
  settleRequest := false
  timeoutAt := timers.timeout.bind (after now)
  terminatedAt := none
  graceUntil := none
  giveUpAt := none
  abandonAt := none
  gaveUp := false
  launchAbandoned := false
  detached := false
  outputs := fun _ => Output.new
  credits := fun _ => Credit.new limits.output
  turn := .stdout
  credited := false
  input := {
    inbox := Inbox.new limits.input.unit
    window := Granted.new limits.input
    peerEnded := false
    closed := false
    closeRequested := false
    closedMessage := false }
  settling := .idle
  finished := false
  highWater := 0
  overflowed := false

def setOutput (runner : Runner) (stream : Stream) (output : Output) : Runner :=
  { runner with outputs := Function.update runner.outputs stream output }

def setInput (runner : Runner) (input : Input) : Runner :=
  { runner with input := input }

def memoryBound (runner : Runner) : Nat :=
  saturatingAdd 64 (saturatingMul 64 runner.limits.chunk 2) runner.limits.inputBytes

def buffered (runner : Runner) : Nat :=
  ((runner.outputs .stdout).queue.length + (runner.outputs .stderr).queue.length +
      runner.input.inbox.bytes.length) % wordSize 64

def noteBuffered (runner : Runner) : Runner :=
  { runner with highWater := max runner.highWater runner.buffered }

def readAllowance (runner : Runner) (stream : Stream) : Nat × Bool :=
  let output := runner.outputs stream
  if output.closed || output.discarding || runner.gaveUp then (0, false)
  else overflowingSub 64 runner.limits.chunk output.queue.length

def inputAccepts (runner : Runner) : Bool :=
  !runner.input.closed && !runner.input.peerEnded

def awaitsLaunch (runner : Runner) : Bool :=
  runner.launch.isNone && !runner.gaveUp && !runner.launchAbandoned

def awaitsSettlement (runner : Runner) : Bool :=
  match runner.settling with
  | .requested _ => true
  | _ => false

def isCleanedUp (runner : Runner) : Bool :=
  runner.launch.isSome && runner.exit.isSome &&
    ((runner.outputs .stdout).closed && (runner.outputs .stderr).closed) &&
      decide (runner.settling = .settled)

/-- Whether the stream is done, and its end sent if a peer is left. -/
def delivered (runner : Runner) (stream : Stream) : Bool :=
  (runner.outputs stream).isDone && ((runner.outputs stream).ended || runner.detached)

def isSettled (runner : Runner) : Bool :=
  decide (runner.settling = .settled) || decide (runner.settling = .fenced)

/-- The outcome that `outcome` builds once everything that it reports is
known. -/
def knownOutcome (runner : Runner) : Outcome :=
  let outcome := Outcome.new runner.exit.join
  let outcome := match runner.cause with
    | some cause => outcome.withCause cause
    | none => outcome
  let outcome := match runner.launch with
    | some (.error failure) => outcome.withLaunchFailure failure
    | _ => outcome
  let outcome := outcome.withTruncations fun stream =>
    (runner.outputs stream).truncated
  if runner.settling = .settled then outcome.withReusable else outcome

def outcome (runner : Runner) : Option Outcome :=
  let delivered := runner.delivered .stdout && runner.delivered .stderr
  if runner.awaitsLaunch || runner.exit.isNone || !delivered || !runner.isSettled then
    none
  else some runner.knownOutcome

def closeInputWhenTaken (runner : Runner) : Runner :=
  if runner.input.peerEnded && !runner.input.closed && runner.input.inbox.bytes.isEmpty then
    runner.setInput { runner.input with closed := true, closeRequested := true }
  else runner

def closeInput (runner : Runner) : Runner :=
  if runner.input.closed then runner
  else
    runner.setInput { runner.input with
      closed := true
      inbox := runner.input.inbox.clear.1
      closedMessage := !runner.input.peerEnded && !runner.detached }

def endGrace (runner : Runner) : Runner :=
  { runner with
    graceUntil := none
    outputs := fun stream => (runner.outputs stream).endGrace }

def giveUp (runner : Runner) : Runner :=
  { runner with
    giveUpAt := none
    graceUntil := none
    gaveUp := true
    outputs := fun stream => (runner.outputs stream).giveUp
    exit := if runner.exit.isNone then some none else runner.exit
    settling := .fenced
    settleRequest := false }

def abandonLaunch (runner : Runner) : Runner :=
  { runner with launchAbandoned := true, settling := .fenced }

def abandonOpenStreams (runner : Runner) : Runner :=
  { runner with
    abandonAt := none
    outputs := fun stream => (runner.outputs stream).abandon }

/-- Names the workload's cause, and asks to end it, if it still runs. -/
def requestTermination (runner : Runner) (cause : Cause) : Runner :=
  if runner.exit.isNone then
    { runner with cause := some cause, terminateRequest := some cause }
  else runner

/-- Starts the grace of pending output and the wait that follows it. -/
def startGrace (runner : Runner) (now : Instant) : Runner :=
  let graceUntil := after now runner.timers.grace
  { runner with
    graceUntil := graceUntil
    giveUpAt := graceUntil.bind fun grace =>
      after grace runner.timers.settlement }

def terminate (runner : Runner) (now : Instant) (cause : Cause) : Runner :=
  if runner.terminatedAt.isSome then runner
  else
    let runner := { runner with terminatedAt := some now, timeoutAt := none }
    let runner := runner.requestTermination cause
    let runner := runner.closeInput
    let runner := runner.startGrace now
    if reached runner.graceUntil now then runner.endGrace else runner

def tickTimeout (runner : Runner) (now : Instant) : Runner :=
  if reached runner.timeoutAt now then
    { runner with timeoutAt := none }.terminate now .timedOut
  else runner

def tickGrace (runner : Runner) (now : Instant) : Runner :=
  if reached runner.graceUntil now then runner.endGrace else runner

def tickSettlement (runner : Runner) (now : Instant) : Runner :=
  match runner.settling with
  | .requested (some by_) =>
    if by_ ≤ now then { runner with settling := .fenced } else runner
  | _ => runner

def tickGiveUp (runner : Runner) (now : Instant) : Runner :=
  if reached runner.giveUpAt now then
    if runner.isCleanedUp then { runner with giveUpAt := none }
    else runner.giveUp
  else runner

def tickAbandon (runner : Runner) (now : Instant) : Runner :=
  if reached runner.abandonAt now then
    let runner := if runner.awaitsLaunch then runner.abandonLaunch else runner
    if runner.settling = .fenced then runner.abandonOpenStreams else runner
  else runner

def tick (runner : Runner) (now : Instant) : Runner :=
  if runner.finished then runner
  else
    let runner := runner.tickTimeout now
    let runner := runner.tickGrace now
    let runner := runner.tickSettlement now
    let runner := runner.tickGiveUp now
    runner.tickAbandon now

def deadline (runner : Runner) : Option Instant :=
  if runner.finished then none
  else
    let settlement := match runner.settling with
      | .requested by_ => by_
      | _ => none
    let giveUp := runner.giveUpAt.filter fun _ => !runner.isCleanedUp
    let stillOpen (stream : Stream) : Bool :=
      !(runner.outputs stream).closed && !(runner.outputs stream).hungUp
    let abandon := runner.abandonAt.filter fun _ =>
      runner.awaitsLaunch || decide (runner.settling = .fenced) &&
        (stillOpen .stdout || stillOpen .stderr)
    [runner.timeoutAt, runner.graceUntil, settlement, giveUp, abandon].foldl earliest none

def detach (runner : Runner) (now : Instant) (cause : Cause) : Runner :=
  let runner := runner.tick now
  if runner.finished || runner.detached then runner
  else
    let runner := runner.terminate now cause
    let runner := { runner with
      detached := true
      startedMessage := false
      input := { runner.input with closedMessage := false } }
    let runner := runner.endGrace
    { runner with
      giveUpAt :=
        earliest runner.giveUpAt (after now runner.timers.settlement) }

def credit (runner : Runner) (key : Key) (pool : Pool) (units : Nat) :
    Runner × Except Violation Receipt :=
  runner.key.receive key runner <|
    match runner.limits.outputPool pool with
    | .error violation => (runner, .error violation)
    | .ok index =>
      if runner.finished then (runner, .ok .late)
      else
        match (runner.credits index).grant units with
        | .error violation => (runner, .error violation)
        | .ok credit =>
          ({ runner with
              credits := Function.update runner.credits index credit },
            .ok .applied)

def holdInput (runner : Runner) (bytes : List UInt8) : Runner :=
  (runner.setInput { runner.input with
    inbox := runner.input.inbox.push bytes }).noteBuffered

def receiveInput (runner : Runner) (key : Key) (bytes : List UInt8) :
    Runner × Except Violation Receipt :=
  runner.key.receive key runner <|
    if runner.finished then (runner, .ok .late)
    else if runner.input.peerEnded then (runner, .error .ended)
    else
      match runner.limits.checkChunk bytes.length with
      | .error violation => (runner, .error violation)
      | .ok () =>
        match runner.input.window.charge bytes.length with
        | .error violation => (runner, .error violation)
        | .ok window =>
          let runner := runner.setInput { runner.input with window := window }
          if runner.input.closed then (runner, .ok .late)
          else (runner.holdInput bytes, .ok .applied)

def endInput (runner : Runner) (key : Key) : Runner × Except Violation Receipt :=
  runner.key.receive key runner <|
    if runner.finished then (runner, .ok .late)
    else if runner.input.peerEnded then (runner, .error .ended)
    else
      let runner := runner.setInput { runner.input with peerEnded := true }
      if runner.input.closed then (runner, .ok .late)
      else (runner.closeInputWhenTaken, .ok .applied)

def cancel (runner : Runner) (now : Instant) (key : Key) (cause : Cause) :
    Runner × Except Violation Receipt :=
  runner.key.receive key runner <|
    let runner := runner.tick now
    if runner.finished || runner.terminatedAt.isSome then (runner, .ok .late)
    else (runner.terminate now cause, .ok .applied)

def launched (runner : Runner) (result : Except LaunchFailure Unit) : Runner :=
  if !runner.awaitsLaunch then runner
  else
    let runner := { runner with launch := some result }
    match result with
    | .ok () => { runner with startedMessage := !runner.detached }
    | .error _ => runner.closeInput

/-- The bytes of the stream taken are the first ones, as many as are counted. -/
def output (runner : Runner) (stream : Stream) (bytes : List UInt8) : Runner × Nat :=
  let output := runner.outputs stream
  if output.closed || runner.gaveUp then (runner, 0)
  else if output.discarding then
    (runner.setOutput stream { output with
        truncated := output.truncated || !bytes.isEmpty },
      bytes.length)
  else
    let room := overflowingSub 64 runner.limits.chunk output.queue.length
    let length := min bytes.length room.1
    let runner := runner.setOutput stream { output with
      queue := output.queue ++ bytes.take length }
    ({ runner with overflowed := runner.overflowed || room.2 }.noteBuffered, length)

def discarded (runner : Runner) (stream : Stream) (bytes : Nat) : Runner :=
  runner.setOutput stream { runner.outputs stream with
    truncated := (runner.outputs stream).truncated || decide (0 < bytes) }

def outputClosed (runner : Runner) (stream : Stream) : Runner :=
  runner.setOutput stream { runner.outputs stream with closed := true }

def outputFailed (runner : Runner) (stream : Stream) : Runner :=
  runner.setOutput stream { runner.outputs stream with
    closed := true
    truncated := true }

def outputHungUp (runner : Runner) (stream : Stream) : Runner :=
  runner.setOutput stream { runner.outputs stream with hungUp := true }

def PendingInput (runner : Runner) (slice : List UInt8) : Prop :=
  if runner.input.closed then slice = [] else runner.input.inbox.Front slice

/-- Drops the input that the workload took, and frees its units. -/
def popInput (runner : Runner) (bytes : Nat) : Runner :=
  let popped := runner.input.inbox.pop bytes
  runner.setInput { runner.input with
    inbox := popped.1
    window := runner.input.window.free popped.2 }

def inputWritten (runner : Runner) (bytes : Nat) : Runner :=
  if runner.input.closed then runner
  else (runner.popInput bytes).closeInputWhenTaken

def recordExit (runner : Runner) (now : Instant) (status : Option Status) :
    Runner :=
  let runner := { runner with exit := some status }
  let runner := runner.closeInput
  let settlement := after now runner.timers.settlement
  { runner with
    settleRequest := true
    settling := .requested settlement
    abandonAt := settlement.bind fun instant =>
      after instant runner.timers.grace }

def exited (runner : Runner) (now : Instant) (status : Option Status) :
    Runner :=
  let runner := { runner with timeoutAt := none }.tick now
  if runner.exit.isSome || runner.gaveUp then runner
  else runner.recordExit now status

def settled (runner : Runner) (result : Settlement) : Runner :=
  match runner.settling, result with
  | .requested _, .settled => { runner with settling := .settled }
  | .requested _, .failed => { runner with settling := .fenced }
  | _, _ => runner

def nextRequest (runner : Runner) : Runner × Option Request :=
  match runner.terminateRequest with
  | some cause =>
    ({ runner with terminateRequest := none }, some (.terminate cause))
  | none =>
    let discard (stream : Stream) : Runner :=
      runner.setOutput stream { runner.outputs stream with
        discardRequested := false }
    if (runner.outputs .stdout).discardRequested then
      (discard .stdout, some (.discard .stdout))
    else if (runner.outputs .stderr).discardRequested then
      (discard .stderr, some (.discard .stderr))
    else if runner.input.closeRequested then
      (runner.setInput { runner.input with closeRequested := false }, some .closeInput)
    else if runner.settleRequest then
      ({ runner with settleRequest := false }, some .settle)
    else (runner, none)

def nextCredit (runner : Runner) : Runner × Option Message :=
  if !runner.inputAccepts then (runner, none)
  else
    let granted := runner.input.window.takeGrant
    (runner.setInput { runner.input with window := granted.1 }, granted.2.map .credit)

/-- One round of the loop of `next_output`: the stream whose turn it is. -/
def tryOutput (runner : Runner) (capacity : Nat) : Runner × Option Message :=
  let stream := runner.turn
  let index := runner.limits.poolOf stream
  let credit := runner.credits index
  let output := runner.outputs stream
  let wanted := min (min output.queue.length runner.limits.chunk) capacity
  let length := credit.sendable wanted
  let runner := { runner with turn := stream.other }
  if 0 < length then
    let moved := take output.queue capacity length
    let runner := runner.setOutput stream { output with queue := moved.2 }
    ({ runner with
        credits := Function.update runner.credits index (credit.spend length) },
      some (.output stream moved.1))
  else (runner, none)

def nextOutput (runner : Runner) (capacity : Nat) : Runner × Option Message :=
  match runner.tryOutput capacity with
  | (runner, some message) => (runner, some message)
  | (runner, none) => runner.tryOutput capacity

def endsNow (runner : Runner) (stream : Stream) : Bool :=
  (runner.outputs stream).isDone && !(runner.outputs stream).ended

def sendEnd (runner : Runner) (stream : Stream) : Runner × Option Message :=
  (runner.setOutput stream { runner.outputs stream with ended := true }, some (.streamEnd stream))

def nextOther (runner : Runner) (capacity : Nat) : Runner × Option Message :=
  if runner.startedMessage then
    ({ runner with startedMessage := false }, some .started)
  else if runner.input.closedMessage then
    (runner.setInput { runner.input with closedMessage := false }, some .inputClosed)
  else if !runner.awaitsLaunch then
    if runner.endsNow .stdout then runner.sendEnd .stdout
    else if runner.endsNow .stderr then runner.sendEnd .stderr
    else runner.nextOutput capacity
  else (runner, none)

def finish (runner : Runner) : Runner × Option Message :=
  match runner.outcome with
  | none => (runner, none)
  | some outcome => ({ runner with finished := true }, some (.terminal outcome))

/-- The part of `next_message` after the credit that goes first. -/
def nextAfterCredit (runner : Runner) (capacity : Nat) : Runner × Option Message :=
  match runner.nextOther capacity with
  | (runner, some message) => ({ runner with credited := false }, some message)
  | (runner, none) =>
    match runner.nextCredit with
    | (runner, some message) =>
      ({ runner with credited := true }, some message)
    | (runner, none) => runner.finish

/-- `capacity` is the length of the buffer that the adapter lends. -/
def nextMessage (runner : Runner) (capacity : Nat) : Runner × Option Message :=
  if runner.finished then (runner, none)
  else if runner.detached then runner.finish
  else
    match if runner.credited then (runner, none) else runner.nextCredit with
    | (runner, some message) => ({ runner with credited := true }, some message)
    | (runner, none) => runner.nextAfterCredit capacity

inductive LocalCall where
  | launched (result : Except LaunchFailure Unit)
  | output (stream : Stream) (bytes : List UInt8)
  | discarded (stream : Stream) (bytes : Nat)
  | outputClosed (stream : Stream)
  | outputFailed (stream : Stream)
  | outputHungUp (stream : Stream)
  | inputWritten (bytes : Nat)
  | inputClosed
  | exited (now : Instant) (status : Option Status)
  | settled (result : Settlement)
  | dropped (now : Instant)
  | reset (now : Instant)
  | disconnect (now : Instant)
  | tick (now : Instant)
  | nextRequest

inductive Call where
  | act (call : LocalCall)
  | receive (now : Instant) (key : Key) (message : Peer.Message)
  | nextMessage (capacity : Nat)

/-- `written` names the bytes of the pending input that the workload took. -/
inductive Return where
  | done
  | taken (count : Nat)
  | written (bytes : List UInt8)
  | request (request : Option Request)
  | received (receipt : Except Violation Receipt)
  | message (message : Option Message)

def act (runner : Runner) : LocalCall → Runner × Return
  | .launched result => (runner.launched result, .done)
  | .output stream bytes =>
    ((runner.output stream bytes).1, .taken (runner.output stream bytes).2)
  | .discarded stream bytes => (runner.discarded stream bytes, .done)
  | .outputClosed stream => (runner.outputClosed stream, .done)
  | .outputFailed stream => (runner.outputFailed stream, .done)
  | .outputHungUp stream => (runner.outputHungUp stream, .done)
  | .inputWritten bytes =>
    (runner.inputWritten bytes, .written (if runner.input.closed then []
        else runner.input.inbox.bytes.take bytes))
  | .inputClosed => (runner.closeInput, .done)
  | .exited now status => (runner.exited now status, .done)
  | .settled result => (runner.settled result, .done)
  | .dropped now => (runner.detach now .dropped, .done)
  | .reset now => (runner.detach now .reset, .done)
  | .disconnect now => (runner.detach now .disconnected, .done)
  | .tick now => (runner.tick now, .done)
  | .nextRequest => (runner.nextRequest.1, .request runner.nextRequest.2)

def receive (runner : Runner) (now : Instant) (key : Key) :
    Peer.Message → Runner × Except Violation Receipt
  | .cancel cause => runner.cancel now key cause
  | .credit pool units => runner.credit key pool units
  | .input bytes => runner.receiveInput key bytes
  | .inputEnd => runner.endInput key

def step (runner : Runner) : Call → Runner × Return
  | .act call => runner.act call
  | .receive now key message =>
    ((runner.receive now key message).1, .received (runner.receive now key message).2)
  | .nextMessage capacity =>
    ((runner.nextMessage capacity).1, .message (runner.nextMessage capacity).2)

def machine : Machine Runner Call Return := ⟨step⟩

end Runner

end Nvx.Exec
