import Nvx.Data.Word
import Mathlib.Logic.Function.Basic

namespace Nvx.Exec

open Nvx.Data

/-! The identity, streams, pools and limits on which both sides of an execution
agree. -/

structure Key where
  id : UInt64
  generation : UInt64
  deriving DecidableEq, Repr

inductive Violation where
  | key
  | pool
  | credit
  | chunk
  | window
  | ended
  | order
  deriving DecidableEq, Repr

inductive Receipt where
  | applied
  | stale
  | late
  deriving DecidableEq, Repr

/-- `true` for the execution's own generation, `false` for an earlier one. -/
def Key.admits (own message : Key) : Except Violation Bool :=
  if message.id ≠ own.id then .error .key
  else if message.generation < own.generation then .ok false
  else if message.generation = own.generation then .ok true
  else .error .key

/-- The key check with which every message handler of both sides starts. -/
def Key.receive (own message : Key) (state : State) (handle : State × Except Violation Receipt) :
    State × Except Violation Receipt :=
  match own.admits message with
  | .error violation => (state, .error violation)
  | .ok false => (state, .ok .stale)
  | .ok true => handle

@[simp] theorem Key.admits_self (own : Key) : own.admits own = .ok true := by
  simp [Key.admits]

@[simp] theorem Key.receive_self (own : Key) (state : State)
    (handle : State × Except Violation Receipt) :
    own.receive own state handle = handle := by
  simp [Key.receive]

theorem Key.receive_cases (own message : Key) (state : State)
    (handle : State × Except Violation Receipt) :
    (own.receive message state handle).1 = state ∨ own.receive message state handle = handle := by
  unfold Key.receive
  split
  · exact .inl rfl
  · exact .inl rfl
  · exact .inr rfl

theorem Key.receive_of_ne {own message : Key} (different : message ≠ own)
    (state : State) (handle : State × Except Violation Receipt) :
    (own.receive message state handle).1 = state := by
  have refused : own.admits message ≠ .ok true := by
    unfold Key.admits
    split
    · simp
    · rename_i sameId
      split
      · simp
      · split
        · rename_i sameGeneration
          simp only [ne_eq, Decidable.not_not] at sameId
          exact absurd (by cases own; cases message; simp_all) different
        · simp
  unfold Key.receive
  split
  · rfl
  · rfl
  · rename_i accepted
    exact absurd accepted refused

inductive Stream where
  | stdout
  | stderr
  deriving DecidableEq, Repr

def Stream.other : Stream → Stream
  | .stdout => .stderr
  | .stderr => .stdout

theorem Stream.other_other (stream : Stream) : stream.other.other = stream := by
  cases stream <;> rfl

theorem Stream.eq_or_eq_other (stream turn : Stream) : stream = turn ∨ stream = turn.other := by
  cases stream <;> cases turn <;> simp [Stream.other]

instance neZeroTwo : NeZero 2 := ⟨Nat.succ_ne_zero 1⟩

def Stream.index : Stream → Fin 2
  | .stdout => 0
  | .stderr => 1

/-- Pairs of flags, one for each stream, compare flag by flag. -/
instance : DecidableEq (Stream → Bool) := fun left right =>
  decidable_of_iff (left .stdout = right .stdout ∧ left .stderr = right .stderr)
    ⟨fun equal => funext fun stream => by
        cases stream with
        | stdout => exact equal.1
        | stderr => exact equal.2,
      fun equal => by simp [equal]⟩

theorem Stream.forall_iff {holds : Stream → Prop} :
    (∀ stream, holds stream) ↔ holds .stdout ∧ holds .stderr := by
  constructor
  · intro all
    exact ⟨all .stdout, all .stderr⟩
  · rintro ⟨stdout, stderr⟩ stream
    cases stream with
    | stdout => exact stdout
    | stderr => exact stderr

section Update

variable {Index Part : Type} [DecidableEq Index]

/-- What holds of all parts holds when one changes to another of which it
holds. -/
theorem forall_update (holds : Part → Prop) (old : ∀ other, holds (parts other))
    (new : holds part) (other : Index) :
    holds (Function.update parts index part other) := by
  rw [Function.update_apply]
  split
  · exact new
  · exact old other

theorem update_field (field : Part → Value)
    (same : field part = field (parts index)) (other : Index) :
    field (Function.update parts index part other) = field (parts other) := by
  rw [Function.update_apply]
  split
  · rename_i here
    rw [same, here]
  · rfl

end Update

inductive Pool where
  | input
  | stdout
  | stderr
  | output
  deriving DecidableEq, Repr

inductive CreditUnit where
  | bytes
  | frames
  deriving DecidableEq, Repr

structure Window where
  unit : CreditUnit
  size : UInt32
  deriving DecidableEq, Repr

/-- `count` bytes as units of a byte pool, saturating at the largest `u32`. -/
def units (count : Nat) : Nat := min count (wordSize 32 - 1)

def Window.cost (window : Window) (length : Nat) : Nat :=
  match window.unit with
  | .bytes => units length
  | .frames => 1

def Window.bytesWith (window : Window) (chunk : Nat) : Nat :=
  match window.unit with
  | .bytes => window.size.toNat
  | .frames => saturatingMul 64 window.size.toNat chunk

theorem Window.size_lt (window : Window) : window.size.toNat < wordSize 32 :=
  window.size.toNat_lt

/-- Limits have no empty chunk or window: `Limits::new` refuses them. -/
structure Limits where
  chunkSize : UInt32
  input : Window
  output : Window
  shared : Bool
  chunk_pos : 0 < chunkSize.toNat
  input_pos : 0 < input.size.toNat
  output_pos : 0 < output.size.toNat

namespace Limits

def chunk (limits : Limits) : Nat := limits.chunkSize.toNat

def outputPools (limits : Limits) : List Pool :=
  if limits.shared then [.output] else [.stdout, .stderr]

def poolOf (limits : Limits) (stream : Stream) : Fin 2 :=
  if limits.shared then 0 else stream.index

def outputPool (limits : Limits) (pool : Pool) : Except Violation (Fin 2) :=
  match pool, limits.shared with
  | .output, true => .ok 0
  | .stdout, false => .ok 0
  | .stderr, false => .ok 1
  | _, _ => .error .pool

def checkChunk (limits : Limits) (length : Nat) : Except Violation Unit :=
  if length = 0 ∨ limits.chunk < length then .error .chunk else .ok ()

def inputBytes (limits : Limits) : Nat := limits.input.bytesWith limits.chunk

def outputBytes (limits : Limits) : Nat :=
  saturatingMul 64 (limits.output.bytesWith limits.chunk) (if limits.shared then 1 else 2)

def smallest : Limits :=
  ⟨1, ⟨.bytes, 1⟩, ⟨.bytes, 1⟩, false, by decide, by decide, by decide⟩

theorem chunk_lt (limits : Limits) : limits.chunk < wordSize 32 :=
  limits.chunkSize.toNat_lt

theorem zero_lt_chunk (limits : Limits) : 0 < limits.chunk :=
  limits.chunk_pos

theorem checkChunk_ok_iff (limits : Limits) (length : Nat) :
    limits.checkChunk length = .ok () ↔ 0 < length ∧ length ≤ limits.chunk := by
  unfold checkChunk
  split
  · rename_i refused
    simp only [reduceCtorEq, false_iff]
    omega
  · rename_i accepted
    simp only [true_iff]
    omega

end Limits

abbrev Instant := Nat

abbrev Duration := Nat

def latestInstant : Instant := 2 ^ 63 * 1000000000 - 1

def after (now : Instant) (duration : Duration) : Option Instant :=
  if now + duration ≤ latestInstant then some (now + duration) else none

theorem after_eq_some_iff : after now duration = some instant ↔
      now + duration ≤ latestInstant ∧ instant = now + duration := by
  unfold after
  split
  · rename_i representable
    rw [Option.some.injEq, eq_comm]
    exact ⟨fun same => ⟨representable, same⟩, And.right⟩
  · rename_i beyond
    simp [beyond]

theorem le_of_after (later : after now duration = some instant) : now ≤ instant := by
  rw [(after_eq_some_iff.mp later).2]
  exact Nat.le_add_right _ _

theorem after_after {now : Instant} {first second : Duration}
    (representable : now + first + second ≤ latestInstant) :
    after now first = some (now + first) ∧
      after (now + first) second = some (now + first + second) :=
  ⟨after_eq_some_iff.mpr ⟨Nat.le_trans (Nat.le_add_right _ _) representable, rfl⟩,
    after_eq_some_iff.mpr ⟨representable, rfl⟩⟩

def earliest : Option Instant → Option Instant → Option Instant
  | some first, some second => some (min first second)
  | some first, none => some first
  | none, second => second

def reached (timer : Option Instant) (now : Instant) : Bool :=
  timer.any (· ≤ now)

theorem not_isSome_or {value : Option α} :
    ¬(value.isSome || flag) = true ↔ value = none ∧ flag = false := by
  simp

theorem not_or_isSome {value : Option α} :
    ¬(flag || value.isSome) = true ↔ flag = false ∧ value = none := by
  simp

@[simp] theorem reached_none (now : Instant) : reached none now = false := by
  simp [reached]

@[simp] theorem reached_some (instant now : Instant) :
    reached (some instant) now = decide (instant ≤ now) := rfl

theorem reached_iff :
    reached timer now = true ↔ ∃ instant, timer = some instant ∧ instant ≤ now := by
  cases timer <;> simp

structure Timers where
  timeout : Option Duration
  grace : Duration
  settlement : Duration
  deriving DecidableEq, Repr

def Timers.immediate : Timers := ⟨none, 0, 0⟩

inductive Cause where
  | cancelled
  | dropped
  | timedOut
  | reset
  | disconnected
  deriving DecidableEq, Repr

inductive Status where
  | exited (code : Int32)
  | signaled (signal : Int32)
  deriving DecidableEq

structure LaunchFailure where
  stage : UInt32
  error : Int32
  deriving DecidableEq

inductive Settlement where
  | settled
  | failed
  deriving DecidableEq, Repr

structure Outcome where
  status : Option Status
  cause : Option Cause
  launchFailure : Option LaunchFailure
  truncated : Stream → Bool
  reusable : Bool
  deriving DecidableEq

namespace Outcome

def new (status : Option Status) : Outcome where
  status := status
  cause := none
  launchFailure := none
  truncated := fun _ => false
  reusable := false

def withCause (outcome : Outcome) (cause : Cause) : Outcome :=
  { outcome with cause := some cause }

def withLaunchFailure (outcome : Outcome) (failure : LaunchFailure) : Outcome :=
  { outcome with launchFailure := some failure }

def withTruncated (outcome : Outcome) (stream : Stream) : Outcome :=
  { outcome with truncated := Function.update outcome.truncated stream true }

def withReusable (outcome : Outcome) : Outcome :=
  { outcome with reusable := true }

def isTruncated (outcome : Outcome) (stream : Stream) : Bool :=
  outcome.truncated stream

/-- The loop over the streams with which either side marks those that it
truncated. -/
def withTruncations (outcome : Outcome) (truncated : Stream → Bool) : Outcome :=
  let outcome := if truncated .stdout then
    outcome.withTruncated .stdout else outcome
  if truncated .stderr then outcome.withTruncated .stderr else outcome

theorem withTruncations_eq (outcome : Outcome) (truncated : Stream → Bool) :
    outcome.withTruncations truncated =
      { outcome with
        truncated := fun stream =>
          outcome.truncated stream || truncated stream } := by
  have marks : (outcome.withTruncations truncated).truncated =
      fun stream => outcome.truncated stream || truncated stream := by
    funext stream
    cases stdout : truncated .stdout <;> cases stderr : truncated .stderr <;>
      cases stream <;>
      simp [withTruncations, withTruncated, Function.update, stdout, stderr]
  rw [← marks]
  unfold withTruncations
  cases truncated .stdout <;> cases truncated .stderr <;> rfl

end Outcome

inductive Runner.Message where
  | credit (units : Nat)
  | started
  | output (stream : Stream) (bytes : List UInt8)
  | streamEnd (stream : Stream)
  | inputClosed
  | terminal (outcome : Outcome)
  deriving DecidableEq

inductive Peer.Message where
  | cancel (cause : Cause)
  | credit (pool : Pool) (units : Nat)
  | input (bytes : List UInt8)
  | inputEnd
  deriving DecidableEq

end Nvx.Exec
