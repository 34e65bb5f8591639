import Nvx.Protocol.Basic
import Nvx.Protocol.Nvxs.Record

namespace Nvx.Protocol

open Nvx.Data

def maxArguments : Nat := 64

def maxArgumentBytes : Nat := 4096

def maxGuestCwdBytes : Nat := maxArgumentBytes

def maxEnvironment : Nat := 256

def execExtended : UInt16 := 1

def execCwdPresent : UInt16 := 1

def execEnvironmentPresent : UInt16 := 2

def execInheritDefaultEnv : UInt16 := 4

inductive WorkloadEnvironment where
  | default
  | replaced (entries : List String)
  | layered (entries : List String)
  deriving DecidableEq, Repr

namespace WorkloadEnvironment

def entries : WorkloadEnvironment → List String
  | .default => []
  | .replaced entries => entries
  | .layered entries => entries

def flags : WorkloadEnvironment → UInt16
  | .default => 0
  | .replaced _ => execEnvironmentPresent
  | .layered _ => execEnvironmentPresent ||| execInheritDefaultEnv

end WorkloadEnvironment

structure Workload where
  argv : List String
  timeoutMs : UInt32
  cwd : Option String
  environment : WorkloadEnvironment
  deriving DecidableEq, Repr

def equals : UInt8 := 61

def prefixed (bytes : List UInt8) : List UInt8 :=
  LittleEndian.ofUInt32 (lengthU32 bytes.length) ++ bytes

def argumentError : ProtocolError :=
  violation (s!"exec arguments must be 1 to {maxArgumentBytes} bytes without " ++ "NUL characters")

def encodeArguments : List String → List UInt8 → Except ProtocolError (List UInt8)
  | [], payload => .ok payload
  | argument :: arguments, payload =>
    let bytes := asBytes argument
    if bytes = [] ∨ maxArgumentBytes < bytes.length ∨ 0 ∈ bytes then
      .error argumentError
    else encodeArguments arguments (payload ++ prefixed bytes)

/-- The name before the first `=` of an entry, unless it is empty. -/
def splitName (bytes : List UInt8) : Option (List UInt8) :=
  let name := bytes.takeWhile (· ≠ equals)
  if equals ∈ bytes ∧ name ≠ [] then some name else none

def entryError : ProtocolError :=
  violation ("exec environment entries must be KEY=VALUE strings of at most " ++
    s!"{maxArgumentBytes} bytes without NUL characters")

/-- The name of a text is text, because `=` is a byte of its own there. -/
def repeatedName (name : List UInt8) : ProtocolError :=
  let quoted := ((fromUtf8 name).getD "").quote
  violation s!"exec environment names must be unique, but {quoted} repeats"

def encodeEnvironment : List String → List (List UInt8) → List UInt8 →
      Except ProtocolError (List UInt8)
  | [], _, payload => .ok payload
  | entry :: entries, names, payload =>
    let bytes := asBytes entry
    match splitName bytes with
    | none => .error entryError
    | some name =>
      if maxArgumentBytes < bytes.length ∨ 0 ∈ bytes then .error entryError
      else if name ∈ names then .error (repeatedName name)
      else encodeEnvironment entries (name :: names) (payload ++ prefixed bytes)

/-- The fixed fields: flags, if there are any, take the extended layout. -/
def encodeExecHeader (timeoutMs : UInt32) (count : Nat) (flags : UInt16)
    (environmentCount cwdLen : Nat) : List UInt8 :=
  let start := LittleEndian.ofUInt32 timeoutMs ++ LittleEndian.ofUInt16 (lengthU16 count)
  if flags = 0 then start ++ LittleEndian.ofUInt16 0
  else start ++ LittleEndian.ofUInt16 execExtended ++ LittleEndian.ofUInt16 flags ++
    LittleEndian.ofUInt16 (lengthU16 environmentCount) ++
    LittleEndian.ofUInt32 (lengthU32 cwdLen)

def encodeExecPayload (workload : Workload) : Except ProtocolError (List UInt8) :=
  let argv := workload.argv
  if argv = [] ∨ maxArguments < argv.length then
    .error (violation s!"exec requires 1 to {maxArguments} arguments")
  else if (argv.head?.bind fun program => (asBytes program).head?) ≠ some slash then
    .error (violation "exec program must be an absolute guest path")
  else
    let cwd := workload.cwd.map asBytes
    if ∃ bytes ∈ cwd, bytes.head? ≠ some slash ∨ maxArgumentBytes < bytes.length ∨ 0 ∈ bytes then
      .error (violation ("exec working directory must be an absolute guest " ++
        s!"path of at most {maxArgumentBytes} bytes without NUL characters"))
    else
      let environment := workload.environment.entries
      if maxEnvironment < environment.length then
        .error (violation s!"exec environment must not exceed {maxEnvironment} entries")
      else
        let flags := if cwd.isSome then
          workload.environment.flags ||| execCwdPresent
          else workload.environment.flags
        do
          let payload ← encodeArguments argv (encodeExecHeader
            workload.timeoutMs argv.length flags environment.length
            (cwd.getD []).length)
          let payload ← encodeEnvironment environment [] (payload ++ cwd.getD [])
          if outerMaxPayload < appHeaderLen + payload.length then
            .error (violation "exec request exceeds the control protocol limit")
          else .ok payload

structure ExecPayload where
  timeoutMs : UInt32
  argv : List String
  cwd : Option String
  environment : Option (List String)
  inheritDefaultEnv : Bool
  deriving DecidableEq, Repr

structure GuestExecPayload where
  timeoutMs : UInt32
  argv : List (List UInt8)
  cwd : Option (List UInt8)
  environment : Option (List (List UInt8))
  inheritDefaultEnv : Bool
  deriving DecidableEq, Repr

structure ExecHeader where
  timeoutMs : UInt32
  count : Nat
  flags : UInt16
  environmentCount : Nat
  cwdLen : Nat
  offset : Nat

def execTruncated : ProtocolError :=
  violation "the exec request is truncated"

def orTruncated (value : Option α) : Except ProtocolError α :=
  match value with
  | some value => .ok value
  | none => .error execTruncated

def execKnownFlags : UInt16 :=
  execCwdPresent ||| execEnvironmentPresent ||| execInheritDefaultEnv

/-- The flags, the number of environment entries and the length of the working
directory fit together. -/
def FlagsFit (maxCwd : Nat) (flags : UInt16) (environmentCount cwdLen : Nat) :
    Prop :=
  flags &&& ~~~ execKnownFlags = 0 ∧ (if flags &&& execCwdPresent = 0 then cwdLen = 0
      else 1 ≤ cwdLen ∧ cwdLen ≤ maxCwd) ∧
    (flags &&& execEnvironmentPresent ≠ 0 ∨
      environmentCount = 0 ∧ flags &&& execInheritDefaultEnv = 0) ∧
    environmentCount ≤ maxEnvironment

instance (maxCwd : Nat) (flags : UInt16) (environmentCount cwdLen : Nat) :
    Decidable (FlagsFit maxCwd flags environmentCount cwdLen) :=
  inferInstanceAs (Decidable (_ ∧ _ ∧ _ ∧ _))

def decodeExecHeader (payload : List UInt8) (maxCwd : Nat) :
    Except ProtocolError ExecHeader :=
  if payload.length < 8 then .error execTruncated
  else do
    let timeoutMs ← orTruncated (u32At payload 0)
    let count ← orTruncated (u16At payload 4)
    let extension ← orTruncated (u16At payload 6)
    if count.toNat = 0 ∨ maxArguments < count.toNat then
      .error (violation s!"exec requires 1 to {maxArguments} arguments")
    else if extension = 0 then .ok ⟨timeoutMs, count.toNat, 0, 0, 0, 8⟩
    else if extension = execExtended then
      if payload.length < 16 then .error execTruncated
      else do
        let flags ← orTruncated (u16At payload 8)
        let environmentCount ← orTruncated (u16At payload 10)
        let cwdLen ← orTruncated (u32At payload 12)
        if ¬ FlagsFit maxCwd flags environmentCount.toNat cwdLen.toNat then
          .error (violation "the exec request has unknown flags or inconsistent fields")
        else .ok ⟨timeoutMs, count.toNat, flags, environmentCount.toNat, cwdLen.toNat, 16⟩
    else .error (violation "the exec request has an unknown extension")

/-- A string of the payload as one of the decoders holds it. -/
class ExecString (S : Type) where
  asRef : S → List UInt8
  convert : List UInt8 → String → Except ProtocolError S
  unnamedEntry : ProtocolError
  repeatedName : List UInt8 → ProtocolError
  convert_eq_ok_iff : ∀ {bytes what text},
    convert bytes what = .ok text ↔ asRef text = bytes

instance : ExecString String where
  asRef := asBytes
  convert bytes what :=
    match fromUtf8 bytes with
    | some text => .ok text
    | none => .error (violation s!"exec {what} must be valid UTF-8")
  unnamedEntry := violation "exec environment entries must be KEY=VALUE strings"
  repeatedName := repeatedName
  convert_eq_ok_iff {bytes what text} := by
    rw [← fromUtf8_eq_some_iff]
    cases fromUtf8 bytes <;> simp

instance : ExecString (List UInt8) where
  asRef := id
  convert bytes _ := .ok bytes
  unnamedEntry :=
    violation "exec environment entries must be KEY=VALUE byte strings"
  repeatedName _ := violation "exec environment names must be unique"
  convert_eq_ok_iff {bytes what text} := by
    rw [Except.ok.injEq, id, eq_comm]

open ExecString

structure DecodedExec (S : Type) where
  timeoutMs : UInt32
  flags : UInt16
  argv : List S
  cwd : Option S
  environment : Option (List S)

def bytesAt (payload : List UInt8) (offset length : Nat) (what : String) :
    Except ProtocolError (List UInt8) :=
  if payload.length < offset + length then .error execTruncated
  else if 0 ∈ slice offset length payload then
    .error (violation s!"exec {what} must not contain NUL characters")
  else .ok (slice offset length payload)

def prefixedBytes (what : String) (payload : List UInt8) (offset : Nat) :
    Except ProtocolError (List UInt8 × Nat) := do
  let length ← orTruncated (u32At payload offset)
  if length.toNat = 0 ∨ maxArgumentBytes < length.toNat then
    .error (violation s!"exec {what} must be 1 to {maxArgumentBytes} bytes")
  else do
    let bytes ← bytesAt payload (offset + 4) length.toNat what
    .ok (bytes, offset + 4 + length.toNat)

section Decoder

variable {S : Type} [ExecString S]

def prefixedString (what : String) (payload : List UInt8) (offset : Nat) :
    Except ProtocolError (S × Nat) := do
  let (bytes, offset) ← prefixedBytes what payload offset
  let text ← convert bytes what
  .ok (text, offset)

/-- The name before the first `=` of an entry, unless it is empty. -/
def entryName (bytes : List UInt8) : Option (List UInt8) :=
  ((bytes.findIdx? (· = equals)).filter (· ≠ 0)).map fun position =>
    bytes.take position

def decodeCwd (payload : List UInt8) (flags : UInt16) (cwdLen offset : Nat) :
    Except ProtocolError (Option S × Nat) :=
  if flags &&& execCwdPresent = 0 then .ok (none, offset)
  else do
    let bytes ← bytesAt payload offset cwdLen "working directory"
    let cwd : S ← convert bytes "working directory"
    if (asRef cwd).head? ≠ some slash then
      .error (violation "exec working directory must be an absolute guest path")
    else .ok (some cwd, offset + cwdLen)

def decodeEnvironment : Nat → List (List UInt8) → List UInt8 → Nat →
      Except ProtocolError (List S × Nat)
  | 0, _, _, offset => .ok ([], offset)
  | count + 1, names, payload, offset => do
      let (entry, offset) ←
        prefixedString (S := S) "environment entries" payload offset
      match entryName (asRef entry) with
      | none => .error (unnamedEntry S)
      | some name =>
        if name ∈ names then .error (ExecString.repeatedName S name)
        else do
          let (entries, offset) ←
            decodeEnvironment count (name :: names) payload offset
          .ok (entry :: entries, offset)

def decodeExec (payload : List UInt8) (maxCwd : Nat) : Except ProtocolError (DecodedExec S) := do
  let header ← decodeExecHeader payload maxCwd
  let (argv, offset) ←
    readMany (prefixedString (S := S) "arguments") header.count payload header.offset
  if (argv.head?.bind fun program => (asRef program).head?) ≠ some slash then
    .error (violation "exec program must be an absolute guest path")
  else do
    let (cwd, offset) ←
      decodeCwd (S := S) payload header.flags header.cwdLen offset
    let (environment, offset) ←
      decodeEnvironment (S := S) header.environmentCount [] payload offset
    if offset ≠ payload.length then
      .error (violation "the exec request has trailing bytes")
    else .ok ⟨header.timeoutMs, header.flags, argv, cwd,
      if header.flags &&& execEnvironmentPresent ≠ 0 then some environment
      else none⟩

end Decoder

def decodeExecPayload (payload : List UInt8) :
    Except ProtocolError ExecPayload := do
  let decoded : DecodedExec String ← decodeExec payload maxArgumentBytes
  .ok ⟨decoded.timeoutMs, decoded.argv, decoded.cwd, decoded.environment,
    decide (decoded.flags &&& execEnvironmentPresent = 0 ∨
      decoded.flags &&& execInheritDefaultEnv ≠ 0)⟩

def decodeGuestExecPayload (payload : List UInt8) :
    Except ProtocolError GuestExecPayload := do
  let decoded : DecodedExec (List UInt8) ←
    decodeExec payload maxGuestCwdBytes
  .ok ⟨decoded.timeoutMs, decoded.argv, decoded.cwd, decoded.environment,
    decide (decoded.flags &&& execInheritDefaultEnv ≠ 0)⟩

end Nvx.Protocol
