import Nvx.Data.Attempt
import Nvx.Data.Text

namespace Nvx.Guest.Time

open Nvx.Data

/-! The suppression of the stall detectors for a capture. -/

abbrev Text := List UInt8

/-- What a system call fails with.  An error that is not of the files themselves
says more in its text. -/
inductive Failure
  | notFound
  | alreadyExists
  | invalid
  | other (text : Text)
  deriving DecidableEq

def Failure.desc : Failure → Text
  | .notFound => asBytes "No such file or directory"
  | .alreadyExists => asBytes "File exists"
  | .invalid => asBytes "Invalid argument"
  | .other text => text

structure Files where
  settings : Text → Option Int
  record : Option Text

/-- What becomes of an operation: it works, it fails without effect, or the
process stops before it. -/
inductive Reply
  | works
  | fails (text : Text)
  | stops

structure World where
  files : Files
  replies : Nat → Reply

abbrev Calls := Attempt World Unit

def operate (effect : Files → Except Failure (Value × Files)) :
    Calls (Except Failure Value) := fun world =>
  let replies := fun index => world.replies (index + 1)
  match world.replies 0 with
  | .stops => (.error (), { world with replies := replies })
  | .fails text => (.ok (.error (.other text)), { world with replies := replies })
  | .works =>
    match effect world.files with
    | .error errno => (.ok (.error errno), { world with replies := replies })
    | .ok (value, files) => (.ok (.ok value), ⟨files, replies⟩)

def digits (number : Nat) : Text :=
  (Nat.toDigits 10 number).map fun digit => .ofNat digit.toNat

def number : Int → Text
  | .ofNat value => digits value
  | .negSucc value => 45 :: digits (value + 1)

def parseDigits (text : Text) : Option Nat :=
  let digits := text.map fun byte => Char.ofNat byte.toNat
  if digits ≠ [] ∧ digits.all Char.isDigit = true then
    some (Nat.ofDigitChars 10 digits 0)
  else none

/-- The number that the kernel takes from the first line that is written. -/
def parseNumber (text : Text) : Option Int :=
  match text.takeWhile (· ≠ 10) with
  | 45 :: rest => (parseDigits rest).map fun value => -value
  | text => (parseDigits text).map fun value => value

def lockFile : Calls (Except Failure Unit) :=
  operate fun files => .ok ((), files)

def readNumber (path : Text) : Calls (Except Failure Int) :=
  operate fun files =>
    match files.settings path with
    | none => .error .notFound
    | some value => .ok (value, files)

def writeFile (path text : Text) : Calls (Except Failure Unit) :=
  operate fun files =>
    match files.settings path, parseNumber text with
    | none, _ => .error .notFound
    | some _, none => .error .invalid
    | some _, some value => .ok ((), { files with
        settings := Function.update files.settings path (some value) })

def writeNumber (path : Text) (value : Int) : Calls (Except Failure Unit) :=
  writeFile path (number value ++ [10])

def createRecord : Calls (Except Failure Unit) :=
  operate fun files =>
    match files.record with
    | some _ => .error .alreadyExists
    | none => .ok ((), { files with record := some [] })

def writeRecord (text : Text) : Calls (Except Failure Unit) :=
  operate fun files => .ok ((), { files with record := some text })

def readRecord : Calls (Except Failure Text) :=
  operate fun files =>
    match files.record with
    | none => .error .notFound
    | some text => .ok (text, files)

def unlinkRecord : Calls (Except Failure Unit) :=
  operate fun files =>
    match files.record with
    | none => .error .notFound
    | some _ => .ok ((), { files with record := none })

inductive SaveError
  | undone (errno : Failure)
  | kept (errno : Failure)

structure Detector where
  path : Text
  suppressed : Int

structure Saved where
  path : Text
  value : Int
  suppressed : Int

/-- The part of a save after an operation that undoes nothing when it fails. -/
def orUndone (operation : Calls (Except Failure Value))
    (next : Value → Calls (Except SaveError Unit)) :
    Calls (Except SaveError Unit) := do
  match ← operation with
  | .error errno => pure (.error (.undone errno))
  | .ok value => next value

/-- Reads the settings of the detectors that exist, of which the first must. -/
def readSettings : Nat → List Detector → Calls (Except Failure (List Saved))
  | _, [] => pure (.ok [])
  | index, detector :: rest => do
      let world ← Attempt.get
      if (world.files.settings detector.path).isNone then
        if index = 0 then pure (.error .notFound)
        else readSettings (index + 1) rest
      else
        match ← readNumber detector.path with
        | .error errno => pure (.error errno)
        | .ok value =>
          let saved ← readSettings (index + 1) rest
          pure (saved.map (⟨detector.path, value, detector.suppressed⟩ :: ·))

def line (saved : Saved) : Text :=
  saved.path ++ 61 :: number saved.value

def recordText (saved : List Saved) : Text :=
  saved.flatMap fun saved => line saved ++ [10]

/-- Writes back the settings, and returns whether every write worked. -/
def undo : List Saved → Calls Bool
  | [] => pure true
  | saved :: rest => do
      let written ← writeNumber saved.path saved.value
      let others ← undo rest
      pure (written.isOk && others)

def suppress (written : List Saved) : List Saved → Calls (Except SaveError Unit)
  | [] => pure (.ok ())
  | saved :: rest => do
      match ← writeNumber saved.path saved.suppressed with
      | .ok () => suppress (written ++ [saved]) rest
      | .error errno =>
        let undone ← undo written
        if undone then
          match ← unlinkRecord with
          | .ok () => pure (.error (.undone errno))
          | .error _ => pure (.error (.kept errno))
        else pure (.error (.kept errno))

/-- The record that failed to be written is removed, if that works. -/
def fillRecord (text : Text) : Calls (Except Failure Unit) := do
  match ← writeRecord text with
  | .ok () => pure (.ok ())
  | .error errno =>
    let _ ← unlinkRecord
    pure (.error errno)

def save (detectors : List Detector) : Calls (Except SaveError Unit) :=
  orUndone lockFile fun _ =>
    orUndone (readSettings 0 detectors) fun saved =>
      orUndone createRecord fun _ =>
        orUndone (fillRecord (recordText saved)) fun _ => suppress [] saved

def describe (text : String) (errno : Failure) : Text :=
  asBytes text ++ errno.desc

def quotedPathLimit : Nat := 200

/-- Restores the settings of the lines until one that names none. -/
def restoreLines : List Text → Calls (Except Text Unit)
  | [] => pure (.ok ())
  | line :: rest => do
      let path := line.takeWhile (· ≠ 61)
      match line.dropWhile (· ≠ 61) with
      | [] => pure (.ok ())
      | _ :: value =>
        if 0 ∈ path then pure (.ok ())
        else
          match ← writeFile path value with
          | .ok () => restoreLines rest
          | .error errno => pure (.error (asBytes "restore " ++
              path.take quotedPathLimit ++ describe ": " errno))

def restore (missingOk : Bool) : Calls (Except Text Unit) := do
  match ← lockFile with
  | .error errno =>
    pure (.error (describe "lock /run/nvx/time-suppression.lock: " errno))
  | .ok () =>
    match ← readRecord with
    | .error errno =>
      if errno = .notFound ∧ missingOk then pure (.ok ())
      else pure (.error (describe "read /run/nvx/time-suppression: " errno))
    | .ok text =>
      match ← restoreLines ((text.splitOn 10).filter (· ≠ [])) with
      | .error message => pure (.error message)
      | .ok () =>
        let removed ← unlinkRecord
        pure (removed.mapError (describe "remove /run/nvx/time-suppression: "))

end Nvx.Guest.Time
