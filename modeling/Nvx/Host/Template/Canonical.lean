import Nvx.Data.ByteReader
import Nvx.Data.Text

namespace Nvx.Host.Template.Canonical

open Nvx.Data

/-! The canonical encoding of a template's key (`host/template/canonical.rs`).
An error is its message. -/

def writeLen (length : Nat) : List UInt8 :=
  LittleEndian.ofUInt32 (UInt32.ofNat length)

def writeBool (value : Bool) : List UInt8 :=
  [if value then 1 else 0]

def writeBytes (bytes : List UInt8) : List UInt8 :=
  writeLen bytes.length ++ bytes

def writeText (text : String) : List UInt8 :=
  writeBytes (asBytes text)

def writeOption (write : Value → List UInt8) : Option Value → List UInt8
  | none => [0]
  | some value => 1 :: write value

def writeList (write : Value → List UInt8) (items : List Value) : List UInt8 :=
  writeLen items.length ++ items.flatMap write

abbrev Reader (Value : Type) : Type := ByteReader String Value

namespace Reader

def finish (rest : List UInt8) : Except String Unit :=
  match rest.length with
  | 0 => .ok ()
  | 1 => .error "a byte follows the value"
  | count => .error s!"{count} bytes follow the value"

def truncated (what : String) : String :=
  s!"{what} is truncated"

def fixed (width : Nat) (what : String) : Reader (Bytes width) :=
  .takeBytes (truncated what) width

def u8 (what : String) : Reader UInt8 := ByteReader.u8 (truncated what)
def u16 (what : String) : Reader UInt16 := ByteReader.u16 (truncated what)
def u32 (what : String) : Reader UInt32 := ByteReader.u32 (truncated what)
def u64 (what : String) : Reader UInt64 := ByteReader.u64 (truncated what)

def boolean (what : String) (byte : UInt8) : Except String Bool :=
  if byte = 0 then .ok false
  else if byte = 1 then .ok true
  else .error s!"{what} is {byte}, not a boolean"

def bool (what : String) : Reader Bool := do
  let byte ← u8 what
  StateT.lift (boolean what byte)

def bounded (max : Nat) (unit what : String) (length : UInt32) :
    Except String Nat :=
  if max < length.toNat then
    .error s!"{what} holds {length} {unit}, more than {max}"
  else .ok length.toNat

def len (max : Nat) (unit what : String) : Reader Nat := do
  let length ← u32 what
  StateT.lift (bounded max unit what length)

def bytes (max : Nat) (what : String) : Reader (List UInt8) := do
  let length ← len max "bytes" what
  let taken ← fixed length what
  pure taken.val

def utf8 (what : String) (bytes : List UInt8) : Except String String :=
  match fromUtf8 bytes with
  | some text => .ok text
  | none => .error s!"{what} is not UTF-8"

def text (max : Nat) (what : String) : Reader String := do
  let bytes ← bytes max what
  StateT.lift (utf8 what bytes)

def option (what : String) (read : Reader Value) : Reader (Option Value) := do
  let tag ← u8 what
  if tag = 0 then pure none
  else if tag = 1 then do
    let value ← read
    pure (some value)
  else StateT.lift (.error s!"{what} has the presence tag {tag}, not 0 or 1")

/-- Each item takes at least one byte, so a count beyond the bytes left is
truncated. -/
def counted (what : String) (read : Reader Value) (count : Nat) :
    Reader (List Value) := fun remaining =>
  if remaining.length < count then .error (truncated what)
  else (ByteReader.repeated read count).run remaining

def list (max : Nat) (what : String) (read : Reader Value) : Reader (List Value) := do
  let count ← len max "items" what
  counted what read count

end Reader

section

variable (what : String)

theorem takes_bool : Takes (Reader.bool what) writeBool (fun _ => True) := by
  refine (Takes.u8 _).convert (fun value : Bool => if value then 1 else 0) fun byte value => ?_
  rw [Reader.boolean]
  split
  · rename_i zero
    subst zero
    cases value <;> simp
  · split
    · rename_i one
      subst one
      cases value <;> simp
    · rename_i notZero notOne
      cases value <;> simp [eq_comm, notZero, notOne]

theorem takes_len {max : Nat} (unit : String) (small : max < 4294967296) :
    Takes (Reader.len max unit what) writeLen (fun length => length ≤ max) := by
  refine (Takes.u32 _).convert UInt32.ofNat fun word length => ?_
  rw [Reader.bounded, ite_error_eq_ok_iff]
  constructor
  · rintro ⟨⟨fits, same⟩, _⟩
    obtain rfl := Except.ok.inj same
    exact ⟨UInt32.ofNat_toNat, Nat.le_of_not_lt fits⟩
  · rintro ⟨rfl, fits⟩
    have back : (UInt32.ofNat length).toNat = length :=
      UInt32.toNat_ofNat_of_lt' (Nat.lt_of_le_of_lt fits small)
    rw [back]
    exact ⟨⟨Nat.not_lt.mpr fits, rfl⟩, trivial⟩

theorem takes_bytes {max : Nat} (small : max < 4294967296) :
    Takes (Reader.bytes max what) writeBytes (fun bytes => bytes.length ≤ max) := by
  refine ⟨@fun input bytes rest => ?_⟩
  simp only [Reader.bytes, Reader.fixed, (takes_len what "bytes" small).bind_run_iff,
    (Takes.takeBytes _ _).bind_run_iff, StateT.run_pure]
  constructor
  · rintro ⟨length, _, ⟨fits, rfl⟩, taken, _, ⟨_, rfl⟩, same⟩
    cases same
    rw [writeBytes, taken.property, List.append_assoc]
    exact ⟨fits, rfl⟩
  · rintro ⟨fits, rfl⟩
    exact ⟨bytes.length, bytes ++ rest, ⟨fits, List.append_assoc _ _ _⟩,
      ⟨bytes, rfl⟩, rest, ⟨trivial, rfl⟩, rfl⟩

theorem takes_text {max : Nat} (small : max < 4294967296) : Takes (Reader.text max what) writeText
      (fun text => (asBytes text).length ≤ max) := by
  refine (takes_bytes what small).convert asBytes fun bytes text => ?_
  rw [← fromUtf8_eq_some_iff]
  constructor
  · rintro ⟨decoded, fits⟩
    cases found : fromUtf8 bytes with
    | none => simp [Reader.utf8, found] at decoded
    | some other =>
      simp only [Reader.utf8, found, Except.ok.injEq] at decoded
      subst decoded
      rw [fromUtf8_eq_some_iff.mp found]
      exact ⟨rfl, fits⟩
  · rintro ⟨found, fits⟩
    rw [fromUtf8_eq_some_iff.mp found] at fits
    exact ⟨by rw [Reader.utf8, found], fits⟩

variable {read : Reader Value} {write : Value → List UInt8}

theorem takes_option (takes : Takes read write valid) :
    Takes (Reader.option what read) (writeOption write)
      (fun option => ∀ value ∈ option, valid value) := by
  refine ⟨@fun input option rest => ?_⟩
  simp only [Reader.option, Reader.u8, (Takes.u8 _).bind_run_iff, true_and]
  constructor
  · rintro ⟨tag, _, rfl, next⟩
    split at next
    · rename_i zero
      cases next
      subst zero
      simp [writeOption]
    · split at next
      · rename_i one
        simp only [takes.bind_run_iff, StateT.run_pure] at next
        obtain ⟨value, _, ⟨isValid, rfl⟩, same⟩ := next
        cases same
        subst one
        simpa [writeOption] using isValid
      · cases next
  · rintro ⟨areValid, rfl⟩
    cases option with
    | none => exact ⟨0, rest, rfl, rfl⟩
    | some value =>
      refine ⟨1, write value ++ rest, rfl, ?_⟩
      have other : ¬ (1 : UInt8) = 0 := by decide
      simp only [other, if_false, if_true, takes.bind_run_iff, StateT.run_pure]
      exact ⟨value, rest, ⟨areValid value rfl, rfl⟩, rfl⟩

theorem length_le_flatMap {items : List Value} (nonempty : ∀ item ∈ items, write item ≠ []) :
    items.length ≤ (items.flatMap write).length := by
  induction items with
  | nil => exact Nat.le_refl 0
  | cons item items induction =>
    obtain ⟨first, others⟩ := List.forall_mem_cons.mp nonempty
    have positive := List.length_pos_of_ne_nil first
    have later := induction others
    rw [List.flatMap_cons, List.length_append, List.length_cons]
    omega

theorem takes_list {max : Nat} (small : max < 4294967296) (takes : Takes read write valid)
    (nonempty : ∀ value, valid value → write value ≠ []) :
    Takes (Reader.list max what read) (writeList write)
      (fun items => items.length ≤ max ∧ ∀ item ∈ items, valid item) := by
  refine ⟨@fun input items rest => ?_⟩
  simp only [Reader.list, (takes_len what "items" small).bind_run_iff]
  constructor
  · rintro ⟨count, remaining, ⟨fits, rfl⟩, next⟩
    change (if _ then _ else _) = _ at next
    rw [ite_error_eq_ok_iff, (takes.repeated count).run_iff] at next
    obtain ⟨_, ⟨rfl, areValid⟩, rfl⟩ := next
    rw [writeList, List.append_assoc]
    exact ⟨⟨fits, areValid⟩, rfl⟩
  · rintro ⟨⟨fits, areValid⟩, rfl⟩
    refine ⟨items.length, items.flatMap write ++ rest, ⟨fits, List.append_assoc _ _ _⟩, ?_⟩
    change (if _ then _ else _) = _
    rw [ite_error_eq_ok_iff, (takes.repeated _).run_iff]
    have enough := length_le_flatMap fun item member =>
      nonempty item (areValid item member)
    refine ⟨?_, ⟨rfl, areValid⟩, rfl⟩
    rw [List.length_append]
    omega

end

end Nvx.Host.Template.Canonical
