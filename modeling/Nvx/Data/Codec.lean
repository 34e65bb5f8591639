import Mathlib.Data.List.Infix
import Nvx.Data.Bytes

namespace Nvx.Data

theorem bind_eq_ok_iff {first : Except Error Middle} {result : Result} :
    (first >>= rest) = .ok result ↔ ∃ middle, first = .ok middle ∧ rest middle = .ok result := by
  cases first with
  | error error | ok middle => simp [bind, Except.bind]

theorem ite_error_eq_ok_iff {refused : Prop} [Decidable refused] {error : Error}
    {rest : Except Error Result} {result : Result} :
    (if refused then .error error else rest) = .ok result ↔ ¬ refused ∧ rest = .ok result := by
  split <;> simp_all

theorem toOption_eq_some_iff {result : Except Error Result} :
    result.toOption = some value ↔ result = .ok value := by
  cases result <;> simp [Except.toOption]

theorem append_prefix_drop_iff {first second payload : List UInt8} :
    first ++ second <+: payload.drop offset ↔
      first <+: payload.drop offset ∧ second <+: payload.drop (offset + first.length) := by
  constructor
  · rintro ⟨rest, whole⟩
    rw [List.append_assoc] at whole
    refine ⟨⟨second ++ rest, whole⟩, rest, ?_⟩
    rw [← List.drop_drop, ← whole, List.drop_left]
  · rintro ⟨⟨others, whole⟩, rest, later⟩
    refine ⟨rest, ?_⟩
    rw [← List.drop_drop, ← whole, List.drop_left] at later
    rw [List.append_assoc, later, whole]

theorem prefix_drop_iff_slice (nonempty : bytes ≠ []) :
    bytes <+: payload.drop offset ↔ offset + bytes.length ≤ payload.length ∧
        slice offset bytes.length payload = bytes := by
  rw [List.prefix_iff_eq_take, slice, eq_comm]
  constructor
  · intro same
    refine ⟨?_, same⟩
    have positive := List.length_pos_of_ne_nil nonempty
    have length := congrArg List.length same
    rw [List.length_take, List.length_drop] at length
    omega
  · exact fun both => both.2

theorem eq_of_prefix_drop_zero {bytes payload : List UInt8}
    (present : bytes <+: payload.drop 0) (whole : bytes.length = payload.length) :
    bytes = payload :=
  List.IsPrefix.eq_of_length present whole

def u16At (bytes : List UInt8) (offset : Nat) : Option UInt16 :=
  if offset + 2 ≤ bytes.length then
    some (LittleEndian.toUInt16 (slice offset 2 bytes))
  else none

/-- Reads the little-endian integer of four bytes at `offset`. -/
def u32At (bytes : List UInt8) (offset : Nat) : Option UInt32 :=
  if offset + 4 ≤ bytes.length then
    some (LittleEndian.toUInt32 (slice offset 4 bytes))
  else none

/-- A word is read at an offset exactly if its encoding is there. -/
theorem wordAt_eq_some_iff {ofWord : Word → List UInt8} {toWord : List UInt8 → Word} {value : Word}
    (wide : (ofWord value).length = width + 1) (back : toWord (ofWord value) = value)
    (forth : ∀ {bytes}, bytes.length = width + 1 → ofWord (toWord bytes) = bytes) :
    (if offset + (width + 1) ≤ bytes.length then some (toWord (slice offset (width + 1) bytes))
      else none) = some value ↔ ofWord value <+: bytes.drop offset := by
  rw [prefix_drop_iff_slice (List.ne_nil_of_length_eq_add_one wide), wide]
  split
  · rename_i fits
    have length := length_slice fits
    simp only [Option.some.injEq, fits, true_and]
    constructor
    · rintro rfl
      exact (forth length).symm
    · intro same
      rw [same, back]
  · rename_i short
    simp [short]

theorem u16At_eq_some_iff :
    u16At bytes offset = some value ↔ LittleEndian.ofUInt16 value <+: bytes.drop offset :=
  wordAt_eq_some_iff (LittleEndian.length_ofUInt16 value) (LittleEndian.toUInt16_ofUInt16 value)
    LittleEndian.ofUInt16_toUInt16

theorem u32At_eq_some_iff :
    u32At bytes offset = some value ↔ LittleEndian.ofUInt32 value <+: bytes.drop offset :=
  wordAt_eq_some_iff (LittleEndian.length_ofUInt32 value) (LittleEndian.toUInt32_ofUInt32 value)
    LittleEndian.ofUInt32_toUInt32

/-- The reader takes the encodings of valid values, and nothing else. -/
def Exact (read : List UInt8 → Nat → Except Error (Value × Nat))
    (encode : Value → List UInt8) (valid : Value → Prop) : Prop :=
  ∀ {payload offset value next}, read payload offset = .ok (value, next) ↔
    valid value ∧ encode value <+: payload.drop offset ∧
      next = offset + (encode value).length

def readMany (read : List UInt8 → Nat → Except Error (Value × Nat)) :
    Nat → List UInt8 → Nat → Except Error (List Value × Nat)
  | 0, _, offset => .ok ([], offset)
  | count + 1, payload, offset => do
      let (value, offset) ← read payload offset
      let (values, offset) ← readMany read count payload offset
      .ok (value :: values, offset)

theorem Exact.many {read : List UInt8 → Nat → Except Error (Value × Nat)}
    (exact : Exact read encode valid) (count : Nat) :
    Exact (readMany read count) (fun values => values.flatMap encode)
      (fun values => values.length = count ∧ ∀ value ∈ values, valid value) := by
  induction count with
  | zero =>
    intro payload offset values next
    simp only [readMany, Except.ok.injEq, Prod.mk.injEq, List.length_eq_zero_iff]
    constructor
    · rintro ⟨rfl, rfl⟩
      simp
    · rintro ⟨⟨rfl, _⟩, _, rfl⟩
      simp
  | succ count induction =>
    intro payload offset values next
    simp only [readMany, bind_eq_ok_iff, Prod.exists, Except.ok.injEq, Prod.mk.injEq]
    constructor
    · rintro ⟨value, middle, first, rest, last, later, rfl, rfl⟩
      obtain ⟨isValid, present, rfl⟩ := exact.mp first
      obtain ⟨⟨length, areValid⟩, others, rfl⟩ := induction.mp later
      refine ⟨⟨by rw [List.length_cons, length], ?_⟩, ?_, ?_⟩
      · exact List.forall_mem_cons.mpr ⟨isValid, areValid⟩
      · rw [List.flatMap_cons, append_prefix_drop_iff]
        exact ⟨present, others⟩
      · rw [List.flatMap_cons, List.length_append, Nat.add_assoc]
    · rintro ⟨⟨length, areValid⟩, present, rfl⟩
      cases values with
      | nil => simp at length
      | cons value values =>
        rw [List.flatMap_cons, append_prefix_drop_iff] at present
        rw [List.forall_mem_cons] at areValid
        refine ⟨value, _, exact.mpr ⟨areValid.1, present.1, rfl⟩, values, _,
          induction.mpr ⟨⟨Nat.succ.inj length, areValid.2⟩, present.2, rfl⟩,
          rfl, ?_⟩
        rw [List.flatMap_cons, List.length_append, Nat.add_assoc]

end Nvx.Data
