import Mathlib.Algebra.Order.BigOperators.Ring.Finset

namespace Nvx.Data

instance lawfulBEqBytes : LawfulBEq (List UInt8) := inferInstance

def asBytes (text : String) : List UInt8 :=
  text.toByteArray.data.toList

def isDigit (byte : UInt8) : Bool :=
  48 ≤ byte.toNat ∧ byte.toNat ≤ 57

/-- The number that the digits write. -/
def decimal (digits : List UInt8) : Nat :=
  digits.foldl (fun value digit => value * 10 + (digit.toNat - 48)) 0

def IsUtf8 (bytes : List UInt8) : Prop :=
  bytes.toByteArray.IsValidUTF8

instance (bytes : List UInt8) : Decidable (IsUtf8 bytes) :=
  inferInstanceAs (Decidable bytes.toByteArray.IsValidUTF8)

def fromUtf8 (bytes : List UInt8) : Option String :=
  if valid : IsUtf8 bytes then some (.ofByteArray bytes.toByteArray valid)
  else none

theorem toByteArray_asBytes (text : String) : (asBytes text).toByteArray = text.toByteArray := by
  apply ByteArray.ext
  rw [List.data_toByteArray, asBytes, Array.toArray_toList]

theorem asBytes_ofByteArray (valid : IsUtf8 bytes) :
    asBytes (.ofByteArray bytes.toByteArray valid) = bytes := by
  rw [asBytes, List.data_toByteArray]

theorem asBytes_injective : Function.Injective asBytes := by
  intro first second same
  apply String.toByteArray_inj.mp
  rw [← toByteArray_asBytes first, same, toByteArray_asBytes]

@[simp] theorem asBytes_append (first second : String) :
    asBytes (first ++ second) = asBytes first ++ asBytes second := by
  rw [asBytes, String.toByteArray_append, ByteArray.data_append, Array.toList_append]
  rfl

theorem isUtf8_asBytes (text : String) : IsUtf8 (asBytes text) := by
  rw [IsUtf8, toByteArray_asBytes]
  exact text.isValidUTF8

theorem fromUtf8_eq_some_iff : fromUtf8 bytes = some text ↔ asBytes text = bytes := by
  unfold fromUtf8
  split
  · rename_i valid
    rw [Option.some.injEq]
    constructor
    · rintro rfl
      exact asBytes_ofByteArray valid
    · intro same
      apply asBytes_injective
      rw [asBytes_ofByteArray, same]
  · rename_i invalid
    constructor
    · intro found
      cases found
    · rintro rfl
      exact absurd (isUtf8_asBytes text) invalid

theorem isUtf8_iff : IsUtf8 bytes ↔ ∃ text, asBytes text = bytes := by
  constructor
  · intro valid
    exact ⟨_, asBytes_ofByteArray valid⟩
  · rintro ⟨text, rfl⟩
    exact isUtf8_asBytes text

theorem asBytes_singleton : ∀ number < 128,
    asBytes (String.singleton (Char.ofNat number)) = [UInt8.ofNat number] := by
  decide +kernel

theorem isUtf8_of_ascii (ascii : ∀ byte ∈ bytes, byte.toNat < 128) : IsUtf8 bytes := by
  rw [isUtf8_iff]
  induction bytes with
  | nil => exact ⟨"", rfl⟩
  | cons byte rest induction =>
    rw [List.forall_mem_cons] at ascii
    obtain ⟨text, rfl⟩ := induction ascii.2
    refine ⟨String.singleton (Char.ofNat byte.toNat) ++ text, ?_⟩
    rw [asBytes_append, asBytes_singleton byte.toNat ascii.1,
      UInt8.ofNat_toNat, List.singleton_append]

end Nvx.Data
