import Nvx.Data.Codec
import Nvx.Data.Text

namespace Nvx.Protocol

/-! Violations of the wire contract. -/

structure ProtocolError where
  message : String
  deriving DecidableEq, Repr

def violation (message : String) : ProtocolError :=
  ⟨message⟩

def appHeaderLen : Nat := 24

def slash : UInt8 := 47

def lengthU16 (length : Nat) : UInt16 :=
  if length < 2 ^ 16 then .ofNat length else 65535

def lengthU32 (length : Nat) : UInt32 :=
  if length < 2 ^ 32 then .ofNat length else 4294967295

theorem toNat_lengthU16 (small : length < 2 ^ 16) : (lengthU16 length).toNat = length := by
  rw [lengthU16, if_pos small]
  exact UInt16.toNat_ofNat_of_lt' small

theorem toNat_lengthU32 (small : length < 2 ^ 32) : (lengthU32 length).toNat = length := by
  rw [lengthU32, if_pos small]
  exact UInt32.toNat_ofNat_of_lt' small

theorem eq_lengthU16 (same : value.toNat = length) : value = lengthU16 length := by
  apply UInt16.toNat_inj.mp
  rw [toNat_lengthU16 (same ▸ value.toNat_lt), same]

theorem eq_lengthU32 (same : value.toNat = length) : value = lengthU32 length := by
  apply UInt32.toNat_inj.mp
  rw [toNat_lengthU32 (same ▸ value.toNat_lt), same]

end Nvx.Protocol
