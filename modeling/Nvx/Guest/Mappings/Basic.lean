import Nvx.Protocol.Maps

namespace Nvx.Guest.Mappings

open Nvx.Data
open Nvx.Protocol (slash Normal)

/-! Host mappings (`guest/mappings.rs`).  A path of the guest is its bytes. -/

def maxPathBytes : Nat := 4095

inductive Access where
  | readOnly
  | readWrite
  deriving DecidableEq

inductive Kind where
  | directory
  | file
  deriving DecidableEq

inductive InvalidMapping where
  | source
  | target
  deriving DecidableEq

def stripRoot : List UInt8 → Option (List UInt8)
  | byte :: rest => if byte = slash then some rest else none
  | [] => none

def belowItsRoot (path : List UInt8) (absolute : Bool) : Option (List UInt8) := do
  let components ← if absolute then stripRoot path else some path
  if path.length ≤ maxPathBytes ∧ 0 ∉ path ∧ Normal components then
    some components
  else none

/-- A source below a source root, or that root itself, and a target below a
target root. -/
structure Mapping where
  source : List UInt8
  target : List UInt8
  access : Access
  kind : Option Kind
  sourceBelow : source = [] ∨ (belowItsRoot source false).isSome
  targetBelow : ∃ path, belowItsRoot path true = some target
  deriving DecidableEq

def Mapping.new (source target : List UInt8) (access : Access) :
    Except InvalidMapping Mapping :=
  if sourceBelow : source = [] ∨ (belowItsRoot source false).isSome then
    match found : belowItsRoot target true with
    | some below => .ok {
        source := source
        target := below
        access := access
        kind := none
        sourceBelow := sourceBelow
        targetBelow := ⟨target, found⟩ }
    | none => .error .target
  else .error .source

theorem stripRoot_eq_some_iff : stripRoot path = some components ↔ path = slash :: components := by
  cases path with
  | nil => simp [stripRoot]
  | cons byte rest =>
    simp only [stripRoot, Option.ite_none_right_eq_some, Option.some.injEq, List.cons.injEq]

theorem belowItsRoot_absolute_eq_some_iff : belowItsRoot path true = some components ↔
      path = slash :: components ∧ path.length ≤ maxPathBytes ∧ 0 ∉ path ∧
        Normal components := by
  simp only [belowItsRoot, if_true, Option.bind_eq_bind, Option.bind_eq_some_iff,
    stripRoot_eq_some_iff, Option.ite_none_right_eq_some, Option.some.injEq]
  constructor
  · rintro ⟨_, rfl, valid, rfl⟩
    exact ⟨rfl, valid⟩
  · rintro ⟨rfl, valid⟩
    exact ⟨components, rfl, valid, rfl⟩

theorem Mapping.new_eq_ok {source target : List UInt8} {access : Access}
    (made : Mapping.new source target access = .ok mapping) :
    mapping.source = source ∧ slash :: mapping.target = target ∧
      mapping.access = access ∧ mapping.kind = none := by
  unfold Mapping.new at made
  split at made
  case isFalse => cases made
  case isTrue =>
    split at made
    case h_2 => cases made
    case h_1 below found =>
      cases made
      exact ⟨rfl, (belowItsRoot_absolute_eq_some_iff.mp found).1.symm, rfl, rfl⟩

end Nvx.Guest.Mappings
