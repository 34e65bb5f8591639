import Nvx.Data.Prefixes
import Nvx.Protocol.Maps

namespace Nvx.UnixPath

open Nvx.Data
open Nvx.Protocol (slash dot)

/-! Paths of a Unix system, as Rust's standard library reads them.  It compares,
orders and joins paths by their components, so a path of the model is the list
of its components. -/

abbrev Name : Type :=
  { bytes : List UInt8 // bytes ∉ [[], [dot], [dot, dot]] ∧ slash ∉ bytes }

inductive Component where
  | rootDir
  | curDir
  | parentDir
  | normal (name : Name)

namespace Component

/-- Components are ordered by their kind, and names by their bytes. -/
def key : Component → List Nat
  | .rootDir => [0]
  | .curDir => [1]
  | .parentDir => [2]
  | .normal name => 3 :: name.val.map UInt8.toNat

theorem key_injective : Function.Injective key := by
  intro first second same
  cases first with
  | rootDir | curDir | parentDir => cases second <;> simp_all [key]
  | normal name =>
    cases second with
    | rootDir | curDir | parentDir => simp_all [key]
    | normal other =>
      simp only [key, List.cons.injEq, true_and] at same
      rw [Subtype.ext (List.map_injective_iff.mpr (fun _ _ => UInt8.toNat.inj) same)]

instance : LinearOrder Component :=
  LinearOrder.lift' key key_injective

def asOsStr : Component → List UInt8
  | .rootDir => [slash]
  | .curDir => [dot]
  | .parentDir => [dot, dot]
  | .normal name => name.val

def toStr (component : Component) : Option String :=
  fromUtf8 component.asOsStr

end Component

abbrev Path : Type := List Component

instance lawfulBEqPath : LawfulBEq Path := inferInstance

/-- The component that a part of a path's text between slashes names. -/
def component (part : List UInt8) : Option Component :=
  if part = [dot, dot] then some .parentDir
  else if valid : part ∉ [[], [dot], [dot, dot]] ∧ slash ∉ part then
    some (.normal ⟨part, valid⟩)
  else none

def parts (text : List UInt8) : Path :=
  (text.splitOn slash).filterMap component

def components (text : List UInt8) : Path :=
  if text.head? = some slash then .rootDir :: parts text
  else if (text.splitOn slash).head? = some [dot] then .curDir :: parts text
  else parts text

namespace Path

def join (path : Path) (text : List UInt8) : Path :=
  if text.head? = some slash ∨ path = [] then components text
  else path ++ parts text

def startsWith (path base : Path) : Bool :=
  base <+: path

def isAbsolute (path : Path) : Bool :=
  path.head? = some .rootDir

def isNormal : Component → Bool
  | .normal _ => true
  | _ => false

def isText (path : Path) : Bool :=
  path.all fun component => component.toStr.isSome

end Path

def fileName (text : List UInt8) : Option Name :=
  match (components text).getLast? with
  | some (.normal name) => some name
  | _ => none

def insignificant (part : List UInt8) : Bool :=
  part = [] || part = [dot]

def parent (text : List UInt8) : Option (List UInt8) :=
  let parts := text.splitOn slash
  let others := (parts.reverse.dropWhile insignificant).tail.dropWhile insignificant
  match (components text).getLast? with
  | none | some .rootDir => none
  | some .curDir => some []
  | _ =>
    if others ≠ [] then some (List.intercalate [slash] others.reverse)
    else if text.head? = some slash then some [slash]
    else if parts.head? = some [dot] then some [dot]
    else some []

end Nvx.UnixPath
