import Nvx.Protocol.Share
import Nvx.UnixPath

namespace Nvx.Host.Filesystem

open Nvx.Data
open Nvx.UnixPath
open Nvx.Protocol (slash dot reservedMountTargets reservedExactMountTargets)

/-! The text of host paths (`host_path.rs`), and guest paths
(`guest_path.rs`, `mod.rs`). -/

def joined : List String → String
  | [] => ""
  | [name] => name
  | name :: names => name ++ "/" ++ joined names

def toStrs : Path → Option (List String)
  | [] => some []
  | component :: rest => do
      let name ← component.toStr
      let names ← toStrs rest
      some (name :: names)

def relativeText (root path : Path) : Option String :=
  if root <+: path then (toStrs (path.drop root.length)).map joined else none

def guestSource (child : Nat) (source : String) : String :=
  if source = "" then toString child else toString child ++ "/" ++ source

def guestNames : Path → Option String
  | [] => some ""
  | .normal name :: rest => do
      let name ← fromUtf8 name.val
      let names ← guestNames rest
      some ("/" ++ name ++ names)
  | .curDir :: rest => guestNames rest
  | _ :: _ => none

def guestPath : Path → Option String
  | .rootDir :: rest => do
      let guest ← guestNames rest
      some (if guest = "" then "/" else guest)
  | _ => none

def stripPrefix (base text : List UInt8) : Option (List UInt8) :=
  if base <+: text then some (text.drop base.length) else none

def within (path directory : String) : Bool :=
  path = directory || (stripPrefix (asBytes directory) (asBytes path)).any fun rest =>
      (asBytes directory).getLast? = some slash || rest.head? = some slash

def depth (path : String) : Nat :=
  (((asBytes path).splitOn slash).filter (· ≠ [])).length

def maxGuestPath : Nat := 4095

inductive TargetProblem where
  | notAbsolute
  | root
  | long
  | nul
  | component
  deriving DecidableEq

def targetProblem (target : String) : Option TargetProblem :=
  match asBytes target with
  | [] => some .notAbsolute
  | byte :: rest =>
    if byte ≠ slash then some .notAbsolute
    else if rest = [] then some .root
    else if maxGuestPath < (asBytes target).length then some .long
    else if 0 ∈ asBytes target then some .nul
    else if (rest.splitOn slash).any (· ∈ [[], [dot], [dot, dot]]) then
      some .component
    else none

structure ReservedTargets where
  trees : List String
  exact : List String

namespace ReservedTargets

def containerRoot : ReservedTargets where
  trees := reservedMountTargets
  exact := reservedExactMountTargets

def reservation (reserved : ReservedTargets) (target : String) : Option String :=
  if target = "/" then some "/"
  else (reserved.exact.find? (· = target)).or
    (reserved.trees.find? fun tree => within target tree || within tree target)

end ReservedTargets

def volumeRoot (path : Path) : Bool :=
  !path.any Path.isNormal

inductive PathProblem where
  | nul
  | parentDir
  deriving DecidableEq

def resolvedPathProblem (path : Path) : Option PathProblem :=
  if path.any fun component => 0 ∈ component.asOsStr then some .nul
  else if .parentDir ∈ path then some .parentDir
  else none

end Nvx.Host.Filesystem
