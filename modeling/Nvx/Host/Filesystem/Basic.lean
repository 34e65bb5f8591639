import Nvx.Data.Loops
import Nvx.Host.Filesystem.Path

namespace Nvx.Host.Filesystem

open Nvx.Data
open Nvx.UnixPath
open Nvx.Protocol (slash HostMap)

/-! Requests and plans of an export (`host/filesystem/mod.rs`), and the host
that a plan is made on.  An error is what its text says, without the text. -/

def maxChildren : Nat := 256
def maxPolicyPaths : Nat := 128
def maxPolicyBytes : Nat := 16 * 1024
def maxPolicyPathBytes : Nat := 4096
def maxAggregatePolicyBytes : Nat := 128 * 1024

def guestExport : String := "/run/nvx/hostfs/root"

inductive Owner where
  | vmm
  | caller
  deriving DecidableEq

structure FileIdentity where
  device : Nat
  index : Nat
  deriving DecidableEq

structure ExportChild where
  root : Path
  file : Bool
  writable : Bool
  denied : List Path
  deniedIdentities : List (Option FileIdentity)
  allowed : List Path
  write : List Path
  deriving DecidableEq

structure Bind where
  child : Nat
  source : String
  target : String
  readOnly : Bool
  identity : Option FileIdentity
  deriving DecidableEq

def Bind.guestSource (bind : Bind) : String :=
  Filesystem.guestSource bind.child bind.source

structure ExportPlan where
  children : List ExportChild
  binds : List Bind
  owner : Owner
  deriving DecidableEq

inductive Target where
  | convention
  | guest (target : String)

structure Mapping where
  name : String
  path : List UInt8
  target : Target
  readOnly : Bool

structure PathList where
  name : String
  paths : List (List UInt8)

structure ExportRequest where
  mappings : List Mapping
  denied : PathList
  allowed : PathList
  write : PathList
  owner : Owner
  reserved : ReservedTargets

structure Mapped where
  name : String
  given : List UInt8
  canonical : Path
  target : String
  readOnly : Bool
  directory : Bool

inductive IoError where
  | notFound
  | notADirectory
  | permissionDenied
  | filesystemLoop
  | other (code : Int)
  deriving DecidableEq

structure Metadata where
  isDir : Bool
  isFile : Bool
  uid : Nat
  gid : Nat

structure FileSystem where
  canonicalize : List UInt8 → Except IoError Path
  metadata : Path → Except IoError Metadata
  /-- Whether the object at the path itself is a link, a directory, a file. -/
  symlinkMetadata : Path → Except IoError (Bool × Metadata)
  fileIdentity : Path → Except IoError FileIdentity

inductive LimitProblem where
  | paths (action : String) (root : Path) (count : Nat)
  | notText (path : Path)
  | characters (action : String) (path root : Path)
  | bytes (action : String) (root : Path)

inductive PlanError where
  | inaccessible (field : String) (given : List UInt8) (error : IoError)
  | notText (name : String) (given : List UInt8)
  | uninspected (path : List UInt8) (error : IoError)
  | neitherDirectoryNorFile (name : String) (given : List UInt8)
  | volume (name : String) (given : List UInt8)
  | noGuestPath (name : String) (given : List UInt8)
  | covers (name : String) (given : List UInt8) (target : Option String) (reserved : String)
  | target (name : String) (given : List UInt8) (target : String) (problem : TargetProblem)
  | manyMappings
  | sameTarget (entry other : Mapped)
  | hidesPart (inner outer : Mapped)
  | narrowsNothing (field : String) (given : List UInt8)
  | readOnlyInside (inner : Mapped) (outerName : String) (outer : List UInt8) (instead : String)
  | readOnlyObject (inner outer : Mapped)
  | unidentified (path : Path) (error : IoError)
  | sameObject (other root : Path)
  | manyChildren (count : Nat)
  | exportedItself (field : String) (given : List UInt8)
  | noMappedDirectory (field : String) (given : List UInt8)
  | unresolved (field : String) (given : List UInt8) (error : IoError)
  | missingInside (field : String) (given mapped : List UInt8)
  | containsMapped (field : String) (given mapped : List UInt8)
  | alsoDenied (field : String) (given : List UInt8) (denied : String)
  | shownAlready (field : String) (given : List UInt8) (other : Path)
  | nothingToShow (field : String) (given : List UInt8) (denied : String)
  | writeHidden (field : String) (given : List UInt8) (denied : String) (rule : Path)
  | narrowingHidden (denied : String) (rule : Path) (name : String)
      (given : List UInt8 ⊕ Path) (root : Path)
  | notMapped (root : Path)
  | uninspectedPath (path : Path) (error : IoError)
  | link (root current : Path)
  | policyLink (action : String) (path current : Path)
  | limit (problem : LimitProblem)
  | otherFileSystem (action : String) (path root : Path)
  | manyPolicyBytes
  | noChild (given : List UInt8)
  | long (given : List UInt8)
  | superuser (root : Path)

def isWhitespace (character : Char) : Bool :=
  character.val ∈ [0x20, 0x85, 0xA0, 0x1680, 0x2028, 0x2029, 0x202F, 0x205F, 0x3000] ||
  (0x09 ≤ character.val && character.val ≤ 0x0D) ||
  (0x2000 ≤ character.val && character.val ≤ 0x200A)

def unsuitable (relative : String) : Bool :=
  maxPolicyPathBytes < (asBytes relative).length ||
  relative.toList.any (fun character =>
    (isWhitespace character && character ≠ ' ') || character = ':' || character = '\\') ||
  ((asBytes relative).splitOn slash).any fun name =>
    name.head? = some 0x20 || name.getLast? = some 0x20

def pathsLength (root : Path) (action : String) : List Path → Except LimitProblem Nat
  | [] => .ok 0
  | path :: paths =>
    match relativeText root path with
    | none => .error (.notText path)
    | some relative =>
      if unsuitable relative then .error (.characters action path root)
      else do
        let total ← pathsLength root action paths
        .ok ((asBytes relative).length + total)

def policyLimits (root : Path) (paths : List Path) (action : String) :
    Except LimitProblem Nat :=
  if maxPolicyPaths < paths.length then
    .error (.paths action root paths.length)
  else do
    let total ← pathsLength root action paths
    if maxPolicyBytes < total then .error (.bytes action root)
    else .ok total

end Nvx.Host.Filesystem
