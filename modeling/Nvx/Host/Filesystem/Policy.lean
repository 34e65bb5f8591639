import Nvx.Host.Filesystem.Basic

namespace Nvx.Host.Filesystem

open Nvx.Data
open Nvx.UnixPath

/-! The denied, allowed and writable paths of an export (`policy.rs`). -/

/-- The nearest policy path that contains `path`, and whether it is a denied
one. -/
def nearestRule (path : Path) (denied allowed : List Path) (inclusive : Bool) :
    Option (Path × Bool) :=
  lastMax (fun rule => rule.1.length)
    ((denied.map (·, true) ++ allowed.map (·, false)).filter fun rule =>
      (inclusive || rule.1 ≠ path) && path.startsWith rule.1)

/-- The nearest policy path that contains `path`, if it is a denied one. -/
def hidingRule (path : Path) (denied allowed : List Path) (inclusive : Bool) :
    Option Path :=
  match nearestRule path denied allowed inclusive with
  | some (rule, true) => some rule
  | _ => none

structure PolicyPath where
  given : List UInt8
  canonical : Path

def canonicals (paths : List PolicyPath) : List Path :=
  paths.map PolicyPath.canonical

def resolvePolicyPath (host : FileSystem) (field : String) (path : List UInt8) :
    Except PlanError Path :=
  match host.canonicalize path with
  | .ok canonical => .ok canonical
  | .error error => .error (.inaccessible field path error)

/-- The deepest ancestor that exists is resolved, and the missing names are
appended.  The fuel is the number of components, each of which one round
takes off. -/
def lenientFrom (host : FileSystem) : (fuel : Nat) → (existing : List UInt8) →
    (missing : List Name) → Except IoError (Path × Bool)
  | fuel, existing, missing =>
    match host.canonicalize existing with
    | .ok canonical =>
      .ok (canonical ++ missing.reverse.map .normal, missing = [])
    | .error .notFound =>
      match fuel, fileName existing, parent existing with
      | fuel + 1, some name, some parent =>
        lenientFrom host fuel parent (missing ++ [name])
      | _, _, _ => .error .notFound
    | .error error => .error error

def canonicalizeLenient (host : FileSystem) (path : List UInt8) : Except IoError (Path × Bool) :=
  lenientFrom host (components path).length path []

/-- A write path lies inside a directory that is mapped read-write as a
whole. -/
def narrows (mapped : List Mapped) (roots : List Path) (canonical : Path) :
    Bool :=
  (roots.find? fun root => canonical.startsWith root).any fun root =>
    root ≠ canonical && mapped.any fun entry =>
      entry.canonical = root && entry.directory && !entry.readOnly

def writePath (host : FileSystem) (field : String) (mapped : List Mapped)
    (roots : List Path) (path : List UInt8) : Except PlanError PolicyPath := do
  let canonical ← resolvePolicyPath host field path
  failIf (narrows mapped roots canonical = false) (.narrowsNothing field path)
  .ok ⟨path, canonical⟩

def writePaths (host : FileSystem) (list : PathList) (mapped : List Mapped)
    (roots : List Path) : Except PlanError (List PolicyPath) :=
  mapAll (writePath host list.name mapped roots) list.paths

/-- Write paths narrow the writes of the directory, which a child exports
whole. -/
def narrowed (write : List PolicyPath) (roots : List Path) (canonical : Path) :
    Bool :=
  roots.contains canonical && write.any fun path => path.canonical.startsWith canonical

/-- The read-write mapping in which the host cannot keep `inner` read-only. -/
def writableHolder (mapped : List Mapped) (write : List PolicyPath)
    (roots : List Path) (inner : Mapped) : Option Mapped :=
  mapped.find? fun outer =>
    !outer.readOnly && !narrowed write roots outer.canonical &&
      (outer.canonical = inner.canonical ||
        (outer.directory && inner.canonical.startsWith outer.canonical))

def checkReadOnlyEntry (mapped : List Mapped) (write : List PolicyPath)
    (writeName : String) (roots : List Path) (inner : Mapped) :
    Except PlanError Unit :=
  match write.find? fun path => inner.canonical.startsWith path.canonical with
  | some path => .error (.readOnlyInside inner writeName path.given
      "narrow the writes to paths outside it")
  | none =>
    match writableHolder mapped write roots inner with
    | none => .ok ()
    | some outer =>
      if outer.canonical = inner.canonical then
        .error (.readOnlyObject inner outer)
      else .error (.readOnlyInside inner outer.name outer.given
        ("map that directory read-only and the paths in it that the " ++ "guest writes read-write"))

def checkReadOnly (mapped : List Mapped) (write : List PolicyPath)
    (writeName : String) (roots : List Path) : Except PlanError Unit :=
  checkAll (checkReadOnlyEntry mapped write writeName roots)
    (mapped.filter fun entry => entry.readOnly)

def identity (host : FileSystem) (path : Path) : Except PlanError FileIdentity :=
  match host.fileIdentity path with
  | .ok identity => .ok identity
  | .error error => .error (.unidentified path error)

def distinctRoots (host : FileSystem) : (identities : List (FileIdentity × Path)) →
    List Path → Except PlanError Unit
  | _, [] => .ok ()
  | identities, root :: roots => do
      let current ← identity host root
      failOn (identities.find? fun other => other.1 = current) fun other =>
        .sameObject other.2 root
      distinctRoots host (identities ++ [(current, root)]) roots

def allowedPath (host : FileSystem) (field : String) (roots : List Path)
    (path : List UInt8) : Except PlanError PolicyPath := do
  let canonical ← resolvePolicyPath host field path
  failIf (canonical ∈ roots) (.exportedItself field path)
  failIf (roots.any (fun root => canonical.startsWith root) = false) (.noMappedDirectory field path)
  .ok ⟨path, canonical⟩

/-- Appends the path unless the list holds its resolved path already. -/
def addNew (paths : List PolicyPath) (path : PolicyPath) : List PolicyPath :=
  if paths.any fun other => other.canonical = path.canonical then paths
  else paths ++ [path]

def allowedPaths (host : FileSystem) (list : PathList) (roots : List Path) :
    Except PlanError (List PolicyPath) := do
  let paths ← mapAll (allowedPath host list.name roots) list.paths
  .ok (paths.foldl addNew [])

structure Resolved where
  path : PolicyPath
  «exists» : Bool

def resolveDenied (host : FileSystem) (field : String) (path : List UInt8) :
    Except PlanError Resolved :=
  match canonicalizeLenient host path with
  | .ok (canonical, found) => .ok ⟨⟨path, canonical⟩, found⟩
  | .error error => .error (.unresolved field path error)

/-- The denied paths hide the mapped path, and the allowed ones inside it do
not show it again. -/
def hides (denied allowed : List Path) (entry : Mapped) : Bool :=
  (hidingRule entry.canonical denied allowed true).any fun rule =>
    !(entry.directory && rule = entry.canonical && allowed.any fun shown =>
        shown ≠ entry.canonical && shown.startsWith entry.canonical)

def checkDenied (field : String) (mapped : List Mapped)
    (denied allowed : List Path) (resolved : Resolved) : Except PlanError Unit :=
  if resolved.exists then
    failOn (mapped.find? fun entry =>
        entry.canonical.startsWith resolved.path.canonical &&
          hides denied allowed entry) fun entry =>
      .containsMapped field resolved.path.given entry.given
  else
    failOn (mapped.find? fun entry =>
        resolved.path.canonical.startsWith entry.canonical) fun entry =>
      .missingInside field resolved.path.given entry.given

def deniedPaths (host : FileSystem) (list : PathList) (mapped : List Mapped)
    (allowed : List PolicyPath) : Except PlanError (List PolicyPath) := do
  let resolved ← mapAll (resolveDenied host list.name) list.paths
  let existing := (resolved.filter (·.exists)).map (·.path)
  checkAll (checkDenied list.name mapped (canonicals existing) (canonicals allowed)) resolved
  .ok (existing.foldl addNew [])

def checkAllowedPath (allowedName deniedName : String)
    (denied allowed : List Path) (path : PolicyPath) : Except PlanError Unit :=
  if path.canonical ∈ denied then
    .error (.alsoDenied allowedName path.given deniedName)
  else
    match nearestRule path.canonical denied allowed false with
    | some (_, true) => .ok ()
    | some (other, false) => .error (.shownAlready allowedName path.given other)
    | none => .error (.nothingToShow allowedName path.given deniedName)

def checkAllowedPaths (allowedName deniedName : String)
    (allowed denied : List PolicyPath) : Except PlanError Unit :=
  checkAll (checkAllowedPath allowedName deniedName (canonicals denied)
    (canonicals allowed)) allowed

def checkWritePaths (writeName deniedName : String)
    (write denied allowed : List PolicyPath) : Except PlanError Unit :=
  checkAll (fun path =>
    failOn (hidingRule path.canonical (canonicals denied) (canonicals allowed)
      true) fun rule => .writeHidden writeName path.given deniedName rule) write

/-- The denied paths of one child that no other of them hides already. -/
def neededDeniedPaths (denied allowed : List Path) : List Path :=
  sorted (denied.filter fun path =>
    (hidingRule path denied allowed false).isNone)

structure Writable where
  writable : Bool
  write : List Path

/-- A workload could move `path`, which lies in the child at `root`. -/
def Writable.moves (part : Writable) (root path : Path) : Bool :=
  part.writable && path ≠ root && (part.write = [] ||
      part.write.any fun write => path ≠ write && path.startsWith write)

def readWritePaths (root : Path) (mapped : List Mapped) : List Path :=
  (mapped.filter fun entry =>
    !entry.readOnly && entry.canonical.startsWith root).map (·.canonical)

def narrowingPaths (root : Path) (write : List PolicyPath) : List Path :=
  (write.filter fun path => path.canonical.startsWith root).map (·.canonical)

def writablePart (root : Path) (mapped : List Mapped) (write : List PolicyPath) : Writable :=
  let readWrite := readWritePaths root mapped
  let narrowing := narrowingPaths root write
  if readWrite = [] then ⟨false, []⟩
  else if root ∉ readWrite then ⟨true, outermost readWrite⟩
  else if narrowing = [] then ⟨true, []⟩
  else ⟨true, outermost (narrowing ++ readWrite.filter (· ≠ root))⟩

inductive RuleProblem where
  | twice (kind : String) (path : Path)
  | hiddenAlready (path rule : Path)
  | hiddenAndShown (path : Path)
  | shownAlready (path rule : Path)
  | nothingToShow (path : Path)
  | writesAll (path : Path)
  | writableAlready (path other : Path)
  | writeHidden (path rule : Path)

def repeated [DecidableEq Item] : (earlier : List Item) → List Item → Option Item
  | _, [] => none
  | earlier, item :: rest =>
    if item ∈ earlier then some item else repeated (earlier ++ [item]) rest

def listedTwice (paths : List Path) (kind : String) : Option RuleProblem :=
  (repeated [] paths).map (.twice kind)

def deniedProblem (child : ExportChild) (path : Path) : Option RuleProblem :=
  (hidingRule path child.denied child.allowed false).map (.hiddenAlready path)

def allowedProblem (child : ExportChild) (path : Path) : Option RuleProblem :=
  if path ∈ child.denied then some (.hiddenAndShown path)
  else
    match nearestRule path child.denied child.allowed false with
    | some (_, true) => none
    | some (rule, false) => some (.shownAlready path rule)
    | none => some (.nothingToShow path)

def writeProblem (child : ExportChild) (path : Path) : Option RuleProblem :=
  if path = child.root then some (.writesAll path)
  else
    match child.write.find? fun other => other ≠ path && path.startsWith other with
    | some other => some (.writableAlready path other)
    | none => (hidingRule path child.denied child.allowed true).map (.writeHidden path)

def policyRuleProblem (child : ExportChild) : Option RuleProblem :=
  (listedTwice child.denied "hidden").or <|
  (listedTwice child.allowed "allowed").or <|
  (listedTwice child.write "writable").or <|
  (child.denied.findSome? (deniedProblem child)).or <|
  (child.allowed.findSome? (allowedProblem child)).or <|
  child.write.findSome? (writeProblem child)

end Nvx.Host.Filesystem
