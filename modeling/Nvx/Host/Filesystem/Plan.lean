import Nvx.Host.Filesystem.Policy

namespace Nvx.Host.Filesystem

open Nvx.Data
open Nvx.UnixPath
open Nvx.Protocol (slash maxHostMappings)

/-! The planner of an export (`host/filesystem/mod.rs`), on a Unix host. -/

def resolveTarget (mapping : Mapping) (reserved : ReservedTargets)
    (canonical : Path) : Except PlanError String :=
  match mapping.target with
  | .convention =>
    match guestPath canonical with
    | none => .error (.noGuestPath mapping.name mapping.path)
    | some target => do
        failOn (reserved.reservation target) fun reserved =>
          .covers mapping.name mapping.path none reserved
        .ok target
  | .guest target => do
      failOn (targetProblem target) fun problem =>
        .target mapping.name mapping.path target problem
      failOn (reserved.reservation target) fun reserved =>
        .covers mapping.name mapping.path (some target) reserved
      .ok target

def inspect (host : FileSystem) (given : List UInt8) (canonical : Path) :
    Except PlanError Metadata :=
  match host.metadata canonical with
  | .ok metadata => .ok metadata
  | .error error => .error (.uninspected given error)

def resolveMapping (host : FileSystem) (reserved : ReservedTargets)
    (mapping : Mapping) : Except PlanError Mapped := do
  let canonical ← resolvePolicyPath host mapping.name mapping.path
  failIf (canonical.isText = false) (.notText mapping.name mapping.path)
  let metadata ← inspect host mapping.path canonical
  failIf (metadata.isDir = false ∧ metadata.isFile = false)
    (.neitherDirectoryNorFile mapping.name mapping.path)
  failIf (metadata.isDir = true ∧ volumeRoot canonical = true) (.volume mapping.name mapping.path)
  let target ← resolveTarget mapping reserved canonical
  .ok {
    name := mapping.name
    given := mapping.path
    canonical := canonical
    target := target
    readOnly := mapping.readOnly
    directory := metadata.isDir }

/-- The same object listed twice at one target keeps its most restrictive
access. -/
def merge : List Mapped → Mapped → List Mapped
  | [], entry => [entry]
  | other :: rest, entry =>
    if other.canonical = entry.canonical ∧ other.target = entry.target then
      (if entry.readOnly && !other.readOnly then entry else other) :: rest
    else other :: merge rest entry

/-- `inner`, whose target lies below that of `outer`, maps the object that
`outer` shows there. -/
def shows (outer inner : Mapped) : Bool :=
  match stripPrefix (asBytes outer.target ++ [slash]) (asBytes inner.target) with
  | none => false
  | some rest => outer.directory && (relativeText outer.canonical inner.canonical).any fun names =>
        asBytes names = rest

def checkTargetPair (entry other : Mapped) : Except PlanError Unit :=
  if entry.target = other.target then .error (.sameTarget entry other)
  else if within entry.target other.target then
    failIf (shows other entry = false) (.hidesPart entry other)
  else if within other.target entry.target then
    failIf (shows entry other = false) (.hidesPart other entry)
  else .ok ()

def checkTargets (mapped : List Mapped) : Except PlanError Unit :=
  checkAfter (fun earlier entry => checkAll (checkTargetPair entry) earlier) [] mapped

def checkNoLink (host : FileSystem) (refused : Path → PlanError) :
    (current : Path) → Path → Except PlanError Unit
  | _, [] => .ok ()
  | current, component :: rest =>
    let current := current ++ [component]
    if Path.isNormal component then
      match host.symlinkMetadata current with
      | .error error => .error (.uninspectedPath current error)
      | .ok (true, _) => .error (refused current)
      | .ok (false, _) => checkNoLink host refused current rest
    else checkNoLink host refused current rest

def checkRoot (host : FileSystem) (root : Path) : Except PlanError Unit :=
  checkNoLink host (.link root) [] root

def device (host : FileSystem) (path : Path) : Option Nat :=
  match host.fileIdentity path with
  | .ok identity => some identity.device
  | .error _ => none

def checkPolicyPath (host : FileSystem) (root : Path) (action : String)
    (path : Path) : Except PlanError Unit := do
  let relative := (relativeText root path).getD ""
  checkNoLink host (.policyLink action path) root (parts (asBytes relative))
  failIf (device host path ≠ device host root) (.otherFileSystem action path root)

def checkPolicyPaths (host : FileSystem) (root : Path) (paths : List Path)
    (action : String) : Except PlanError Nat :=
  match policyLimits root paths action with
  | .error problem => .error (.limit problem)
  | .ok total => do
      checkAll (checkPolicyPath host root action) paths
      .ok total

structure Draft where
  mapped : List Mapped
  roots : List Path
  write : List PolicyPath
  denied : List Path
  allowed : List Path

namespace Draft

def part (draft : Draft) (root : Path) : Writable :=
  writablePart root draft.mapped draft.write

/-- Only an object inside a writable part can be swapped by a workload. -/
def movable (draft : Draft) (path : Path) : Bool :=
  draft.roots.any fun root =>
    path.startsWith root && (draft.part root).moves root path

/-- How messages name a path to which a child's writes are narrowed. -/
def nameOf (draft : Draft) (writeName : String) (path : Path) : String × (List UInt8 ⊕ Path) :=
  match draft.mapped.find? fun entry => entry.canonical = path with
  | some entry => (entry.name, .inl entry.given)
  | none => (writeName, .inr path)

def checkWrites (draft : Draft) (deniedName writeName : String) (root : Path) :
    Except PlanError Unit :=
  checkAll (fun path =>
    failOn (hidingRule path draft.denied draft.allowed true) fun rule =>
      let (name, given) := draft.nameOf writeName path
      .narrowingHidden deniedName rule name given root) (draft.part root).write

def pin (draft : Draft) (host : FileSystem) (path : Path) :
    Except PlanError (Option FileIdentity) :=
  if draft.movable path then do
    let found ← identity host path
    .ok (some found)
  else .ok none

def inside (root : Path) (paths : List Path) : List Path :=
  paths.filter fun path => path.startsWith root

def childAllowed (draft : Draft) (root : Path) : List Path :=
  inside root draft.allowed

def childDenied (draft : Draft) (root : Path) : List Path :=
  neededDeniedPaths (inside root draft.denied) (draft.childAllowed root)

/-- The child at `root`, and the combined length of its policy paths. -/
def child (draft : Draft) (host : FileSystem) (root : Path) :
    Except PlanError (ExportChild × Nat) :=
  match draft.mapped.find? fun entry => entry.canonical = root with
  | none => .error (.notMapped root)
  | some own => do
      checkRoot host root
      let hidden ← checkPolicyPaths host root (draft.childDenied root) "hide"
      let shown ← checkPolicyPaths host root (draft.childAllowed root) "show again"
      let written ← checkPolicyPaths host root (draft.part root).write "make writable"
      let deniedIdentities ← mapAll (draft.pin host) (draft.childDenied root)
      .ok ({
        root := root
        file := !own.directory
        writable := (draft.part root).writable
        denied := draft.childDenied root
        deniedIdentities := deniedIdentities
        allowed := draft.childAllowed root
        write := (draft.part root).write }, hidden + shown + written)

def bind (draft : Draft) (host : FileSystem) (children : List ExportChild)
    (entry : Mapped) : Except PlanError Bind :=
  match children.findIdx? fun child => entry.canonical.startsWith child.root with
  | none => .error (.noChild entry.given)
  | some index =>
    match (children[index]?).bind fun child =>
        relativeText child.root entry.canonical with
    | none => .error (.notText entry.name entry.given)
    | some source => do
        failIf (maxGuestPath < (asBytes guestExport).length + 1 +
            (asBytes (guestSource index source)).length ∨
          maxGuestPath < (asBytes entry.target).length) (.long entry.given)
        let identity ← draft.pin host entry.canonical
        .ok {
          child := index
          source := source
          target := entry.target
          readOnly := entry.readOnly
          identity := identity }

end Draft

/-- Bind mounts are ordered by their depth, and then by their target. -/
def targetKey (target : String) : List Nat :=
  depth target :: (asBytes target).map UInt8.toNat

def checkCallerRoot (host : FileSystem) (child : ExportChild) :
    Except PlanError Unit :=
  match host.metadata child.root with
  | .error error => .error (.uninspectedPath child.root error)
  | .ok metadata =>
    failIf (metadata.uid = 0 ∨ metadata.gid = 0) (.superuser child.root)

def draft (host : FileSystem) (request : ExportRequest)
    (mapped : List Mapped) : Except PlanError Draft := do
  failIf (maxHostMappings < mapped.length) .manyMappings
  checkTargets mapped
  let roots := outermost (mapped.map (·.canonical))
  let write ← writePaths host request.write mapped roots
  checkReadOnly mapped write request.write.name roots
  distinctRoots host [] roots
  failIf (maxChildren < roots.length) (.manyChildren roots.length)
  let allowed ← allowedPaths host request.allowed roots
  let denied ← deniedPaths host request.denied mapped allowed
  checkAllowedPaths request.allowed.name request.denied.name allowed denied
  checkWritePaths request.write.name request.denied.name write denied allowed
  .ok {
    mapped := mapped
    roots := roots
    write := write
    denied := canonicals denied
    allowed := sorted (canonicals allowed) }

def render (host : FileSystem) (request : ExportRequest) (draft : Draft) :
    Except PlanError ExportPlan := do
  checkAll (draft.checkWrites request.denied.name request.write.name) draft.roots
  let children ← mapAll (draft.child host) draft.roots
  failIf (maxAggregatePolicyBytes < (children.map Prod.snd).sum) .manyPolicyBytes
  let binds ← mapAll (draft.bind host (children.map Prod.fst)) draft.mapped
  let binds := binds.mergeSort fun left right =>
    decide (targetKey left.target ≤ targetKey right.target)
  checkAll (fun child =>
    if request.owner = .caller then checkCallerRoot host child else .ok ())
    (children.map Prod.fst)
  .ok {
    children := children.map Prod.fst
    binds := binds
    owner := request.owner }

/-- Plans the export of the request, or nothing if it maps nothing. -/
def plan (host : FileSystem) (request : ExportRequest) : Except PlanError (Option ExportPlan) := do
  let entries ← mapAll (resolveMapping host request.reserved) request.mappings
  let mapped := entries.foldl merge []
  if mapped = [] then .ok none
  else do
    let draft ← draft host request mapped
    let plan ← render host request draft
    .ok (some plan)

end Nvx.Host.Filesystem
