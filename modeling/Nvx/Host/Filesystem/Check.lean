import Nvx.Host.Filesystem.Plan

namespace Nvx.Host.Filesystem

open Nvx.Data
open Nvx.UnixPath
open Nvx.Protocol (slash dot HostMap maxHostMappings)

/-! The checks of a recorded plan (`verify.rs`). -/

inductive CheckError where
  | children (count : Nat)
  | binds (count : Nat)
  | root (child : Nat) (root : Path)
  | path (child : Nat) (path : Path) (problem : PathProblem)
  | identities (child denied identities : Nat)
  | outside (child : Nat) (path : Path)
  | limit (child : Nat) (problem : LimitProblem)
  | overlap (child other : Nat)
  | rule (child : Nat) (problem : RuleProblem)
  | readOnlyWrites (child : Nat)
  | unmappedRoot (child : Nat)
  | access (child : Nat) (writable : Bool)
  | policyBytes
  | unknownChild (child : Nat)
  | source (bind : Bind)
  | sourceNul (bind : Bind)
  | sourceLong (bind : Bind)
  | otherNames (bind : Bind)
  | hidden (bind : Bind)
  | target (bind : Bind) (problem : TargetProblem)
  | reserved (bind : Bind) (reserved : String)
  | order (bind previous : Bind)
  | inside (bind outer : Bind)
  | narrows (child : Nat) (path : Path)
  | otherWrites (child : Nat)
  | unpinnedDenied (child : Nat) (path : Path)
  | unpinned (bind : Bind)

def ExportChild.bound (child : ExportChild) (bind : Bind) : Path :=
  if bind.source = "" then child.root else child.root.join (asBytes bind.source)

def ExportChild.policyPaths (child : ExportChild) : List Path :=
  child.denied ++ child.allowed ++ child.write

def ExportChild.pathProblem (child : ExportChild) : Option (Path × PathProblem) :=
  (child.root :: child.policyPaths).findSome? fun path =>
    (resolvedPathProblem path).map (path, ·)

def ExportChild.outside (child : ExportChild) : Option Path :=
  child.policyPaths.find? fun path =>
    !path.startsWith child.root || (child.file && path ≠ child.root)

def limits (index : Nat) (child : ExportChild) (paths : List Path)
    (action : String) : Except CheckError Nat :=
  match policyLimits child.root paths action with
  | .ok bytes => .ok bytes
  | .error problem => .error (.limit index problem)

namespace ExportPlan

/-- Checks the child after the children before it, and returns the length of
its policy paths. -/
def checkChild (plan : ExportPlan) (earlier : List ExportChild)
    (child : ExportChild) : Except CheckError Nat := do
  let index := earlier.length
  failIf (child.root.isAbsolute = false ∨ volumeRoot child.root = true) (.root index child.root)
  failOn child.pathProblem fun found => .path index found.1 found.2
  failIf (child.deniedIdentities.length ≠ child.denied.length)
    (.identities index child.denied.length child.deniedIdentities.length)
  failOn child.outside (.outside index)
  let hidden ← limits index child child.denied "hide"
  let shown ← limits index child child.allowed "show again"
  let written ← limits index child child.write "make writable"
  failOn (earlier.findIdx? fun other =>
    other.root.startsWith child.root || child.root.startsWith other.root)
    (.overlap index)
  failOn (policyRuleProblem child) (.rule index)
  failIf (child.writable = false ∧ child.write ≠ []) (.readOnlyWrites index)
  failIf (plan.binds.any (fun bind => bind.child = index && bind.source = "") =
    false) (.unmappedRoot index)
  failIf (child.writable ≠ plan.binds.any fun bind => bind.child = index && !bind.readOnly)
    (.access index child.writable)
  .ok (hidden + shown + written)

def checkChildren (plan : ExportPlan) : (earlier : List ExportChild) →
    List ExportChild → Except CheckError Nat
  | _, [] => .ok 0
  | earlier, child :: rest => do
      let bytes ← plan.checkChild earlier child
      let others ← plan.checkChildren (earlier ++ [child]) rest
      .ok (bytes + others)

def shown (outer : Bind) (rest : List UInt8) : List UInt8 :=
  if outer.source = "" then rest else asBytes outer.source ++ slash :: rest

def checkInside (bind outer : Bind) : Except CheckError Unit :=
  match stripPrefix (asBytes outer.target ++ [slash]) (asBytes bind.target) with
  | none => .ok ()
  | some rest =>
    failIf (bind.child ≠ outer.child ∨ asBytes bind.source ≠ shown outer rest) (.inside bind outer)

def checkSource (child : ExportChild) (bind : Bind) : Except CheckError Unit := do
  failIf (bind.source ≠ "" ∧ (child.file = true ∨
      ((asBytes bind.source).splitOn slash).any (· ∈ [[], [dot], [dot, dot]])))
    (.source bind)
  failIf (0 ∈ asBytes bind.source) (.sourceNul bind)
  failIf (maxGuestPath < (asBytes guestExport).length + 1 +
    (asBytes bind.guestSource).length) (.sourceLong bind)
  failIf (relativeText child.root (child.bound bind) ≠ some bind.source) (.otherNames bind)
  failIf ((hidingRule (child.bound bind) child.denied child.allowed true).isSome ∧
      child.allowed.any (fun shown => shown ≠ child.bound bind &&
        shown.startsWith (child.bound bind)) = false)
    (.hidden bind)

def checkTarget (reserved : ReservedTargets) (bind : Bind) :
    Except CheckError Unit := do
  failOn (targetProblem bind.target) (.target bind)
  failOn (reserved.reservation bind.target) (.reserved bind)

def checkBind (plan : ExportPlan) (reserved : ReservedTargets)
    (earlier : List Bind) (bind : Bind) : Except CheckError Unit :=
  match plan.children[bind.child]? with
  | none => .error (.unknownChild bind.child)
  | some child => do
      checkSource child bind
      checkTarget reserved bind
      failOn (earlier.getLast?.filter fun previous =>
        targetKey bind.target ≤ targetKey previous.target) (.order bind)
      checkAll (checkInside bind) earlier

def readWrite (plan : ExportPlan) (index : Nat) (child : ExportChild) :
    List Path :=
  (plan.binds.filter fun bind => bind.child = index && !bind.readOnly).map child.bound

/-- The writes of a child are those that its read-write binds need. -/
def checkWrite (plan : ExportPlan) (index : Nat) (child : ExportChild) :
    Except CheckError Unit :=
  let readWrite := plan.readWrite index child
  if child.root ∈ readWrite then
    failOn (readWrite.find? fun path => path ≠ child.root && child.write ≠ [] &&
      !child.write.any fun write => path.startsWith write) (.narrows index)
  else failIf (outermost readWrite ≠ sorted child.write) (.otherWrites index)

def checkPins (plan : ExportPlan) (index : Nat) (child : ExportChild) :
    Except CheckError Unit := do
  let part : Writable := ⟨child.writable, child.write⟩
  failOn ((child.denied.zip child.deniedIdentities).find? fun denied =>
    denied.2.isNone && part.moves child.root denied.1) fun denied =>
      .unpinnedDenied index denied.1
  failOn (plan.binds.find? fun bind => bind.child = index &&
    bind.identity.isNone && part.moves child.root (child.bound bind)) .unpinned

def check (plan : ExportPlan) (reserved : ReservedTargets) :
    Except CheckError Unit := do
  failIf (plan.children = [] ∨ maxChildren < plan.children.length) (.children plan.children.length)
  failIf (plan.binds = [] ∨ maxHostMappings < plan.binds.length) (.binds plan.binds.length)
  let policyBytes ← plan.checkChildren [] plan.children
  failIf (maxAggregatePolicyBytes < policyBytes) .policyBytes
  checkAfter (plan.checkBind reserved) [] plan.binds
  checkAll (fun (child, index) => do
    plan.checkWrite index child
    plan.checkPins index child) plan.children.zipIdx

inductive VerifyError where
  | unknownChild
  | readOnlyInWritable (path root : Path)
  | changed (path : Path)
  | uninspected (path : Path) (error : IoError)
  | superuser (root : Path)

/-- A path that no longer reaches its object names it no longer. -/
def uninspected (path : Path) : IoError → VerifyError
  | .notFound | .notADirectory | .permissionDenied | .filesystemLoop =>
    .changed path
  | .other code => .uninspected path (.other code)

def verifyReadOnly (plan : ExportPlan) (bind : Bind) : Except VerifyError Unit :=
  match plan.children[bind.child]? with
  | none => .error .unknownChild
  | some child =>
    failIf (child.writable = true ∧ (child.write = [] ∨
        child.write.any (fun write => (child.bound bind).startsWith write) = true))
      (.readOnlyInWritable (child.bound bind) child.root)

def verifyKind (host : FileSystem) (child : ExportChild) :
    Except VerifyError Unit :=
  match host.symlinkMetadata child.root with
  | .error error => .error (uninspected child.root error)
  | .ok (link, metadata) =>
    failIf (link = true ∨ (if child.file then metadata.isFile else metadata.isDir) = false)
      (.changed child.root)

def verifyIdentity (host : FileSystem) (path : Path) (expected : FileIdentity) :
    Except VerifyError Unit :=
  match host.fileIdentity path with
  | .error error => .error (uninspected path error)
  | .ok found => failIf (found ≠ expected) (.changed path)

def verifyBind (host : FileSystem) (plan : ExportPlan) (bind : Bind) :
    Except VerifyError Unit :=
  match bind.identity, plan.children[bind.child]? with
  | none, _ => .ok ()
  | some _, none => .error .unknownChild
  | some expected, some child => verifyIdentity host (child.bound bind) expected

def verifyDenied (host : FileSystem) (denied : Path × Option FileIdentity) :
    Except VerifyError Unit :=
  match denied.2 with
  | none => .ok ()
  | some expected => verifyIdentity host denied.1 expected

def verifyCaller (host : FileSystem) (child : ExportChild) :
    Except VerifyError Unit :=
  match host.metadata child.root with
  | .error error => .error (uninspected child.root error)
  | .ok metadata => failIf (metadata.uid = 0 ∨ metadata.gid = 0) (.superuser child.root)

def verify (host : FileSystem) (plan : ExportPlan) : Except VerifyError Unit := do
  checkAll plan.verifyReadOnly (plan.binds.filter fun bind => bind.readOnly)
  checkAll (verifyKind host) plan.children
  checkAll (verifyBind host plan) plan.binds
  checkAll (verifyDenied host)
    (plan.children.flatMap fun child => child.denied.zip child.deniedIdentities)
  checkAll (fun child =>
    if plan.owner = .caller then verifyCaller host child else .ok ()) plan.children

/-- The bind mounts in the order and form in which the guest receives them. -/
def guestTable (plan : ExportPlan) : List HostMap :=
  plan.binds.map fun bind => ⟨bind.guestSource, bind.target, bind.readOnly⟩

end ExportPlan

end Nvx.Host.Filesystem
