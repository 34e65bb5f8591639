import Nvx.Data.Dialogue
import Nvx.Guest.Errno
import Nvx.Guest.Mappings.Basic
import Nvx.Protocol.Share
import Nvx.UnixPath

namespace Nvx.Guest.Mappings

open Nvx.Data
open Nvx.UnixPath
open Nvx.Protocol (slash dot reservedMountTargets reservedExactMountTargets)

/-! The mapper, which mounts mappings beneath the descriptors of their roots
(`guest/mappings/{mapper,kernel}.rs`).  Each operation of the kernel is a
question, to which the kernel answers what it likes. -/

abbrev Descriptor : Type := Nat

inductive FileKind where
  | directory
  | regular
  | other
  deriving DecidableEq

def Kind.of : FileKind → Option Kind
  | .directory => some .directory
  | .regular => some .file
  | .other => none

structure FileStatus where
  kind : FileKind
  owner : Nat
  mode : Nat
  mount : Nat
  mountRoot : Bool
  deriving DecidableEq

structure MountAttributes where
  readOnly : Bool
  noSetId : Bool
  noDevices : Bool
  deriving DecidableEq

/-- The attributes that a mount with this access gets, and those that it
loses. -/
def Access.attributes : Access → MountAttributes × MountAttributes
  | .readOnly => (⟨true, true, true⟩, ⟨false, false, false⟩)
  | .readWrite => (⟨false, true, true⟩, ⟨true, false, false⟩)

structure OpenFlags where
  path : Bool
  directory : Bool
  deriving DecidableEq

def OpenFlags.oPath : OpenFlags := ⟨true, false⟩

def directoryMode : Nat := 0o755
def fileMode : Nat := 0o644
def permissions : Nat := 0o777
def setGroupId : Nat := 0o2000

inductive Call where
  | openBeneath (directory : Descriptor) (path : List UInt8) (flags : OpenFlags)
      (mode : Nat) (crossMounts : Bool)
  | status (descriptor : Descriptor)
  | createDirectory (directory : Descriptor) (name : List UInt8) (mode : Nat)
  | createFile (directory : Descriptor) (name : List UInt8) (mode : Nat)
  | changeMode (descriptor : Descriptor) (mode : Nat)
  | openTree (descriptor : Descriptor) (clone : Bool)
  | setAttributes (tree : Descriptor) (set clear : MountAttributes)
  | moveMount (tree target : Descriptor)
  | unmountBeneath (directory : Descriptor) (name : List UInt8)
  | detach (tree : Descriptor)
  deriving DecidableEq

def Call.Result : Call → Type
  | .openBeneath .. | .openTree .. => Descriptor
  | .status _ => FileStatus
  | _ => Unit

abbrev Call.Answer (call : Call) : Type := Except Errno call.Result

abbrev Kernel : Type → Type := Dialogue Call Call.Answer

def within (inner outer : List UInt8) : Bool :=
  outer <+: inner && (inner.length = outer.length || inner[outer.length]? = some slash)

def runtimeTree : List UInt8 := asBytes "run/nvx/time"

structure Reserved where
  trees : List (List UInt8)
  paths : List (List UInt8)
  deriving DecidableEq

namespace Reserved

def relative : List String → Except InvalidMapping (List (List UInt8))
  | [] => .ok []
  | path :: paths =>
    match belowItsRoot (asBytes path) true with
    | none => .error .target
    | some below => do
        let others ← relative paths
        .ok (below :: others)

def «new» (trees paths : List String) : Except InvalidMapping Reserved := do
  let trees ← relative trees
  let paths ← relative paths
  .ok ⟨trees, paths⟩

def containerRoot : Except InvalidMapping Reserved :=
  Reserved.new reservedMountTargets reservedExactMountTargets

def holds (reserved : Reserved) (target : List UInt8) : Bool :=
  let tree := fun tree => within target tree || within tree target
  tree runtimeTree || reserved.trees.any tree || reserved.paths.any fun path => path = target

end Reserved

structure TargetRoot where
  directory : Descriptor
  mounts : List Nat

def TargetRoot.owns (root : TargetRoot) (mount : Nat) : Bool :=
  root.mounts.contains mount

inductive Step where
  | source
  | walk
  | create
  | status
  | clone
  | restrict
  | attach
  | locate
  | unmount
  deriving DecidableEq

inductive MappingError where
  | latched
  | reserved
  | overlap (mapped : List UInt8)
  | sourceKind
  | link (path : Path)
  | notDirectory (path : Path)
  | targetKind
  | foreign (path : Path)
  | mountPoint
  | moved (mounted : Bool)
  | system (step : Step) (error : Errno)

def absolute (target : List UInt8) : List UInt8 :=
  if target.head? = some slash then target else slash :: target

abbrev Mounting : Type → Type := ExceptT MappingError Kernel

def query (call : Call) : Mounting call.Answer :=
  ExceptT.mk (.ask call fun answer => .done (.ok answer))

def perform (step : Step) (call : Call) : Mounting call.Result := do
  match ← query call with
  | .ok result => pure result
  | .error error => throw (.system step error)

def openComponent (parent : Descriptor) (name : List UInt8) : Mounting (Except Errno Descriptor) :=
  query (.openBeneath parent name .oPath 0 true)

def createEntry (parent : Descriptor) (name : List UInt8) : Kind → Mounting (Except Errno Unit)
  | .directory => query (.createDirectory parent name 0)
  | .file => query (.createFile parent name fileMode)

def create (root : TargetRoot) (parent : Descriptor) (name : List UInt8)
    (kind : Kind) (path : Path) : Mounting Bool := do
  let status ← perform .status (.status parent)
  if root.owns status.mount then
    match ← createEntry parent name kind with
    | .ok _ => pure true
    | .error error =>
      if error = EEXIST then pure false else throw (.system .create error)
  else throw (.foreign path)

/-- Gives a directory its mode, if it still is as the mapper created it. -/
def giveMode (euid : Nat) (opened : Descriptor) : Mounting Unit := do
  let status ← perform .status (.status opened)
  if status.kind = .directory ∧ status.owner = euid ∧ status.mode &&& permissions = 0 then
    perform .create (.changeMode opened (directoryMode ||| (status.mode &&& setGroupId)))
  else pure ()

def leading (target : List UInt8) (count : Nat) : Path :=
  .rootDir :: ((components target).take count).filter fun component =>
    component ≠ .rootDir ∧ component ≠ .curDir

def refused (target : List UInt8) (index : Nat) (error : Errno) : MappingError :=
  if error = ELOOP then .link (leading target (index + 1))
  else if error = ENOTDIR then .notDirectory (leading target index)
  else .system .walk error

/-- Opens the component at `index`, which it creates if it is missing. -/
def walkComponent (euid : Nat) (root : TargetRoot) (target : List UInt8)
    (index : Nat) (parent : Descriptor) (name : List UInt8) (wanted : Kind) :
    Mounting Descriptor := do
  match ← openComponent parent name with
  | .ok opened => pure opened
  | .error error =>
    if error = ENOENT then
      let created ← create root parent name wanted (leading target (index + 1))
      match ← openComponent parent name with
      | .error error => throw (refused target index error)
      | .ok opened =>
        if created ∧ wanted = .directory then
          giveMode euid opened
          pure opened
        else pure opened
    else throw (refused target index error)

def walkComponents (euid : Nat) (root : TargetRoot) (target : List UInt8)
    (kind : Kind) : (index : Nat) → (current : Option Descriptor) → Path →
      Mounting (Option Descriptor)
  | _, current, [] => pure current
  | index, current, component :: rest => do
      let wanted := if rest = [] then kind else .directory
      if 0 ∈ component.asOsStr then throw (.system .walk EINVAL)
      else
        let opened ← walkComponent euid root target index
          (current.getD root.directory) component.asOsStr wanted
        walkComponents euid root target kind (index + 1) (some opened) rest

/-- A mapping may cover the root of one of the root's own mounts, and any place
on them or inside an earlier mapping. -/
def checkDestination (root : TargetRoot) (mapped : List Nat)
    (target : List UInt8) (kind : Kind) (status : FileStatus) :
    Except MappingError Unit :=
  if Kind.of status.kind ≠ some kind then .error .targetKind
  else if status.mountRoot ∧ root.owns status.mount = false then
    .error .mountPoint
  else if root.owns status.mount = false ∧ status.mount ∉ mapped then
    .error (.foreign (components (absolute target)))
  else .ok ()

def walk (euid : Nat) (root : TargetRoot) (mapped : List Nat)
    (target : List UInt8) (kind : Kind) : Mounting Descriptor := do
  match ← walkComponents euid root target kind 0 none (components target) with
  | none => throw (.system .walk EINVAL)
  | some destination =>
    let status ← perform .status (.status destination)
    match checkDestination root mapped target kind status with
    | .ok () => pure destination
    | .error error => throw error

inductive Source where
  | beneath (directory : Descriptor) (path : List UInt8)
  | mount (descriptor : Descriptor)

def sourceKind (status : FileStatus) : Mounting Kind :=
  match Kind.of status.kind with
  | some kind => pure kind
  | none => throw .sourceKind

/-- What the mapping copies, its kind, and whether it is cloned. -/
def openSource : Source → Mounting (Descriptor × Kind × Bool)
  | .beneath directory path => do
      let path := if path = [] then [dot] else path
      if 0 ∈ path then throw (.system .source EINVAL)
      else
        let descriptor ← perform .source (.openBeneath directory path .oPath 0 false)
        let status ← perform .source (.status descriptor)
        let kind ← sourceKind status
        pure (descriptor, kind, true)
  | .mount descriptor => do
      let status ← perform .source (.status descriptor)
      if status.mountRoot then
        let kind ← sourceKind status
        pure (descriptor, kind, false)
      else throw .sourceKind

/-- The status of what `path` names beneath the directory, the topmost mount
there if any. -/
def statusAt (directory : Descriptor) (path : List UInt8) : Mounting (Except Errno FileStatus) := do
  if 0 ∈ path then pure (.error EINVAL)
  else
    match ← query (.openBeneath directory path .oPath 0 true) with
    | .error error => pure (.error error)
    | .ok descriptor => query (.status descriptor)

def locate (root : TargetRoot) (target : List UInt8) : Mounting (Except Errno FileStatus) :=
  statusAt root.directory target

/-- A tree that is attached somewhere else than at its target, if it could not
be detached. -/
structure AttachFailure where
  error : MappingError
  stray : Option Descriptor

abbrev Attaching : Type → Type := ExceptT AttachFailure Kernel

def orFail (mounting : Mounting Value) : Attaching Value :=
  ExceptT.mk do
    match ← mounting.run with
    | .ok value => pure (.ok value)
    | .error error => pure (.error ⟨error, none⟩)

def detachMoved (tree : Descriptor) : Attaching Nat := do
  match ← orFail (query (.detach tree)) with
  | .ok _ => throw ⟨.moved false, none⟩
  | .error _ => throw ⟨.moved true, some tree⟩

/-- Copies the source's mount, restricts the copy, and attaches it at the
destination. -/
def mountTree (access : Access) (copied : Descriptor) (clone : Bool)
    (destination : Descriptor) : Mounting (Descriptor × Nat) := do
  let tree ← perform .clone (.openTree copied clone)
  perform .restrict (.setAttributes tree access.attributes.1 access.attributes.2)
  let status ← perform .status (.status tree)
  perform .attach (.moveMount tree destination)
  pure (tree, status.mount)

def attach (euid : Nat) (root : TargetRoot) (mapped : List Nat)
    (source : Source) (target : List UInt8) (access : Access)
    (kind : Option Kind) : Attaching Nat := do
  let (copied, found, clone) ← orFail (openSource source)
  if kind.any (· ≠ found) then throw ⟨.sourceKind, none⟩
  else
    let destination ← orFail (walk euid root mapped target found)
    let (tree, mount) ← orFail (mountTree access copied clone destination)
    match ← orFail (locate root target) with
    | .ok status =>
      if status.mount = mount ∧ status.mountRoot then pure mount
      else detachMoved tree
    | .error _ => detachMoved tree

structure Mapped where
  target : List UInt8
  mount : Nat
  deriving DecidableEq

structure Stray where
  target : List UInt8
  tree : Descriptor
  deriving DecidableEq

/-- Opens the directory that holds the target, which is the root itself for a
target of one component. -/
def openParent (root : TargetRoot) (target : List UInt8) : Mounting (Except Errno Descriptor) := do
  let path := (parent target).getD []
  if path = [] then pure (.ok root.directory)
  else if 0 ∈ path then pure (.error EINVAL)
  else query (.openBeneath root.directory path ⟨true, true⟩ 0 true)

def unmount (root : TargetRoot) (mapping : Mapped) : Mounting Unit := do
  match ← openParent root mapping.target with
  | .error error => throw (.system .locate error)
  | .ok directory =>
    match fileName mapping.target with
    | none => throw (.system .locate EINVAL)
    | some name =>
      match ← statusAt directory name.val with
      | .error error => throw (.system .locate error)
      | .ok status =>
        if status.mount = mapping.mount ∧ status.mountRoot then
          perform .unmount (.unmountBeneath directory name.val)
        else throw (.moved true)

structure Mapper where
  root : TargetRoot
  reserved : Reserved
  mapped : List Mapped
  stray : Option Stray
  latched : Bool

structure UnmountFailure where
  target : List UInt8
  error : MappingError

namespace Mapper

def «new» (root : TargetRoot) (reserved : Reserved) : Mapper :=
  ⟨root, reserved, [], none, false⟩

def checkTarget (mapper : Mapper) (target : List UInt8) :
    Except MappingError Unit :=
  if mapper.reserved.holds target then .error .reserved
  else
    match mapper.mapped.find? fun mapped => within mapped.target target with
    | some mapped => .error (.overlap (absolute mapped.target))
    | none => .ok ()

def attachWith (euid : Nat) (mapper : Mapper) (source : Source)
    (target : List UInt8) (access : Access) (kind : Option Kind) :
    Kernel (Mapper × Except MappingError Unit) :=
  if mapper.latched then pure (mapper, .error .latched)
  else
    match mapper.checkTarget target with
    | .error error =>
      pure ({ mapper with latched := true, stray := none }, .error error)
    | .ok () => do
        match ← (attach euid mapper.root (mapper.mapped.map (·.mount)) source
            target access kind).run with
        | .ok mount =>
          pure ({ mapper with mapped := mapper.mapped ++ [⟨target, mount⟩] }, .ok ())
        | .error failure =>
          pure ({ mapper with
            latched := true
            stray := failure.stray.map (⟨target, ·⟩) }, .error failure.error)

/-- Applies the mappings in order, and returns the index of the first that is
refused or fails. -/
def applyFrom (euid : Nat) (directory : Descriptor) : (entry : Nat) → Mapper →
    List Mapping → Kernel (Mapper × Except (Nat × MappingError) Unit)
  | _, mapper, [] => pure (mapper, .ok ())
  | entry, mapper, mapping :: rest => do
      let (mapper, attached) ← mapper.attachWith euid
        (.beneath directory mapping.source) mapping.target mapping.access
        mapping.kind
      match attached with
      | .ok () => applyFrom euid directory (entry + 1) mapper rest
      | .error error => pure (mapper, .error (entry, error))

def applyWith (euid : Nat) (mapper : Mapper) (directory : Descriptor) (mappings : List Mapping) :
    Kernel (Mapper × Except (Nat × MappingError) Unit) :=
  applyFrom euid directory 0 mapper mappings

def moveMountWith (euid : Nat) (mapper : Mapper) (mount : Descriptor)
    (target : List UInt8) (access : Access) :
    Kernel (Mapper × Except MappingError Unit) :=
  mapper.attachWith euid (.mount mount) target access (some .directory)

/-- Detaches the stray, and returns its failure with the index after those of
the mappings. -/
def detachStray (count : Nat) : Option Stray → Kernel (List (Nat × UnmountFailure))
  | none => pure []
  | some stray => do
      match ← (query (.detach stray.tree)).run with
      | .ok (.error error) => pure [(count, ⟨absolute stray.target, .system .unmount error⟩)]
      | _ => pure []

/-- Unmounts the mappings, which come with their indices, one after the
other. -/
def unmountEach (root : TargetRoot) : List (Mapped × Nat) → Kernel (List (Nat × UnmountFailure))
  | [] => pure []
  | (mapping, index) :: rest => do
      let result ← (unmount root mapping).run
      let failures ← unmountEach root rest
      match result with
      | .ok () => pure failures
      | .error error =>
        pure ((index, ⟨absolute mapping.target, error⟩) :: failures)

def unmountWith (mapper : Mapper) : Kernel (Mapper × List (Nat × UnmountFailure)) := do
  let strays ← detachStray mapper.mapped.length mapper.stray
  let failures ← unmountEach mapper.root mapper.mapped.zipIdx.reverse
  pure ({ mapper with mapped := [], stray := none }, strays ++ failures)

end Mapper

end Nvx.Guest.Mappings
