import Nvx.Protocol.Maps

namespace Nvx.Activation

open Nvx.Data

/-! The activation record of a layered root (`activation/mod.rs`). -/

def version : UInt16 := 1
def maxRecordBytes : Nat := 1024
def maxMappings : Nat := Protocol.maxHostMappings
def maxHostnameBytes : Nat := 64
def maxProxyEndpointBytes : Nat := 255

abbrev Identity : Type := Bytes 32
abbrev TransactionId : Type := Bytes 16
abbrev Uuid : Type := Bytes 16

abbrev StoreGeneration : Type := { number : UInt64 // number ≠ 0 }

inductive IpAddr where
  | v4 (octets : Bytes 4)
  | v6 (octets : Bytes 16)
  deriving DecidableEq

structure TemplateReference where
  generation : StoreGeneration
  key : Identity
  deriving DecidableEq

structure RestoreSection where
  transaction : TransactionId
  template : TemplateReference
  deriving DecidableEq

inductive ImageFormat where
  | erofs
  | gpt
  deriving DecidableEq

inductive Image where
  | erofs (binding : Identity) (uuid : Option Uuid)
  | gpt (binding : Identity) (diskGuid : Option Uuid) (firstPartitionBound : UInt64)
  deriving DecidableEq

namespace Image

def format : Image → ImageFormat
  | .erofs .. => .erofs
  | .gpt .. => .gpt

def expected : Image → Option Uuid
  | .erofs _ uuid => uuid
  | .gpt _ diskGuid _ => diskGuid

end Image

inductive Journal where
  | allowed
  | forbidden
  deriving DecidableEq

inductive Upper where
  | tmpfs
  | scratch (binding : Identity) (journal : Journal)
  deriving DecidableEq

inductive OverlayMode where
  | trustedLowers
  | untrustedLowers
  deriving DecidableEq

inductive ExportKind where
  | directory
  | aggregate
  deriving DecidableEq

structure Export where
  kind : ExportKind
  plan : Identity
  deriving DecidableEq

inductive Publication where
  | published
  | unpublished
  deriving DecidableEq

structure Network where
  policy : Identity
  dns : Option IpAddr
  publication : Publication
  proxy : Option String
  deriving DecidableEq

inductive MachineIdMode where
  | image
  | generated
  deriving DecidableEq

structure WorkloadIdentity where
  uid : UInt32
  gid : UInt32
  deriving DecidableEq

structure WorkloadView where
  hostname : List UInt8
  machineId : MachineIdMode
  identity : Option WorkloadIdentity
  deriving DecidableEq

structure ExpectedResources where
  cpus : UInt32
  memory : UInt64
  deriving DecidableEq

structure Configuration where
  image : Image
  upper : Upper
  overlay : OverlayMode
  «export» : Option Export
  mappings : Nat
  network : Option Network
  workload : WorkloadView
  resources : ExpectedResources
  deriving DecidableEq

inductive Field where
  | restore
  | image
  | imageIdentity
  | upper
  | overlay
  | «export»
  | mappings
  | network
  | dns
  | proxy
  | hostname
  | machineId
  | workloadIdentity
  | resources
  deriving DecidableEq

inductive ActivationError where
  | firstPartitionBound
  | exportWithoutMappings
  | mappingsWithoutExport
  | tooManyMappings (mappings : Nat)
  | proxyEndpoint
  | hostname
  | workloadIdentity
  | cpus
  | memory
  | tooLong (length : Nat)
  | truncated
  | version (version : UInt16)
  | unknownField (tag : UInt8)
  | duplicateField (field : Field)
  | fieldOrder (field : Field)
  | fieldLength (field : Field) (length : Nat)
  | fieldValue (field : Field)
  | missingField (field : Field)
  | withoutNetwork (field : Field)
  deriving DecidableEq

def isAsciiGraphic (byte : UInt8) : Bool :=
  33 ≤ byte && byte ≤ 126

def isProxyEndpoint (endpoint : String) : Bool :=
  !(asBytes endpoint).isEmpty && (asBytes endpoint).length ≤ maxProxyEndpointBytes &&
    (asBytes endpoint).all fun byte => isAsciiGraphic byte && byte != 64

def isUnusableId (id : UInt32) : Bool :=
  id == 0 || id == 4294967295

namespace Configuration

def checkImage (configuration : Configuration) : Except ActivationError Unit :=
  match configuration.image with
  | .gpt _ _ bound => if bound = 0 then .error .firstPartitionBound else .ok ()
  | .erofs .. => .ok ()

def checkMappings (configuration : Configuration) : Except ActivationError Unit :=
  match configuration.export.isSome, configuration.mappings with
  | true, 0 => .error .exportWithoutMappings
  | true, mappings =>
    if maxMappings < mappings then .error (.tooManyMappings mappings) else .ok ()
  | false, _ + 1 => .error .mappingsWithoutExport
  | false, 0 => .ok ()

def checkProxy (configuration : Configuration) : Except ActivationError Unit :=
  match configuration.network.bind (·.proxy) with
  | some proxy => if isProxyEndpoint proxy then .ok () else .error .proxyEndpoint
  | none => .ok ()

def checkHostname (configuration : Configuration) : Except ActivationError Unit :=
  let hostname := configuration.workload.hostname
  if hostname.isEmpty || maxHostnameBytes < hostname.length || hostname.contains 0 then
    .error .hostname
  else .ok ()

def checkIdentity (configuration : Configuration) : Except ActivationError Unit :=
  match configuration.workload.identity with
  | some identity =>
    if [identity.uid, identity.gid].any isUnusableId then
      .error .workloadIdentity
    else .ok ()
  | none => .ok ()

def checkResources (configuration : Configuration) : Except ActivationError Unit :=
  if configuration.resources.cpus = 0 then .error .cpus
  else if configuration.resources.memory = 0 then .error .memory
  else .ok ()

def check (configuration : Configuration) : Except ActivationError Unit := do
  configuration.checkImage
  configuration.checkMappings
  configuration.checkProxy
  configuration.checkHostname
  configuration.checkIdentity
  configuration.checkResources

end Configuration

@[ext] structure ActivationRecord where
  restore : Option RestoreSection
  configuration : Configuration
  kept : configuration.check = .ok ()

namespace ActivationRecord

def new (restore : Option RestoreSection) (configuration : Configuration) :
    Except ActivationError ActivationRecord :=
  match kept : configuration.check with
  | .error error => .error error
  | .ok () => .ok { restore, configuration, kept }

theorem new_eq_ok_iff {restore : Option RestoreSection} {configuration : Configuration} :
    new restore configuration = .ok record ↔
      record.restore = restore ∧ record.configuration = configuration := by
  unfold new
  split
  · rename_i error refused
    constructor
    · intro impossible
      cases impossible
    · rintro ⟨_, rfl⟩
      rw [record.kept] at refused
      cases refused
  · rw [Except.ok.injEq]
    constructor
    · rintro rfl
      exact ⟨rfl, rfl⟩
    · rintro ⟨rfl, rfl⟩
      rfl

end ActivationRecord

namespace Configuration

theorem check_eq_ok_iff : check configuration = .ok () ↔
      configuration.checkImage = .ok () ∧ configuration.checkMappings = .ok () ∧
        configuration.checkProxy = .ok () ∧ configuration.checkHostname = .ok () ∧
        configuration.checkIdentity = .ok () ∧
        configuration.checkResources = .ok () := by
  simp only [check, bind_eq_ok_iff]
  constructor
  · rintro ⟨_, image, _, mappings, _, proxy, _, hostname, _, identity, resources⟩
    exact ⟨image, mappings, proxy, hostname, identity, resources⟩
  · rintro ⟨image, mappings, proxy, hostname, identity, resources⟩
    exact ⟨_, image, _, mappings, _, proxy, _, hostname, _, identity, resources⟩

theorem hostname_length_le (kept : check configuration = .ok ()) :
    configuration.workload.hostname.length ≤ maxHostnameBytes := by
  obtain ⟨_, _, _, hostname, _, _⟩ := check_eq_ok_iff.mp kept
  rw [checkHostname, ite_error_eq_ok_iff] at hostname
  simp only [Bool.or_eq_true, decide_eq_true_eq, not_or] at hostname
  omega

theorem proxy_length_le {network : Network}
    (kept : check configuration = .ok ()) (isNetwork : configuration.network = some network)
    (isProxy : network.proxy = some proxy) :
    (asBytes proxy).length ≤ maxProxyEndpointBytes := by
  obtain ⟨_, _, checked, _⟩ := check_eq_ok_iff.mp kept
  rw [checkProxy, isNetwork, Option.bind_some, isProxy] at checked
  simp only at checked
  split at checked
  · rename_i endpoint
    simp only [isProxyEndpoint, Bool.and_eq_true, decide_eq_true_eq] at endpoint
    exact endpoint.1.2
  · cases checked

theorem mappings_eq_zero
    (kept : check configuration = .ok ()) (absent : configuration.export = none) :
    configuration.mappings = 0 := by
  obtain ⟨_, checked, _⟩ := check_eq_ok_iff.mp kept
  rw [checkMappings, absent, Option.isSome_none] at checked
  cases count : configuration.mappings with
  | zero => rfl
  | succ mappings =>
    rw [count] at checked
    cases checked

theorem mappings_bounds (kept : check configuration = .ok ())
    (present : configuration.export.isSome) :
    0 < configuration.mappings ∧ configuration.mappings ≤ maxMappings := by
  obtain ⟨_, checked, _⟩ := check_eq_ok_iff.mp kept
  rw [checkMappings, present] at checked
  cases count : configuration.mappings with
  | zero =>
    rw [count] at checked
    cases checked
  | succ mappings =>
    rw [count] at checked
    simp only [ite_error_eq_ok_iff] at checked
    omega

end Configuration

end Nvx.Activation
