import Nvx.Host.Egress.Text

namespace Nvx.Host.Egress

open Nvx.Data

/-! Egress rules of one action, and how they are put together. -/

inductive NativeProtocol
  | icmp
  | tcp
  | udp
  deriving DecidableEq, Repr

def NativeProtocol.asStr : NativeProtocol → String
  | .icmp => "icmp"
  | .tcp => "tcp"
  | .udp => "udp"

inductive RuleProtocol
  | tcp
  | udp
  | icmp
  | any
  deriving DecidableEq, Repr

namespace RuleProtocol

def parse (text : String) : Option RuleProtocol :=
  if text = "tcp" then some .tcp
  else if text = "udp" then some .udp
  else if text = "icmp" then some .icmp
  else if text = "any" then some .any
  else none

def native : RuleProtocol → Option NativeProtocol
  | .tcp => some .tcp
  | .udp => some .udp
  | .icmp => some .icmp
  | .any => none

def portProtocols : RuleProtocol → List NativeProtocol
  | .tcp => [.tcp]
  | .udp => [.udp]
  | .icmp => [.icmp]
  | .any => [.tcp, .udp]

end RuleProtocol

abbrev PortRange : Type := UInt16 × UInt16

abbrev Selector : Type := Option NativeProtocol × Option PortRange

inductive PortValue
  | integer (value : Int)
  | other
  deriving DecidableEq, Repr

structure Rule where
  family : Family
  addresses : List Interval
  protocol : Option NativeProtocol
  ports : Option PortRange
  deriving DecidableEq, Repr

/-- An error of the kind `Unsupported`, or the subtraction of more than there is,
which panics. -/
inductive Failure
  | unsupported (message : String)
  | underflow
  deriving DecidableEq, Repr

def invalid (message : String) : Failure :=
  .unsupported message

def network (value description : String) : Except Failure Network :=
  match parseInterface value with
  | .ok network => .ok network
  | .error .invalid =>
    let quoted := value.quote
    .error (invalid s!"{description} is not a valid IPv4 or IPv6 CIDR: {quoted}")
  | .error .scoped =>
    let quoted := value.quote
    .error (invalid s!"{description} must not name an IPv6 scope: {quoted}")

def notACidrString (description : String) : Failure :=
  invalid s!"{description} must be an IPv4 or IPv6 CIDR string"

/-- Each exception is parsed when it is read, and lies within the parent. -/
def readExceptions (parent : Network) (description : String) :
    Nat → List (Except Failure Network) → Except Failure (List Interval)
  | _, [] => .ok []
  | index, exception :: exceptions => do
      let exception ← exception
      if parent.contains exception then
        return exception.interval :: (← readExceptions parent description (index + 1) exceptions)
      else
        let outer := parent.write
        .error (invalid s!"{description}.except[{index}] must be contained in {outer}")

def destination (parent : Network) (exceptions : List (Except Failure Network))
    (description : String) : Except Failure (Family × List Interval) := do
  let excluded ← readExceptions parent description 0 exceptions
  return (parent.family, subtract [parent.interval] (merge excluded))

def groupDestinations (destinations : List (Family × List Interval)) :
    List (Family × List Interval) :=
  (Family.all.filter fun family => destinations.any (·.1 = family)).map fun family =>
      (family, merge ((destinations.filter (·.1 = family)).flatMap Prod.snd))

def port (value : PortValue) (description : String) : Except Failure UInt16 :=
  match value with
  | .other => .error (invalid s!"{description} must be an integer")
  | .integer value =>
    if 1 ≤ value ∧ value ≤ 65535 then .ok (.ofNat value.toNat)
    else .error (invalid s!"{description} must be between 1 and 65535")

def lastPort (start : UInt16) (last : Option PortValue) (description : String) :
    Except Failure UInt16 :=
  match last with
  | some last => port last s!"{description}.endPort"
  | none => .ok start

def portRange (start : PortValue) (last : Option PortValue)
    (description : String) : Except Failure PortRange := do
  let start ← port start s!"{description}.port"
  let last ← lastPort start last description
  if last < start then
    .error (invalid s!"{description}.endPort {last} cannot be below port {start}")
  else return (start, last)

def portSelectors (protocol : RuleProtocol) (port endPort : Option PortValue)
    (description : String) : Except Failure (List Selector) :=
  match port with
  | none =>
    if endPort.isSome then
      .error (invalid s!"{description}.endPort requires port")
    else .ok [(protocol.native, none)]
  | some port =>
    if protocol = .icmp then
      .error (invalid s!"{description}.port is not supported with icmp")
    else do
      let range ← portRange port endPort description
      return protocol.portProtocols.map fun protocol =>
        (some protocol, some range)

/-- Without destinations every address of both families, and without selectors
every protocol and port. -/
def combine (destinations : Option (List (Family × List Interval)))
    (selectors : Option (List Selector)) : List Rule :=
  let destinations := destinations.getD (Family.all.map fun family => (family, [family.everything]))
  let selectors := selectors.getD [(none, none)]
  destinations.flatMap fun (family, addresses) =>
    selectors.map fun (protocol, ports) => ⟨family, addresses, protocol, ports⟩

end Nvx.Host.Egress
