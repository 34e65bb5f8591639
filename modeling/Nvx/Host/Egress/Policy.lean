import Mathlib.Data.Rat.Defs
import Nvx.Host.Egress.Lowering

namespace Nvx.Host.Egress

open Nvx.Data

/-! Egress policies, and the egress rules of a network posture. -/

inductive Number
  | posInt (value : UInt64)
  | negInt (value : Int64) (negative : value < 0)
  | float (value : Rat)
  deriving DecidableEq

inductive Json
  | null
  | bool (value : Bool)
  | number (value : Number)
  | string (value : String)
  | array (elements : List Json)
  | object (fields : List (String × Json))

abbrev Fields : Type := List (String × Json)

namespace Fields

def get (fields : Fields) (name : String) : Option Json :=
  fields.lookup name

def hasAny (fields : Fields) (names : List String) : Bool :=
  names.any fun name => (fields.get name).isSome

def least : List String → Option String
  | [] => none
  | name :: names =>
    some (names.foldl (fun least name => if name < least then name else least) name)

def checkFields (fields : Fields) (names : List String) (description : String) :
    Except Failure Unit :=
  match least ((fields.map Prod.fst).filter fun name => !names.contains name) with
  | some name =>
    let quoted := name.quote
    .error (invalid s!"{description} has unknown field {quoted}")
  | none => .ok ()

end Fields

def rootFields : List String := ["allow", "deny"]

def mxcRuleFields : List String := ["to", "ports"]

def peerFields : List String := ["cidr", "except"]

def portFields : List String := ["protocol", "port", "endPort"]

def legacyRuleFields : List String :=
  ["cidr", "except", "protocol", "port", "endPort"]

def object (value : Json) (description : String) : Except Failure Fields :=
  match value with
  | .object fields => .ok fields
  | _ => .error (invalid s!"{description} must be an object")

def array (value : Json) (description : String) : Except Failure (List Json) :=
  match value with
  | .array elements => .ok elements
  | _ => .error (invalid s!"{description} must be an array")

def optionalArray (field : Option Json) (description : String) : Except Failure (List Json) :=
  match field with
  | some value => array value description
  | none => .ok []

def beyond64Bits : Rat := 9223372036854775808

def portValue : Json → PortValue
  | .number (.posInt value) => .integer value.toNat
  | .number (.negInt value _) => .integer value.toInt
  | .number (.float value) =>
    if beyond64Bits ≤ value then .integer (2 ^ 127 - 1)
    else if value ≤ -beyond64Bits then .integer (-2 ^ 127)
    else .other
  | _ => .other

def protocolField (value : Json) (description : String) :
    Except Failure RuleProtocol :=
  let parsed := match value with
    | .string text => RuleProtocol.parse text
    | _ => none
  match parsed with
  | some protocol => .ok protocol
  | none => .error (invalid s!"{description}.protocol must be tcp, udp, icmp, or any")

def protocolOrAny (field : Option Json) (description : String) :
    Except Failure RuleProtocol :=
  match field with
  | some value => protocolField value description
  | none => .ok .any

def parseEach {Value : Type} (parse : Item → String → Except Failure Value)
    (description : String) : Nat → List Item → Except Failure (List Value)
  | _, [] => .ok []
  | index, item :: items => do
      let value ← parse item s!"{description}[{index}]"
      return value :: (← parseEach parse description (index + 1) items)

/-- What parsing each exception gives, which is read in order. -/
def exceptionNetworks (parse : Item → String → Except Failure Network)
    (description : String) (items : List Item) : List (Except Failure Network) :=
  items.zipIdx.map fun (item, index) =>
    parse item s!"{description}.except[{index}]"

def parseNetwork (value : Json) (description : String) :
    Except Failure Network :=
  match value with
  | .string text => network text description
  | _ => .error (notACidrString description)

def parsePeerFields (fields : Fields) (description : String) :
    Except Failure (Family × List Interval) :=
  match fields.get "cidr" with
  | none => .error (invalid s!"{description}.cidr is required")
  | some cidr => do
      let parent ← parseNetwork cidr s!"{description}.cidr"
      let exceptions ← optionalArray (fields.get "except") s!"{description}.except"
      destination parent (exceptionNetworks parseNetwork description exceptions) description

def parsePeer (value : Json) (description : String) : Except Failure (Family × List Interval) := do
  let peer ← object value description
  peer.checkFields peerFields description
  parsePeerFields peer description

def legacySelectors (rule : Fields) (description : String) :
    Except Failure (Option (List Selector)) :=
  match rule.get "protocol" with
  | none =>
    if (rule.get "port").isSome then
      .error (invalid s!"{description}.port requires protocol")
    else .ok none
  | some value => do
      let protocol ← protocolField value description
      let selectors ← portSelectors protocol ((rule.get "port").map portValue)
        ((rule.get "endPort").map portValue) description
      return some selectors

def parseLegacyRule (rule : Fields) (description : String) : Except Failure (List Rule) := do
  rule.checkFields legacyRuleFields description
  let destinations ← parsePeerFields rule description
  if (rule.get "endPort").isSome ∧ (rule.get "port").isNone then
    .error (invalid s!"{description}.endPort requires port")
  else
    let selectors ← legacySelectors rule description
    return combine (some [destinations]) selectors

def parseMxcPort (value : Json) (description : String) : Except Failure (List Selector) := do
  let port ← object value description
  port.checkFields portFields description
  let protocol ← protocolOrAny (port.get "protocol") description
  portSelectors protocol ((port.get "port").map portValue)
    ((port.get "endPort").map portValue) description

/-- Parses the elements of an optional field, which must have some. -/
def parseElements {Value : Type} (parse : Json → String → Except Failure Value)
    (field : Option Json) (description emptiness : String) :
    Except Failure (Option (List Value)) :=
  match field with
  | none => .ok none
  | some value => do
      let elements ← array value description
      if elements = [] then .error (invalid emptiness)
      else return some (← parseEach parse description 0 elements)

def parseMxcRule (rule : Fields) (description : String) : Except Failure (List Rule) := do
  rule.checkFields mxcRuleFields description
  let destinations ← parseElements parsePeer (rule.get "to") s!"{description}.to"
    s!"{description}.to must contain at least one destination"
  let selectors ← parseElements parseMxcPort (rule.get "ports") s!"{description}.ports"
    s!"{description}.ports must contain at least one selector"
  return combine (destinations.map groupDestinations) (selectors.map List.flatten)

def parseRule (value : Json) (description : String) : Except Failure (List Rule) := do
  let rule ← object value description
  if rule.hasAny legacyRuleFields then
    if rule.hasAny mxcRuleFields then
      .error (invalid s!"{description} cannot mix MXC to/ports fields with legacy flat fields")
    else parseLegacyRule rule description
  else parseMxcRule rule description

def parseCategory (value : Option Json) (category : String) : Except Failure (List Rule) := do
  let elements ← optionalArray value category
  return (← parseEach parseRule category 0 elements).flatten

def compileCategory (value : Option Json) (category : String) : Except Failure (List String) := do
  lower (← parseCategory value category) category

structure CompiledEgressPolicy where
  allow : List String
  deny : List String
  deriving DecidableEq, Repr

def compilePolicy (value : Json) : Except Failure CompiledEgressPolicy := do
  let root ← object value "egress policy"
  root.checkFields rootFields "egress policy"
  return {
    allow := ← compileCategory (root.get "allow") "allow"
    deny := ← compileCategory (root.get "deny") "deny" }

structure Destination where
  cidr : String
  except : List String

structure PortSelector where
  protocol : RuleProtocol
  port : Option UInt16
  endPort : Option UInt16

/-- No destinations match every one, and no ports every protocol and port. -/
structure EgressRule where
  destinations : List Destination
  ports : List PortSelector

structure EgressRules where
  name : String
  rules : List EgressRule

def parseDestination (peer : Destination) (description : String) :
    Except Failure (Family × List Interval) := do
  let parent ← network peer.cidr s!"{description}.cidr"
  destination parent (exceptionNetworks network description peer.except) description

def parsePortSelector (selector : PortSelector) (description : String) :
    Except Failure (List Selector) :=
  let value := fun port : UInt16 => PortValue.integer port.toNat
  portSelectors selector.protocol (selector.port.map value) (selector.endPort.map value) description

def parseUnlessEmpty {Value : Type}
    (parse : Item → String → Except Failure Value) (description : String)
    (items : List Item) : Except Failure (Option (List Value)) :=
  if items.isEmpty then .ok none
  else (parseEach parse description 0 items).map some

def parseEgressRule (rule : EgressRule) (description : String) : Except Failure (List Rule) := do
  let destinations ← parseUnlessEmpty parseDestination s!"{description}.to" rule.destinations
  let selectors ← parseUnlessEmpty parsePortSelector s!"{description}.ports" rule.ports
  return combine (destinations.map groupDestinations) (selectors.map List.flatten)

def parseRules (rules : EgressRules) : Except Failure (List (List Rule)) :=
  parseEach parseEgressRule rules.name 0 rules.rules

def lowerEgressRules (rules : EgressRules) : Except Failure (List String) := do
  let parsed ← parseRules rules
  lower parsed.flatten rules.name

def egressArguments (allow deny : EgressRules) : Except Failure (List String) := do
  let allowed ← lowerEgressRules allow
  let denied ← lowerEgressRules deny
  return (allowed.flatMap fun rule => ["--network-egress-allow", rule]) ++
    denied.flatMap fun rule => ["--network-egress-deny", rule]

end Nvx.Host.Egress
