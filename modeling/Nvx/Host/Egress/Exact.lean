import Nvx.Host.Egress.Meaning

namespace Nvx.Host.Egress

open Nvx.Data

/-! What a policy selects, read from its fields, and that its native rules match
just that. -/

variable {description : String} {result : Family × List Interval} {value : Json}
  {field : Option Json} {selects : Packet → Prop} {selectors : List Selector}
  {fields : Fields} {rules : List Rule}

namespace Json

def get (value : Json) (name : String) : Option Json :=
  match value with
  | .object fields => fields.lookup name
  | _ => none

theorem get_object (fields : Fields) (name : String) :
    get (.object fields) name = fields.get name :=
  rfl

def elements : Option Json → List Json
  | some (.array elements) => elements
  | _ => []

def cidr : Json → Option Network
  | .string text => (parseInterface text).toOption
  | _ => none

def port : Json → Option Nat
  | .number (.posInt value) => some value.toNat
  | _ => none

/-- The protocol that the text names, where the field is not left out. -/
def protocol : Option Json → Option RuleProtocol
  | none => some .any
  | some (.string text) => RuleProtocol.parse text
  | some _ => none

end Json

/-- The destination's network holds the address, and none of its exceptions
does. -/
def PeerSelects (peer : Json) (packet : Packet) : Prop :=
  (∃ value network, peer.get "cidr" = some value ∧
    value.cidr = some network ∧ network.Holds packet) ∧
  ∀ value ∈ Json.elements (peer.get "except"), ∀ network,
    value.cidr = some network → ¬ network.Holds packet

/-- The selector's protocol is the packet's, and its ports, if it has any, hold
the port. -/
def SelectorSelects (selector : Json) (packet : Packet) : Prop :=
  ∃ protocol, Json.protocol (selector.get "protocol") = some protocol ∧
    match selector.get "port" with
    | none => protocol.Selects none packet
    | some start => ∃ first last, start.port = some first ∧
        ((selector.get "endPort").getD start).port = some last ∧
        protocol.Selects (some (first, last)) packet

def RuleSelects (rule : Json) (packet : Packet) : Prop :=
  if (rule.get "cidr").isSome then
    PeerSelects rule packet ∧ ((rule.get "protocol").isSome → SelectorSelects rule packet)
  else
    ((rule.get "to").isSome → ∃ peer ∈ Json.elements (rule.get "to"), PeerSelects peer packet) ∧
    ((rule.get "ports").isSome → ∃ selector ∈ Json.elements (rule.get "ports"),
        SelectorSelects selector packet)

def PolicySelects (policy : Json) (action : String) (packet : Packet) : Prop :=
  ∃ rule ∈ Json.elements (policy.get action), RuleSelects rule packet

theorem parseEach_eq_ok {Item Value : Type} {parse : Item → String → Except Failure Value}
    {items : List Item} {values : List Value}
    (read : parseEach parse description index items = .ok values) :
    List.Forall₂ (fun item value => ∃ path, parse item path = .ok value) items
      values := by
  induction items generalizing index values with
  | nil =>
    obtain rfl := Except.ok.inj read
    exact .nil
  | cons item items induction =>
    obtain ⟨value, readOne, rest⟩ := bind_eq_ok_iff.mp read
    obtain ⟨others, readRest, same⟩ := bind_eq_ok_iff.mp rest
    obtain rfl := Except.ok.inj same
    exact .cons ⟨_, readOne⟩ (induction readRest)

theorem network_eq_ok {result : Network} (read : network text description = .ok result) :
    parseInterface text = .ok result := by
  unfold network at read
  split at read
  · rename_i found
    rw [found, Except.ok.inj read]
  · cases read
  · cases read

theorem parseNetwork_eq_ok {result : Network} (read : parseNetwork value description = .ok result) :
    value.cidr = some result ∧ result.Proper := by
  cases value with
  | string text =>
    have parsed := network_eq_ok read
    refine ⟨?_, proper_of_parseInterface parsed⟩
    rw [Json.cidr, parsed]
    rfl
  | _ => cases read

theorem parsed_forall₂ {Item : Type} {items : List Item}
    {parse : Item × Nat → Except Failure Network} {name : Item → Option Network}
    (named : ∀ item index result, parse (item, index) = .ok result → name item = some result)
    (read : (items.zipIdx index).map parse = networks.map .ok) :
    List.Forall₂ (fun item network => name item = some network) items
      networks := by
  induction items generalizing networks index with
  | nil =>
    obtain rfl := List.map_eq_nil_iff.mp read.symm
    exact .nil
  | cons item items induction =>
    cases networks with
    | nil => cases read
    | cons network networks =>
      rw [List.zipIdx_cons, List.map_cons, List.map_cons, List.cons.injEq] at read
      exact .cons (named item index network read.1) (induction read.2)

theorem exceptions_hold {Item : Type} {items : List Item}
    {parse : Item → String → Except Failure Network}
    {name : Item → Option Network} {networks : List Network}
    (named : ∀ item path result, parse item path = .ok result → name item = some result)
    (read : exceptionNetworks parse description items = networks.map .ok) (packet : Packet) :
    (∀ network ∈ networks, ¬ network.Holds packet) ↔
      ∀ item ∈ items, ∀ network, name item = some network → ¬ network.Holds packet := by
  have paired := parsed_forall₂ (fun item index result => named item _ result) read
  clear read
  induction paired with
  | nil => simp
  | cons here _ induction =>
    rw [List.forall_mem_cons, List.forall_mem_cons]
    refine and_congr ?_ induction
    rw [here]
    simp only [Option.some.injEq, forall_eq']

theorem optionalArray_eq_ok {result : List Json}
    (read : optionalArray field description = .ok result) :
    Json.elements field = result := by
  cases field with
  | none => exact Except.ok.inj read
  | some value =>
    cases value with
    | array elements => exact Except.ok.inj read
    | _ => cases read

theorem DestinationsMean.congr (means : DestinationsMean destinations selects)
    (same : ∀ packet, selects packet ↔ others packet) :
    DestinationsMean destinations others :=
  ⟨means.sorted, means.inFamily, fun packet =>
    (means.selected packet).trans (same packet)⟩

theorem SelectorsMean.congr (means : SelectorsMean selectors selects)
    (same : ∀ packet, selects packet ↔ others packet) :
    SelectorsMean selectors others :=
  ⟨means.portsOf, means.ordered, fun packet =>
    (means.selected packet).trans (same packet)⟩

theorem proper_of_mem_exceptionNetworks {Item : Type} {items : List Item}
    {parse : Item → String → Except Failure Network}
    (proper : ∀ item path result, parse item path = .ok result → result.Proper) (network : Network)
    (member : .ok network ∈ exceptionNetworks parse description items) :
    network.Proper := by
  obtain ⟨⟨item, index⟩, _, read⟩ := List.mem_map.mp member
  exact proper item _ network read

theorem parsePeerFields_means (read : parsePeerFields fields description = .ok result) :
    (fields.get "cidr").isSome ∧ DestinationsMean [result] (PeerSelects (.object fields)) := by
  unfold parsePeerFields at read
  split at read
  · cases read
  · rename_i cidr found
    obtain ⟨parent, readParent, rest⟩ := bind_eq_ok_iff.mp read
    obtain ⟨exceptions, readExceptions, readDestination⟩ :=
      bind_eq_ok_iff.mp rest
    obtain ⟨named, proper⟩ := parseNetwork_eq_ok readParent
    obtain ⟨networks, parsed, means⟩ := destination_means proper
      (proper_of_mem_exceptionNetworks fun _ _ _ read =>
        (parseNetwork_eq_ok read).2) readDestination
    refine ⟨by rw [found]; rfl, means.congr fun packet => ?_⟩
    have excluded := @exceptions_hold _ Json exceptions parseNetwork Json.cidr _
      (fun _ _ _ read => (parseNetwork_eq_ok read).1) parsed packet
    rw [excluded, ← optionalArray_eq_ok readExceptions]
    apply and_congr_left'
    constructor
    · exact fun holds => ⟨cidr, parent, found, named, holds⟩
    · rintro ⟨value, network, present, alsoNamed, holds⟩
      obtain rfl := Option.some.inj (found.symm.trans present)
      obtain rfl := Option.some.inj (named.symm.trans alsoNamed)
      exact holds

theorem object_eq_ok (read : object value description = .ok fields) : value = .object fields := by
  cases value with
  | object fields => rw [Except.ok.inj read]
  | _ => cases read

theorem parsePeer_means (read : parsePeer value description = .ok result) :
    DestinationsMean [result] (PeerSelects value) := by
  obtain ⟨fields, readObject, rest⟩ := bind_eq_ok_iff.mp read
  obtain ⟨_, _, readFields⟩ := bind_eq_ok_iff.mp rest
  obtain rfl := object_eq_ok readObject
  exact (parsePeerFields_means readFields).2

theorem portValue_eq_integer {port : UInt16} (read : portValue value = .integer port.toNat) :
    value.port = some port.toNat := by
  have small := port.toNat_lt
  unfold portValue at read
  split at read
  · rename_i number
    have same := PortValue.integer.inj read
    rw [Json.port, Int.ofNat_inj.mp same]
  · rename_i number negative
    have same := PortValue.integer.inj read
    have below := Int64.lt_iff_toInt_lt.mp negative
    change _ < 0 at below
    omega
  · split at read
    · have same := PortValue.integer.inj read
      omega
    · split at read
      · have same := PortValue.integer.inj read
        omega
      · cases read
  · cases read

theorem selector_means (named : Json.protocol (value.get "protocol") = some protocol)
    (read : portSelectors protocol ((value.get "port").map portValue)
      ((value.get "endPort").map portValue) description = .ok selectors) :
    SelectorsMean selectors (SelectorSelects value) := by
  rcases portSelectors_means read with
    ⟨absent, means⟩ | ⟨_, present, range, first, last, means⟩
  · refine means.congr fun packet => ?_
    have noPort : value.get "port" = none := Option.map_eq_none_iff.mp absent
    simp only [SelectorSelects, named, noPort, Option.some.injEq, exists_eq_left']
  · obtain ⟨start, found, rfl⟩ := Option.map_eq_some_iff.mp present
    have firstPort := portValue_eq_integer first
    have lastPort : ((value.get "endPort").getD start).port = some range.2.toNat := by
      apply portValue_eq_integer
      rw [← last]
      cases value.get "endPort" <;> rfl
    refine means.congr fun packet => ?_
    simp only [SelectorSelects, named, found, firstPort, lastPort,
      Option.some.injEq, exists_and_left, exists_eq_left']

theorem protocolField_eq_ok (read : protocolField value description = .ok protocol) :
    Json.protocol (some value) = some protocol := by
  cases value with
  | string text =>
    simp only [protocolField] at read
    split at read
    · rename_i found
      rw [Json.protocol, found, Except.ok.inj read]
    · cases read
  | _ => cases read

theorem protocolOrAny_eq_ok (read : protocolOrAny field description = .ok protocol) :
    Json.protocol field = some protocol := by
  cases field with
  | none => exact congrArg some (Except.ok.inj read)
  | some value => exact protocolField_eq_ok read

theorem parseMxcPort_means (read : parseMxcPort value description = .ok selectors) :
    SelectorsMean selectors (SelectorSelects value) := by
  obtain ⟨fields, readObject, rest⟩ := bind_eq_ok_iff.mp read
  obtain ⟨_, _, rest⟩ := bind_eq_ok_iff.mp rest
  obtain ⟨protocol, readProtocol, readPorts⟩ := bind_eq_ok_iff.mp rest
  obtain rfl := object_eq_ok readObject
  exact selector_means (protocolOrAny_eq_ok readProtocol) readPorts

theorem parseElements_eq_ok {Value : Type} {parse : Json → String → Except Failure Value}
    {result : Option (List Value)}
    (read : parseElements parse field description emptiness = .ok result) :
    (field = none ∧ result = none) ∨ (field.isSome ∧ ∃ values, result = some values ∧
        List.Forall₂ (fun item value => ∃ path, parse item path = .ok value)
          (Json.elements field) values) := by
  cases field with
  | none => exact .inl ⟨rfl, (Except.ok.inj read).symm⟩
  | some value =>
    simp only [parseElements] at read
    obtain ⟨elements, readArray, rest⟩ := bind_eq_ok_iff.mp read
    obtain ⟨_, rest⟩ := ite_error_eq_ok_iff.mp rest
    obtain ⟨values, readEach, same⟩ := bind_eq_ok_iff.mp rest
    obtain rfl := @optionalArray_eq_ok _ (some value) _ readArray
    exact .inr ⟨rfl, values, (Except.ok.inj same).symm, parseEach_eq_ok readEach⟩

theorem Means.congr (means : Means rules selects)
    (same : ∀ packet, selects packet ↔ others packet) : Means rules others :=
  ⟨means.ordered, fun packet => (means.selected packet).trans (same packet)⟩

theorem legacySelectors_means {selectors : Option (List Selector)}
    (read : legacySelectors fields description = .ok selectors) :
    SelectorsMean (selectors.getD [(none, none)]) fun packet =>
      (fields.get "protocol").isSome → SelectorSelects (.object fields) packet := by
  unfold legacySelectors at read
  split at read
  · rename_i absent
    obtain ⟨_, same⟩ := ite_error_eq_ok_iff.mp read
    obtain rfl := Except.ok.inj same
    exact selectorsMean_all.congr fun packet => by simp [absent]
  · rename_i value found
    obtain ⟨protocol, readProtocol, rest⟩ := bind_eq_ok_iff.mp read
    obtain ⟨parsed, readPorts, same⟩ := bind_eq_ok_iff.mp rest
    obtain rfl := Except.ok.inj same
    have named : Json.protocol (Json.get (.object fields) "protocol") =
        some protocol := by
      rw [Json.get_object, found, protocolField_eq_ok readProtocol]
    exact (selector_means named readPorts).congr fun packet => by simp [found]

theorem parseLegacyRule_means (read : parseLegacyRule fields description = .ok rules) :
    Means rules (RuleSelects (.object fields)) := by
  obtain ⟨_, _, rest⟩ := bind_eq_ok_iff.mp read
  obtain ⟨destination, readPeer, rest⟩ := bind_eq_ok_iff.mp rest
  obtain ⟨_, rest⟩ := ite_error_eq_ok_iff.mp rest
  obtain ⟨selectors, readSelectors, same⟩ := bind_eq_ok_iff.mp rest
  obtain rfl := Except.ok.inj same
  obtain ⟨hasCidr, located⟩ := parsePeerFields_means readPeer
  have means := @combine_means (some [destination]) selectors _ _ located
    (legacySelectors_means readSelectors)
  refine means.congr fun packet => ?_
  simp only [RuleSelects, Json.get_object, hasCidr, if_true]

theorem parseMxcRule_means (noCidr : fields.get "cidr" = none)
    (read : parseMxcRule fields description = .ok rules) :
    Means rules (RuleSelects (.object fields)) := by
  obtain ⟨_, _, rest⟩ := bind_eq_ok_iff.mp read
  obtain ⟨destinations, readTo, rest⟩ := bind_eq_ok_iff.mp rest
  obtain ⟨selectors, readPorts, same⟩ := bind_eq_ok_iff.mp rest
  obtain rfl := Except.ok.inj same
  have located : DestinationsMean ((destinations.map groupDestinations).getD
      (Family.all.map fun family => (family, [family.everything]))) fun packet =>
        (fields.get "to").isSome →
          ∃ peer ∈ Json.elements (fields.get "to"), PeerSelects peer packet := by
    rcases parseElements_eq_ok readTo with
      ⟨absent, rfl⟩ | ⟨present, values, rfl, each⟩
    · exact destinationsMean_all.congr fun packet => by simp [absent]
    · have means := destinationsMean_each (each.imp
        fun peer value ⟨path, read⟩ => parsePeer_means read)
      exact means.group.congr fun packet => by simp [present]
  have directed : SelectorsMean ((selectors.map List.flatten).getD
      [(none, none)]) fun packet => (fields.get "ports").isSome →
        ∃ selector ∈ Json.elements (fields.get "ports"),
          SelectorSelects selector packet := by
    rcases parseElements_eq_ok readPorts with
      ⟨absent, rfl⟩ | ⟨present, values, rfl, each⟩
    · exact selectorsMean_all.congr fun packet => by simp [absent]
    · have means := selectorsMean_flatten (each.imp
        fun selector value ⟨path, read⟩ => parseMxcPort_means read)
      exact means.congr fun packet => by simp [present]
  refine (combine_means located directed).congr fun packet => ?_
  simp only [RuleSelects, Json.get_object, noCidr, Option.isSome_none, Bool.false_eq_true, if_false]

theorem parseRule_means (read : parseRule value description = .ok rules) :
    Means rules (RuleSelects value) := by
  obtain ⟨fields, readObject, rest⟩ := bind_eq_ok_iff.mp read
  obtain rfl := object_eq_ok readObject
  split at rest
  · exact parseLegacyRule_means (ite_error_eq_ok_iff.mp rest).2
  · rename_i notLegacy
    refine parseMxcRule_means ?_ rest
    simp only [Fields.hasAny, legacyRuleFields, List.any_cons, Bool.or_eq_true, not_or] at notLegacy
    simpa using notLegacy.1

/-- The texts are those of the native rules that the parsed rules are lowered to,
and these match the packets that are selected. -/
def Matched (parsed : Except Failure (List Rule)) (category : String) (lowered : List String)
    (selects : Packet → Prop) : Prop :=
  ∃ rules natives, parsed = .ok rules ∧
    lowerNative rules category maxRulesPerAction = .ok natives ∧
    lowered = natives.map NativeRule.render ∧ (∀ native ∈ natives, native.WellFormed) ∧
    ∀ packet, Emitted natives packet ↔ selects packet

theorem lower_means (parses : parsed = .ok rules) (means : Means rules selects)
    (result : lower rules category = .ok lowered) : Matched parsed category lowered selects := by
  obtain ⟨natives, lowers, spends⟩ := lowerNative_spec means.ordered category
  have native := spends.result maxRulesPerAction (Nat.zero_le _)
  rw [lower, lowerWithin, native] at result
  split at result
  · rename_i few
    rw [if_pos few] at native
    refine ⟨rules, natives, parses, native, (Except.ok.inj result).symm,
      lowers.wellFormed means.ordered, fun packet => ?_⟩
    rw [lowers.emitted_iff means.ordered, means.selected]
  · cases result

theorem compileCategory_means (read : compileCategory field category = .ok lowered) :
    Matched (parseCategory field category) category lowered fun packet =>
      ∃ rule ∈ Json.elements field, RuleSelects rule packet := by
  obtain ⟨rules, readCategory, result⟩ := bind_eq_ok_iff.mp read
  refine lower_means readCategory ?_ result
  obtain ⟨elements, readElements, rest⟩ := bind_eq_ok_iff.mp readCategory
  obtain ⟨parts, readEach, same⟩ := bind_eq_ok_iff.mp rest
  obtain rfl := Except.ok.inj same
  obtain rfl := optionalArray_eq_ok readElements
  exact means_flatten ((parseEach_eq_ok readEach).imp
    fun rule value ⟨path, read⟩ => parseRule_means read)

def Destination.Selects (peer : Destination) (packet : Packet) : Prop :=
  (∃ network, parseInterface peer.cidr = .ok network ∧ network.Holds packet) ∧
    ∀ text ∈ peer.except, ∀ network, parseInterface text = .ok network → ¬ network.Holds packet

def PortSelector.Selects (selector : PortSelector) (packet : Packet) : Prop :=
  selector.protocol.Selects (selector.port.map fun first =>
    (first.toNat, (selector.endPort.getD first).toNat)) packet

def EgressRule.Selects (rule : EgressRule) (packet : Packet) : Prop :=
  (rule.destinations = [] ∨ ∃ peer ∈ rule.destinations, peer.Selects packet) ∧
    (rule.ports = [] ∨ ∃ selector ∈ rule.ports, selector.Selects packet)

theorem parseDestination_means (read : parseDestination peer description = .ok result) :
    DestinationsMean [result] peer.Selects := by
  obtain ⟨parent, readParent, readDestination⟩ := bind_eq_ok_iff.mp read
  have parsed := network_eq_ok readParent
  obtain ⟨networks, same, means⟩ := destination_means (proper_of_parseInterface parsed)
    (proper_of_mem_exceptionNetworks fun _ _ _ read =>
      proper_of_parseInterface (network_eq_ok read)) readDestination
  refine means.congr fun packet => ?_
  have excluded := @exceptions_hold _ String peer.except network
    (fun text => (parseInterface text).toOption) _
    (fun _ _ _ read => by rw [network_eq_ok read]; rfl) same packet
  simp only [toOption_eq_some_iff] at excluded
  rw [excluded, Destination.Selects, parsed]
  simp only [Except.ok.injEq, exists_eq_left']

theorem parsePortSelector_means (read : parsePortSelector selector description = .ok selectors) :
    SelectorsMean selectors selector.Selects := by
  rcases portSelectors_means read with
    ⟨absent, means⟩ | ⟨_, present, range, first, last, means⟩
  · refine means.congr fun packet => ?_
    rw [PortSelector.Selects, Option.map_eq_none_iff.mp absent]
    rfl
  · obtain ⟨start, found, rfl⟩ := Option.map_eq_some_iff.mp present
    have firstSame := Int.ofNat_inj.mp (PortValue.integer.inj first)
    have lastSame : (selector.endPort.getD start).toNat = range.2.toNat := by
      cases endPort : selector.endPort with
      | none | some port =>
        rw [endPort] at last
        exact Int.ofNat_inj.mp (PortValue.integer.inj last)
    refine means.congr fun packet => ?_
    rw [PortSelector.Selects, found, Option.map_some, firstSame, lastSame]

theorem parseUnlessEmpty_eq_ok {Item Value : Type}
    {parse : Item → String → Except Failure Value} {items : List Item}
    {result : Option (List Value)} (read : parseUnlessEmpty parse description items = .ok result) :
    (items = [] ∧ result = none) ∨ (items ≠ [] ∧ ∃ values, result = some values ∧
        List.Forall₂ (fun item value => ∃ path, parse item path = .ok value) items values) := by
  unfold parseUnlessEmpty at read
  split at read
  · rename_i empty
    exact .inl ⟨List.isEmpty_iff.mp empty, (Except.ok.inj read).symm⟩
  · rename_i nonempty
    cases readEach : parseEach parse description 0 items with
    | error failure =>
      rw [readEach] at read
      cases read
    | ok values =>
      rw [readEach] at read
      exact .inr ⟨fun empty => nonempty (List.isEmpty_iff.mpr empty), values,
        (Except.ok.inj read).symm, parseEach_eq_ok readEach⟩

theorem parseEgressRule_means (read : parseEgressRule rule description = .ok rules) :
    Means rules rule.Selects := by
  obtain ⟨destinations, readTo, rest⟩ := bind_eq_ok_iff.mp read
  obtain ⟨selectors, readPorts, same⟩ := bind_eq_ok_iff.mp rest
  obtain rfl := Except.ok.inj same
  have located : DestinationsMean ((destinations.map groupDestinations).getD
      (Family.all.map fun family => (family, [family.everything]))) fun packet =>
        rule.destinations = [] ∨ ∃ peer ∈ rule.destinations,
          peer.Selects packet := by
    rcases parseUnlessEmpty_eq_ok readTo with
      ⟨empty, rfl⟩ | ⟨nonempty, values, rfl, each⟩
    · exact destinationsMean_all.congr fun packet => by simp [empty]
    · have means := destinationsMean_each (each.imp
        fun peer value ⟨path, read⟩ => parseDestination_means read)
      exact means.group.congr fun packet => by simp [nonempty]
  have directed : SelectorsMean ((selectors.map List.flatten).getD
      [(none, none)]) fun packet => rule.ports = [] ∨
        ∃ selector ∈ rule.ports, selector.Selects packet := by
    rcases parseUnlessEmpty_eq_ok readPorts with
      ⟨empty, rfl⟩ | ⟨nonempty, values, rfl, each⟩
    · exact selectorsMean_all.congr fun packet => by simp [empty]
    · have means := selectorsMean_flatten (each.imp
        fun selector value ⟨path, read⟩ => parsePortSelector_means read)
      exact means.congr fun packet => by simp [nonempty]
  exact combine_means located directed

def EgressRules.Selects (rules : EgressRules) (packet : Packet) : Prop :=
  ∃ rule ∈ rules.rules, rule.Selects packet

theorem lowerEgressRules_means {rules : EgressRules} (read : lowerEgressRules rules = .ok lowered) :
    Matched ((parseRules rules).map List.flatten) rules.name lowered rules.Selects := by
  obtain ⟨parts, readEach, result⟩ := bind_eq_ok_iff.mp read
  exact lower_means (by rw [readEach]; rfl) (means_flatten ((parseEach_eq_ok readEach).imp
    fun rule value ⟨path, read⟩ => parseEgressRule_means read)) result

/-- The native rules of each action match the packets that its rules select, for
policies, for the rules of a network posture, and for all rules whose port ranges
are not reversed. -/
theorem native_rules_match_what_is_selected :
    (∀ policy compiled, compilePolicy policy = .ok compiled →
      ∀ action ∈ [("allow", compiled.allow), ("deny", compiled.deny)],
        Matched (parseCategory (policy.get action.1) action.1) action.1 action.2
          (PolicySelects policy action.1)) ∧
    (∀ allow deny arguments, egressArguments allow deny = .ok arguments →
      ∃ allowed denied,
        arguments = (allowed.flatMap fun rule => ["--network-egress-allow", rule]) ++
          (denied.flatMap fun rule => ["--network-egress-deny", rule]) ∧
        ∀ action ∈ [(allow, allowed), (deny, denied)],
          Matched ((parseRules action.1).map List.flatten) action.1.name action.2
            action.1.Selects) ∧
    ∀ rules category limit natives, Ordered rules → lowerNative rules category limit = .ok natives →
        lowerWithin rules category limit = .ok (natives.map NativeRule.render) ∧
          ∀ packet, Emitted natives packet ↔ Selected rules packet := by
  refine ⟨fun policy compiled result => ?_, fun allow deny arguments result => ?_,
    fun rules category limit natives valid result => ?_⟩
  · obtain ⟨fields, readObject, rest⟩ := bind_eq_ok_iff.mp result
    obtain ⟨_, _, rest⟩ := bind_eq_ok_iff.mp rest
    obtain ⟨allow, readAllow, rest⟩ := bind_eq_ok_iff.mp rest
    obtain ⟨deny, readDeny, same⟩ := bind_eq_ok_iff.mp rest
    obtain rfl := Except.ok.inj same
    obtain rfl := object_eq_ok readObject
    intro action member
    rcases List.mem_pair.mp member with rfl | rfl
    · exact compileCategory_means readAllow
    · exact compileCategory_means readDeny
  · obtain ⟨allowed, lowerAllow, rest⟩ := bind_eq_ok_iff.mp result
    obtain ⟨denied, lowerDeny, same⟩ := bind_eq_ok_iff.mp rest
    refine ⟨allowed, denied, (Except.ok.inj same).symm, fun action member => ?_⟩
    rcases List.mem_pair.mp member with rfl | rfl
    · exact lowerEgressRules_means lowerAllow
    · exact lowerEgressRules_means lowerDeny
  · obtain ⟨others, lowers, spends⟩ := lowerNative_spec valid category
    refine ⟨by rw [lowerWithin, result]; rfl, fun packet => ?_⟩
    rw [spends.result limit (Nat.zero_le limit)] at result
    split at result
    · obtain rfl := Except.ok.inj result
      exact lowers.emitted_iff valid packet
    · cases result

def webPolicy : Json :=
  .object [("allow", .array [.object [
    ("to", .array [.object [("cidr", .string "192.0.2.0/24")]]),
    ("ports", .array [.object [("protocol", .string "tcp"), ("port", .number (.posInt 443))]])]])]

theorem web_policy_matches : compilePolicy webPolicy = .ok ⟨["192.0.2.0/24:tcp:443"], []⟩ ∧
    Matched (parseCategory (webPolicy.get "allow") "allow") "allow" ["192.0.2.0/24:tcp:443"]
      (PolicySelects webPolicy "allow") := by
  have compiled : compilePolicy webPolicy = .ok ⟨["192.0.2.0/24:tcp:443"], []⟩ := by
    rw [← toOption_eq_some_iff]
    decide +kernel
  exact ⟨compiled, native_rules_match_what_is_selected.1 _ _ compiled _ List.mem_cons_self⟩

/-- The ports between the ends of a reversed range are matched, though no rule
selects them. -/
theorem reversed_range_matches_more : reversed.WellFormed ∧
      ∃ natives, lowerNative [reversed] "allow" maxRulesPerAction = .ok natives ∧
        ∃ packet : Packet, Emitted natives packet ∧ ¬ Selected [reversed] packet := by
  refine ⟨reversed_wellFormed, _, lowerNative_reversed,
    ⟨.v4, 0, by decide, some .tcp, 7⟩, ?_, not_selected_reversed _⟩
  refine ⟨_, List.mem_singleton_self _, rfl, ⟨by decide, by decide⟩,
    .inr rfl, ?_⟩
  rintro range found
  obtain rfl := Option.mem_some_iff.mp found
  decide

end Nvx.Host.Egress
