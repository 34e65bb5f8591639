import Mathlib.Data.List.Forall2
import Nvx.Host.Egress.Canonical
import Nvx.Host.Egress.Interface
import Nvx.Host.Egress.Policy

namespace Nvx.Host.Egress

open Nvx.Data

/-! What destinations, selectors and the rules made of them select. -/

def Network.Holds (network : Network) (packet : Packet) : Prop :=
  network.family = packet.family ∧ network.Has packet.address

structure Means (rules : List Rule) (selects : Packet → Prop) : Prop where
  ordered : Ordered rules
  selected : ∀ packet, Selected rules packet ↔ selects packet

/-- Sorted addresses of each destination's family, which hold just the addresses
of these packets. -/
structure DestinationsMean (destinations : List (Family × List Interval))
    (selects : Packet → Prop) : Prop where
  sorted : ∀ destination ∈ destinations, Spaced 0 destination.2
  inFamily : ∀ destination ∈ destinations, InFamily destination.1 destination.2
  selected : ∀ packet, (∃ destination ∈ destinations,
    destination.1 = packet.family ∧ Covers destination.2 packet.address) ↔ selects packet

/-- Selectors with ports on TCP and UDP only, which select just these packets. -/
structure SelectorsMean (selectors : List Selector) (selects : Packet → Prop) : Prop where
  portsOf : ∀ selector ∈ selectors, selector.2 ≠ none →
    selector.1 = some .tcp ∨ selector.1 = some .udp
  ordered : ∀ selector ∈ selectors, ∀ range ∈ selector.2, range.1 ≤ range.2
  selected : ∀ packet, (∃ selector ∈ selectors, (selector.1 = none ∨ selector.1 = packet.protocol) ∧
      InPorts selector.2 packet.port) ↔ selects packet

theorem combine_means {destinations : Option (List (Family × List Interval))}
    {selectors : Option (List Selector)} {located directed : Packet → Prop}
    (destinationsMean : DestinationsMean (destinations.getD
      (Family.all.map fun family => (family, [family.everything]))) located)
    (selectorsMean : SelectorsMean (selectors.getD [(none, none)]) directed) :
    Means (combine destinations selectors) fun packet => located packet ∧ directed packet := by
  have mem_combine : ∀ rule, rule ∈ combine destinations selectors ↔
      ∃ destination ∈ destinations.getD
        (Family.all.map fun family => (family, [family.everything])),
        ∃ selector ∈ selectors.getD [(none, none)],
          ⟨destination.1, destination.2, selector.1, selector.2⟩ = rule := by
    intro rule
    simp only [combine, List.mem_flatMap, List.mem_map]
  refine ⟨⟨fun rule member => ?_, fun rule member => ?_⟩, fun packet => ?_⟩
  · obtain ⟨destination, found, selector, chosen, rfl⟩ := (mem_combine rule).mp member
    exact ⟨destinationsMean.sorted destination found, destinationsMean.inFamily destination found,
      selectorsMean.portsOf selector chosen⟩
  · obtain ⟨destination, found, selector, chosen, rfl⟩ := (mem_combine rule).mp member
    exact selectorsMean.ordered selector chosen
  · rw [← destinationsMean.selected, ← selectorsMean.selected]
    constructor
    · rintro ⟨rule, member, ofFamily, covers, ofProtocol, inPorts⟩
      obtain ⟨destination, found, selector, chosen, rfl⟩ :=
        (mem_combine rule).mp member
      exact ⟨⟨destination, found, ofFamily, covers⟩, ⟨selector, chosen, ofProtocol, inPorts⟩⟩
    · rintro ⟨⟨destination, found, ofFamily, covers⟩, ⟨selector, chosen, ofProtocol, inPorts⟩⟩
      exact ⟨_, (mem_combine _).mpr
        ⟨destination, found, selector, chosen, rfl⟩, ofFamily, covers, ofProtocol,
        inPorts⟩

theorem means_flatten {Item : Type} {items : List Item} {selects : Item → Packet → Prop}
    (means : List.Forall₂ (fun item rules => Means rules (selects item)) items parts) :
    Means parts.flatten fun packet => ∃ item ∈ items, selects item packet := by
  induction means with
  | nil => exact ⟨⟨by simp, by simp⟩, by simp [Selected]⟩
  | cons here _ induction =>
    rw [List.flatten_cons]
    refine ⟨⟨List.forall_mem_append.mpr ⟨here.ordered.wellFormed, induction.ordered.wellFormed⟩,
      List.forall_mem_append.mpr
        ⟨here.ordered.ordered, induction.ordered.ordered⟩⟩, fun packet => ?_⟩
    have split := or_congr (here.selected packet) (induction.selected packet)
    simpa only [Selected, List.mem_append, or_and_right, exists_or,
      List.mem_cons, exists_eq_left] using split

theorem destinationsMean_all : DestinationsMean
    (Family.all.map fun family => (family, [family.everything]))
    fun _ => True where
  sorted := by
    rintro destination found
    obtain ⟨family, _, rfl⟩ := List.mem_map.mp found
    exact spaced_singleton (Nat.zero_le _)
  inFamily := by
    rintro destination found interval here
    obtain ⟨family, _, rfl⟩ := List.mem_map.mp found
    obtain rfl := List.mem_singleton.mp here
    exact ⟨Nat.zero_le _, Nat.le_refl _⟩
  selected packet := by
    have all : packet.family ∈ Family.all := by cases packet.family <;> decide
    refine iff_true_intro ⟨_, List.mem_map_of_mem all, rfl, ?_⟩
    exact ⟨_, List.mem_singleton_self _, Nat.zero_le _, packet.inFamily⟩

theorem destinationsMean_each {Item : Type} {items : List Item} {selects : Item → Packet → Prop}
    (each : List.Forall₂ (fun item destination =>
      DestinationsMean [destination] (selects item)) items destinations) :
    DestinationsMean destinations fun packet => ∃ item ∈ items, selects item packet := by
  induction each with
  | nil => exact ⟨by simp, by simp, by simp⟩
  | cons here _ induction =>
    refine ⟨List.forall_mem_cons.mpr ⟨here.sorted _ (List.mem_singleton_self _), induction.sorted⟩,
      List.forall_mem_cons.mpr ⟨here.inFamily _ (List.mem_singleton_self _), induction.inFamily⟩,
      fun packet => ?_⟩
    have split := or_congr (here.selected packet) (induction.selected packet)
    simpa only [List.mem_cons, List.not_mem_nil, or_false, or_and_right,
      exists_or, exists_eq_left] using split

theorem DestinationsMean.group (means : DestinationsMean destinations selects) :
    DestinationsMean (groupDestinations destinations) selects := by
  have inFamily : ∀ family, InFamily family
      ((destinations.filter (·.1 = family)).flatMap Prod.snd) := by
    intro family interval found
    obtain ⟨destination, chosen, inside⟩ := List.mem_flatMap.mp found
    obtain ⟨member, same⟩ := List.mem_filter.mp chosen
    obtain rfl := of_decide_eq_true same
    exact means.inFamily destination member interval inside
  refine ⟨?_, ?_, fun packet => ?_⟩
  · rintro destination found
    obtain ⟨family, _, rfl⟩ := List.mem_map.mp found
    exact (canonical_merge (inFamily family)).sorted
  · rintro destination found
    obtain ⟨family, _, rfl⟩ := List.mem_map.mp found
    exact (canonical_merge (inFamily family)).inFamily
  · rw [← means.selected]
    constructor
    · rintro ⟨destination, found, ofFamily, covers⟩
      obtain ⟨family, _, rfl⟩ := List.mem_map.mp found
      rw [covers_merge (inFamily family), covers_flatMap] at covers
      obtain ⟨original, chosen, covers⟩ := covers
      obtain ⟨member, same⟩ := List.mem_filter.mp chosen
      exact ⟨original, member, (of_decide_eq_true same).trans ofFamily, covers⟩
    · rintro ⟨destination, member, ofFamily, covers⟩
      have present : packet.family ∈ Family.all.filter fun family =>
          destinations.any (·.1 = family) := by
        refine List.mem_filter.mpr ⟨by cases packet.family <;> decide, ?_⟩
        exact List.any_eq_true.mpr ⟨destination, member, decide_eq_true ofFamily⟩
      refine ⟨_, List.mem_map_of_mem present, rfl, ?_⟩
      rw [covers_merge (inFamily packet.family), covers_flatMap]
      exact ⟨destination, List.mem_filter.mpr ⟨member, decide_eq_true ofFamily⟩, covers⟩

theorem readExceptions_eq_ok
    (read : readExceptions parent description index exceptions = .ok excluded) :
    ∃ networks : List Network, exceptions = networks.map .ok ∧
      excluded = networks.map Network.interval ∧
      ∀ network ∈ networks, network.family = parent.family := by
  induction exceptions generalizing index excluded with
  | nil =>
    obtain rfl := Except.ok.inj read
    exact ⟨[], rfl, rfl, by simp⟩
  | cons exception exceptions induction =>
    obtain ⟨network, rfl, checked⟩ := bind_eq_ok_iff.mp read
    split at checked
    · rename_i contained
      obtain ⟨rest, readRest, same⟩ := bind_eq_ok_iff.mp checked
      obtain rfl := Except.ok.inj same
      obtain ⟨networks, rfl, rfl, families⟩ := induction readRest
      refine ⟨network :: networks, rfl, rfl, List.forall_mem_cons.mpr ⟨?_, families⟩⟩
      exact (of_decide_eq_true contained).1.symm
    · cases checked

theorem destination_means (proper : parent.Proper)
    (allProper : ∀ network : Network, .ok network ∈ exceptions → network.Proper)
    (read : destination parent exceptions description = .ok result) :
    ∃ networks : List Network, exceptions = networks.map .ok ∧
      DestinationsMean [result] fun packet => parent.Holds packet ∧
        ∀ network ∈ networks, ¬ network.Holds packet := by
  obtain ⟨excluded, readAll, same⟩ := bind_eq_ok_iff.mp read
  obtain rfl := Except.ok.inj same
  obtain ⟨networks, rfl, rfl, families⟩ := readExceptions_eq_ok readAll
  have inFamily : InFamily parent.family (networks.map Network.interval) := by
    intro interval found
    obtain ⟨network, member, rfl⟩ := List.mem_map.mp found
    rw [← families network member]
    exact allProper network (List.mem_map_of_mem member) _ (List.mem_singleton_self _)
  have canonical := canonical_merge inFamily
  have sorted : Spaced 0 [parent.interval] :=
    spaced_singleton (proper _ (List.mem_singleton_self _)).1
  have covers := covers_subtract proper.inRange sorted canonical.sorted
  obtain ⟨spaced, within⟩ := spaced_subtract sorted canonical.sorted
  refine ⟨networks, rfl, ?_, ?_, fun packet => ?_⟩
  · exact List.forall_mem_singleton.mpr spaced
  · refine List.forall_mem_singleton.mpr fun interval member => ?_
    obtain ⟨source, here, _, ends⟩ := within interval member
    obtain rfl := List.mem_singleton.mp here
    exact ⟨spaced.valid interval member, Nat.le_trans ends (proper _ (List.mem_singleton_self _)).2⟩
  · simp only [List.mem_singleton, exists_eq_left, covers, covers_merge inFamily,
      covers_map_interval, covers_cons, covers_nil, or_false]
    constructor
    · rintro ⟨ofFamily, has, outside⟩
      exact ⟨⟨ofFamily, has⟩, fun network member holds =>
        outside ⟨network, member, holds.2⟩⟩
    · rintro ⟨⟨ofFamily, has⟩, outside⟩
      refine ⟨ofFamily, has, ?_⟩
      rintro ⟨network, member, holds⟩
      exact outside network member ⟨(families network member).trans ofFamily, holds⟩

theorem selectorsMean_all : SelectorsMean [(none, none)] fun _ => True where
  portsOf := by simp
  ordered := by simp
  selected packet := iff_true_intro
    ⟨_, List.mem_singleton_self _, .inl rfl, inPorts_none packet.port⟩

theorem selectorsMean_flatten {Item : Type} {items : List Item} {selects : Item → Packet → Prop}
    (each : List.Forall₂ (fun item selectors =>
      SelectorsMean selectors (selects item)) items parts) :
    SelectorsMean parts.flatten fun packet => ∃ item ∈ items, selects item packet := by
  induction each with
  | nil => exact ⟨by simp, by simp, by simp⟩
  | cons here _ induction =>
    rw [List.flatten_cons]
    refine ⟨List.forall_mem_append.mpr ⟨here.portsOf, induction.portsOf⟩,
      List.forall_mem_append.mpr ⟨here.ordered, induction.ordered⟩,
      fun packet => ?_⟩
    have split := or_congr (here.selected packet) (induction.selected packet)
    simpa only [List.mem_append, or_and_right, exists_or, List.mem_cons, exists_eq_left] using split

/-- Packets that a protocol selects, with a range of ports or without. -/
def RuleProtocol.Selects (protocol : RuleProtocol) (range : Option (Nat × Nat))
    (packet : Packet) : Prop :=
  match range with
  | none => protocol = .any ∨ protocol.native = packet.protocol
  | some (first, last) =>
    (∃ named ∈ protocol.portProtocols, packet.protocol = some named) ∧
      first ≤ packet.port.toNat ∧ packet.port.toNat ≤ last

theorem port_eq_ok (read : port value description = .ok result) :
    value = .integer result.toNat ∧ 1 ≤ result.toNat := by
  cases value with
  | other => cases read
  | integer value =>
    simp only [port] at read
    split at read
    · rename_i bounds
      obtain rfl := Except.ok.inj read
      rw [UInt16.toNat_ofNat_of_lt' (by change _ < 65536; omega)]
      exact ⟨by congr; omega, by omega⟩
    · cases read

theorem portRange_eq_ok (read : portRange start last description = .ok range) :
    start = .integer range.1.toNat ∧
      last.getD start = .integer range.2.toNat ∧ range.1 ≤ range.2 := by
  simp only [portRange] at read
  obtain ⟨first, readFirst, read⟩ := bind_eq_ok_iff.mp read
  obtain ⟨final, readLast, read⟩ := bind_eq_ok_iff.mp read
  obtain ⟨notBelow, same⟩ := ite_error_eq_ok_iff.mp read
  obtain rfl := Except.ok.inj same
  obtain ⟨rfl, _⟩ := port_eq_ok readFirst
  refine ⟨rfl, ?_, UInt16.not_lt.mp notBelow⟩
  cases last with
  | none => rw [← Except.ok.inj readLast]; rfl
  | some last => exact (port_eq_ok readLast).1

theorem selectorsMean_protocol (protocol : RuleProtocol) :
    SelectorsMean [(protocol.native, none)] (protocol.Selects none) where
  portsOf := by simp
  ordered := by simp
  selected packet := by
    have every : protocol.native = none ↔ protocol = .any := by
      cases protocol <;> simp [RuleProtocol.native]
    simp only [List.mem_singleton, exists_eq_left, every, RuleProtocol.Selects]
    exact and_iff_left (inPorts_none packet.port)

theorem selectorsMean_ports {protocol : RuleProtocol} (notIcmp : protocol ≠ .icmp)
    {range : PortRange} (ordered : range.1 ≤ range.2) :
    SelectorsMean (protocol.portProtocols.map fun named =>
        (some named, some range))
      (protocol.Selects (some (range.1.toNat, range.2.toNat))) where
  portsOf := by
    rintro selector found _
    obtain ⟨named, member, rfl⟩ := List.mem_map.mp found
    cases protocol <;> simp_all [RuleProtocol.portProtocols]
  ordered := by
    rintro selector found bounds member
    obtain ⟨named, _, rfl⟩ := List.mem_map.mp found
    obtain rfl := Option.mem_some_iff.mp member
    exact ordered
  selected packet := by
    have inPorts : InPorts (some range) packet.port ↔
        range.1.toNat ≤ packet.port.toNat ∧ packet.port.toNat ≤ range.2.toNat := by
      simp only [InPorts, Option.mem_some_iff, forall_eq', UInt16.le_iff_toNat_le]
    simp only [RuleProtocol.Selects, ← inPorts]
    constructor
    · rintro ⟨selector, found, ofProtocol, inside⟩
      obtain ⟨named, member, rfl⟩ := List.mem_map.mp found
      exact ⟨⟨named, member, (ofProtocol.resolve_left (by simp)).symm⟩, inside⟩
    · rintro ⟨⟨named, member, ofProtocol⟩, inside⟩
      exact ⟨_, List.mem_map_of_mem member, .inr ofProtocol.symm, inside⟩

theorem portSelectors_means {port endPort : Option PortValue}
    (read : portSelectors protocol port endPort description = .ok selectors) :
    (port = none ∧ SelectorsMean selectors (protocol.Selects none)) ∨
      ∃ start, port = some start ∧ ∃ range : PortRange, start = .integer range.1.toNat ∧
        endPort.getD start = .integer range.2.toNat ∧
        SelectorsMean selectors (protocol.Selects (some (range.1.toNat, range.2.toNat))) := by
  cases port with
  | none =>
    obtain ⟨_, same⟩ := ite_error_eq_ok_iff.mp read
    obtain rfl := Except.ok.inj same
    exact .inl ⟨rfl, selectorsMean_protocol protocol⟩
  | some start =>
    obtain ⟨notIcmp, read⟩ := ite_error_eq_ok_iff.mp read
    obtain ⟨range, readRange, same⟩ := bind_eq_ok_iff.mp read
    obtain rfl := Except.ok.inj same
    obtain ⟨first, last, ordered⟩ := portRange_eq_ok readRange
    exact .inr ⟨start, rfl, range, first, last, selectorsMean_ports notIcmp ordered⟩

end Nvx.Host.Egress
