import Nvx.Host.Egress.PortRules

namespace Nvx.Host.Egress

open Nvx.Data

/-! Packets, what rules match of them, and the native rules that match the
same. -/

structure Packet where
  family : Family
  address : Nat
  inFamily : address ≤ family.lastAddress
  protocol : Option NativeProtocol
  port : UInt16

def InPorts (ports : Option PortRange) (port : UInt16) : Prop :=
  ∀ range ∈ ports, range.1 ≤ port ∧ port ≤ range.2

instance (ports : Option PortRange) (port : UInt16) : Decidable (InPorts ports port) :=
  inferInstanceAs (Decidable (∀ range ∈ ports, _))

def Rule.Matches (rule : Rule) (packet : Packet) : Prop :=
  rule.family = packet.family ∧ Covers rule.addresses packet.address ∧
    (rule.protocol = none ∨ rule.protocol = packet.protocol) ∧
    InPorts rule.ports packet.port

def NativeRule.Matches (native : NativeRule) (packet : Packet) : Prop :=
  native.network.family = packet.family ∧ native.network.Has packet.address ∧
    (native.protocol = none ∨ native.protocol = packet.protocol) ∧
    InPorts native.ports packet.port

def Selected (rules : List Rule) (packet : Packet) : Prop :=
  ∃ rule ∈ rules, rule.Matches packet

def Emitted (natives : List NativeRule) (packet : Packet) : Prop :=
  ∃ native ∈ natives, native.Matches packet

theorem emitted_append :
    Emitted (first ++ second) packet ↔ Emitted first packet ∨ Emitted second packet := by
  simp only [Emitted, List.mem_append, or_and_right, exists_or]

/-- Sorted, disjoint intervals of the family, and ports on TCP and UDP only. -/
structure Rule.WellFormed (rule : Rule) : Prop where
  sorted : Spaced 0 rule.addresses
  inFamily : InFamily rule.family rule.addresses
  portsOf : rule.ports ≠ none → rule.protocol = some .tcp ∨ rule.protocol = some .udp

/-- A network of the family, and ports of a protocol only. -/
structure NativeRule.WellFormed (native : NativeRule) : Prop where
  inFamily : InFamily native.network.family [native.network.interval]
  portsOf : native.ports ≠ none → native.protocol ≠ none

def Rule.PortsPositive (rule : Rule) : Prop :=
  ∀ range ∈ rule.ports, 1 ≤ range.1

def unionWhere (p : Rule → Bool) (rules : List Rule) : List Interval :=
  merge ((rules.filter p).flatMap Rule.addresses)

@[ext]
structure Outline where
  everything : List Interval
  wide : NativeProtocol → List Interval
  available : NativeProtocol → UInt16 → List Interval

def outline (rules : List Rule) : Outline where
  everything := unionWhere (fun rule => rule.protocol = none) rules
  wide protocol := unionWhere (fun rule =>
    rule.protocol = none ∨ rule.protocol = some protocol ∧ rule.ports = none)
    rules
  available protocol port := unionWhere (fun rule =>
    (rule.protocol = none ∨ rule.protocol = some protocol) ∧ InPorts rule.ports port) rules

section UnionWhere

variable {rules : List Rule}
  (inFamily : ∀ rule ∈ rules, InFamily family rule.addresses)

include inFamily

theorem inFamily_flatMap (p : Rule → Bool) :
    InFamily family ((rules.filter p).flatMap Rule.addresses) := by
  intro interval found
  obtain ⟨rule, member, inside⟩ := List.mem_flatMap.mp found
  exact inFamily rule (List.mem_of_mem_filter member) interval inside

theorem canonical_unionWhere (p : Rule → Bool) : Canonical family (unionWhere p rules) :=
  canonical_merge (inFamily_flatMap inFamily p)

theorem covers_unionWhere (p : Rule → Bool) (point : Nat) : Covers (unionWhere p rules) point ↔
      ∃ rule ∈ rules, p rule = true ∧ Covers rule.addresses point := by
  rw [unionWhere, covers_merge (inFamily_flatMap inFamily p), covers_flatMap]
  simp only [List.mem_filter, and_assoc]

end UnionWhere

def Outline.Selects (outline : Outline) (packet : Packet) : Prop :=
  match packet.protocol with
  | none => Covers outline.everything packet.address
  | some protocol => Covers (outline.available protocol packet.port) packet.address

def wideNatives (family : Family) (outline : Outline) (protocol : NativeProtocol) :
    List NativeRule :=
  ((networksOf family (outline.wide protocol)).filter
    fun network => !held network outline.everything).map
      fun network => ⟨network, some protocol, none⟩

def Outline.states (outline : Outline) (protocol : NativeProtocol) (port : Nat) :
    List Interval :=
  if port < 65536 then outline.available protocol (.ofNat port)
  else outline.wide protocol

def Emits (family : Family) (outline : Outline) (natives : List NativeRule) :
    Prop :=
  ∃ tcp udp, IsPortNatives family (outline.wide .tcp) (outline.states .tcp) .tcp tcp ∧
    IsPortNatives family (outline.wide .udp) (outline.states .udp) .udp udp ∧
    natives = (networksOf family outline.everything).map (fun network => ⟨network, none, none⟩) ++
      [NativeProtocol.icmp, .tcp, .udp].flatMap (wideNatives family outline) ++
      tcp ++ udp

theorem Emits.unique {outline : Outline} (emits : Emits family outline natives)
    (alsoEmits : Emits family outline others) : natives = others := by
  obtain ⟨tcp, udp, isTcp, isUdp, rfl⟩ := emits
  obtain ⟨otherTcp, otherUdp, alsoTcp, alsoUdp, rfl⟩ := alsoEmits
  rw [isTcp.unique alsoTcp, isUdp.unique alsoUdp]

/-- Addresses of every protocol are among those of each one, which are available
at every port. -/
structure Outline.Nested (family : Family) (outline : Outline) : Prop where
  everything : Canonical family outline.everything
  wide : ∀ protocol, Canonical family (outline.wide protocol)
  available : ∀ protocol port, Canonical family (outline.available protocol port)
  wide_of_everything : ∀ protocol point, Covers outline.everything point →
    Covers (outline.wide protocol) point
  available_of_wide : ∀ protocol port point, Covers (outline.wide protocol) point →
      Covers (outline.available protocol port) point
  icmp : ∀ port, outline.available .icmp port = outline.wide .icmp

theorem Outline.Nested.states {outline : Outline}
    (nested : outline.Nested family) (protocol : NativeProtocol) (port : Nat) :
    Canonical family (outline.states protocol port) := by
  unfold Outline.states
  split
  · exact nested.available protocol _
  · exact nested.wide protocol

theorem inPorts_none (port : UInt16) : InPorts none port := by
  intro range found
  cases found

section Nested

variable {rules : List Rule}
  (inFamily : ∀ rule ∈ rules, InFamily family rule.addresses)
  (portsOf : ∀ rule ∈ rules, rule.ports ≠ none →
    rule.protocol = some .tcp ∨ rule.protocol = some .udp)

include inFamily

/-- Rules of a protocol without ports are available at every port, and so are
the others of rules whose ports do not matter. -/
theorem covers_available_of_wide (everyPort : ∀ rule ∈ rules,
    rule.protocol = none → rule.ports = none)
    {port : UInt16} (covers : Covers ((outline rules).wide protocol) point) :
    Covers ((outline rules).available protocol port) point := by
  obtain ⟨rule, member, selected, covers⟩ :=
    (covers_unionWhere inFamily _ point).mp covers
  have selected := of_decide_eq_true selected
  have noPorts : rule.ports = none :=
    selected.elim (everyPort rule member) And.right
  refine (covers_unionWhere inFamily _ point).mpr ⟨rule, member,
    decide_eq_true ⟨selected.imp_right And.left, ?_⟩, covers⟩
  rw [noPorts]
  exact inPorts_none port

/-- Where the port is in no rule's ports, only rules without ports are left. -/
theorem covers_wide_of_available {port : UInt16}
    (noPorts : ∀ rule ∈ rules, (rule.protocol = none ∨ rule.protocol = some protocol) →
        InPorts rule.ports port → rule.ports = none)
    (covers : Covers ((outline rules).available protocol port) point) :
    Covers ((outline rules).wide protocol) point := by
  obtain ⟨rule, member, selected, covers⟩ :=
    (covers_unionWhere inFamily _ point).mp covers
  obtain ⟨ofProtocol, inPorts⟩ := of_decide_eq_true selected
  refine (covers_unionWhere inFamily _ point).mpr ⟨rule, member,
    decide_eq_true (ofProtocol.imp_right fun same => ⟨same, ?_⟩), covers⟩
  exact noPorts rule member ofProtocol inPorts

include portsOf

theorem nested_outline : (outline rules).Nested family := by
  have wide := fun protocol => canonical_unionWhere inFamily (fun rule =>
    decide (rule.protocol = none ∨ rule.protocol = some protocol ∧ rule.ports = none))
  have everyPort : ∀ rule ∈ rules, rule.protocol = none → rule.ports = none := by
    intro rule member every
    by_contra ports
    rcases portsOf rule member ports with tcp | udp
    · cases every.symm.trans tcp
    · cases every.symm.trans udp
  refine ⟨canonical_unionWhere inFamily _, wide, fun _ _ =>
    canonical_unionWhere inFamily _, fun protocol point covers => ?_,
    fun protocol port point => covers_available_of_wide inFamily everyPort,
    fun port => ?_⟩
  · obtain ⟨rule, member, every, covers⟩ :=
      (covers_unionWhere inFamily _ point).mp covers
    exact (covers_unionWhere inFamily _ point).mpr ⟨rule, member,
      decide_eq_true (.inl (of_decide_eq_true every)), covers⟩
  · apply (canonical_unionWhere inFamily _).ext (wide .icmp)
    intro point
    refine ⟨covers_wide_of_available inFamily fun rule member ofProtocol _ => ?_,
      covers_available_of_wide inFamily everyPort⟩
    by_contra ports
    rcases portsOf rule member ports with tcp | udp
    · simp [tcp] at ofProtocol
    · simp [udp] at ofProtocol

end Nested

theorem emitted_networks {networks : List Network}
    (families : ∀ network ∈ networks, network.family = family)
    (protocol : Option NativeProtocol) (packet : Packet) :
    Emitted (networks.map fun network => ⟨network, protocol, none⟩) packet ↔
      family = packet.family ∧ (protocol = none ∨ protocol = packet.protocol) ∧
        ∃ network ∈ networks, network.Has packet.address := by
  constructor
  · rintro ⟨native, member, ofFamily, has, ofProtocol, _⟩
    obtain ⟨network, found, rfl⟩ := List.mem_map.mp member
    exact ⟨families network found ▸ ofFamily, ofProtocol, network, found, has⟩
  · rintro ⟨ofFamily, ofProtocol, network, found, has⟩
    refine ⟨_, List.mem_map_of_mem found,
      (families network found).trans ofFamily, has, ofProtocol, ?_⟩
    rintro range ports
    cases ports

theorem mem_portNatives (isMap : IsMap ranges) :
    native ∈ portNatives protocol ranges ↔ ∃ network, ∃ range ∈ valuesAt ranges network,
        ⟨network, some protocol, some (.ofNat range.1, .ofNat range.2)⟩ =
          native := by
  simp only [portNatives, List.mem_flatMap, List.mem_map, Prod.exists]
  constructor
  · rintro ⟨network, values, member, first, last, inside, rfl⟩
    obtain ⟨_, rfl⟩ := (mem_iff_valuesAt isMap).mp member
    exact ⟨network, first, last, inside, rfl⟩
  · rintro ⟨network, first, last, inside, rfl⟩
    exact ⟨network, _, (mem_iff_valuesAt isMap).mpr
      ⟨List.ne_nil_of_mem inside, rfl⟩, first, last, inside, rfl⟩

theorem inPorts_some_ofNat (small : first < 65536) (lastSmall : last < 65536) (port : UInt16) :
    InPorts (some (.ofNat first, .ofNat last)) port ↔
      first ≤ port.toNat ∧ port.toNat ≤ last := by
  simp only [InPorts, Option.mem_some_iff, forall_eq', UInt16.le_iff_toNat_le]
  rw [UInt16.toNat_ofNat_of_lt' small, UInt16.toNat_ofNat_of_lt' lastSmall]

theorem emitted_portNatives (isNatives : IsPortNatives family covered states protocol natives)
    (packet : Packet) :
    Emitted natives packet ↔ some protocol = packet.protocol ∧
      ∃ network ∈ openBefore (advance family covered) states (packet.port.toNat + 1),
        network.family = packet.family ∧ network.Has packet.address := by
  obtain ⟨ranges, rfl, isMap, runs⟩ := isNatives
  have bounds : ∀ network, ∀ range ∈ valuesAt ranges network,
      range.1 < 65536 ∧ range.2 < 65536 := by
    intro network range member
    have valid := (runs network).spaced.valid range member
    have ends := ((runs network).ends_before member).1
    omega
  have covers : ∀ network, Covers (valuesAt ranges network) packet.port.toNat ↔
      network ∈ openBefore (advance family covered) states (packet.port.toNat + 1) := by
    intro network
    rw [(runs network).covers]
    exact and_iff_right packet.port.toNat_lt
  simp only [Emitted, mem_portNatives isMap]
  constructor
  · rintro ⟨_, ⟨network, range, member, rfl⟩, ofFamily, has, ofProtocol, inPorts⟩
    obtain ⟨small, lastSmall⟩ := bounds network range member
    rw [inPorts_some_ofNat small lastSmall] at inPorts
    exact ⟨ofProtocol.resolve_left (by simp), network,
      (covers network).mp ⟨range, member, inPorts⟩, ofFamily, has⟩
  · rintro ⟨ofProtocol, network, isOpen, ofFamily, has⟩
    obtain ⟨range, member, inside⟩ := (covers network).mpr isOpen
    obtain ⟨small, lastSmall⟩ := bounds network range member
    exact ⟨_, ⟨network, range, member, rfl⟩, ofFamily, has, .inr ofProtocol,
      (inPorts_some_ofNat small lastSmall packet.port).mpr inside⟩

section Exact

variable {outline : Outline} (nested : outline.Nested family) {packet : Packet}
  (ofFamily : family = packet.family)

include nested ofFamily

theorem emitted_everything : Emitted ((networksOf family outline.everything).map
        fun network => ⟨network, none, none⟩) packet ↔
      Covers outline.everything packet.address := by
  rw [emitted_networks fun network =>
    family_of_mem_networksOf nested.everything,
    covers_networksOf nested.everything]
  simp [ofFamily]

theorem emitted_wide (protocol : NativeProtocol) :
    Emitted (wideNatives family outline protocol) packet ↔ some protocol = packet.protocol ∧
        ∃ network ∈ networksOf family (outline.wide protocol),
          ¬ network.Within outline.everything ∧ network.Has packet.address := by
  have families : ∀ network ∈ (networksOf family (outline.wide protocol)).filter
      (fun network => !held network outline.everything),
      network.family = family := fun network member =>
    family_of_mem_networksOf (nested.wide protocol) (List.mem_of_mem_filter member)
  have kept : ∀ network ∈ networksOf family (outline.wide protocol),
      (!held network outline.everything) = true ↔ ¬ network.Within outline.everything := by
    intro network member
    rw [Bool.not_eq_true', ← Bool.not_eq_true, held_iff
      (inFamily_of_mem_networksOf (nested.wide protocol) member)
      nested.everything.sorted]
  rw [wideNatives, emitted_networks families]
  constructor
  · rintro ⟨_, ofProtocol, network, member, has⟩
    obtain ⟨found, uncovered⟩ := List.mem_filter.mp member
    exact ⟨ofProtocol.resolve_left (by simp), network, found,
      (kept network found).mp uncovered, has⟩
  · rintro ⟨ofProtocol, network, found, uncovered, has⟩
    exact ⟨ofFamily, .inr ofProtocol, network,
      List.mem_filter.mpr ⟨found, (kept network found).mpr uncovered⟩, has⟩

theorem covers_wide_iff (ofProtocol : some protocol = packet.protocol) :
    Covers outline.everything packet.address ∨
        Emitted (wideNatives family outline protocol) packet ↔
      Covers (outline.wide protocol) packet.address := by
  rw [emitted_wide nested ofFamily]
  constructor
  · rintro (covers | ⟨_, network, member, _, has⟩)
    · exact nested.wide_of_everything protocol _ covers
    · exact within_of_mem_networksOf (nested.wide protocol) member _ has
  · intro covers
    obtain ⟨network, member, has⟩ :=
      (covers_networksOf (nested.wide protocol) _).mpr covers
    by_cases within : network.Within outline.everything
    · exact .inl (within _ has)
    · exact .inr ⟨ofProtocol, network, member, within, has⟩

theorem covers_available_iff (isNatives : IsPortNatives family (outline.wide protocol)
      (outline.states protocol) protocol natives)
    (ofProtocol : some protocol = packet.protocol) :
    (Covers (outline.wide protocol) packet.address ∨ Emitted natives packet) ↔
      Covers (outline.available protocol packet.port) packet.address := by
  have here : outline.states protocol packet.port.toNat =
      outline.available protocol packet.port := by
    rw [Outline.states, if_pos packet.port.toNat_lt, UInt16.ofNat_toNat]
  have covers := @covers_advance family (outline.wide protocol) _
    (openBefore (advance family (outline.wide protocol))
      (outline.states protocol) packet.port.toNat)
    (nested.available protocol packet.port)
    (nested.available_of_wide protocol packet.port) packet.address
  rw [emitted_portNatives isNatives, covers, openBefore, here]
  apply or_congr_right
  constructor
  · rintro ⟨_, network, isOpen, _, has⟩
    exact ⟨network, isOpen, has⟩
  · rintro ⟨network, isOpen, has⟩
    have tidy := Tidy.advance (nested.available protocol packet.port)
      (@tidy_openBefore family (outline.wide protocol) _ (nested.states protocol) packet.port.toNat)
    exact ⟨ofProtocol, network, isOpen, (tidy network isOpen).1.trans ofFamily, has⟩

theorem emitted_iff (emits : Emits family outline natives) :
    Emitted natives packet ↔ outline.Selects packet := by
  obtain ⟨tcp, udp, isTcp, isUdp, rfl⟩ := emits
  have everyProtocol := emitted_everything nested ofFamily
  -- Native rules with a protocol match packets of that protocol only.
  have notWide : ∀ protocol, some protocol ≠ packet.protocol →
      ¬ Emitted (wideNatives family outline protocol) packet :=
    fun protocol other emitted =>
      other ((emitted_wide nested ofFamily protocol).mp emitted).1
  have notTcp : some .tcp ≠ packet.protocol → ¬ Emitted tcp packet :=
    fun other emitted => other ((emitted_portNatives isTcp packet).mp emitted).1
  have notUdp : some .udp ≠ packet.protocol → ¬ Emitted udp packet :=
    fun other emitted => other ((emitted_portNatives isUdp packet).mp emitted).1
  simp only [emitted_append, List.flatMap_cons, List.flatMap_nil, List.append_nil,
    everyProtocol, Outline.Selects]
  cases protocol : packet.protocol with
  | none => simp [protocol, notWide, notTcp, notUdp]
  | some named =>
    cases named with
    | icmp =>
      simp only [nested.icmp, ← covers_wide_iff nested ofFamily protocol.symm]
      simp [protocol, notWide, notTcp, notUdp]
    | tcp =>
      simp only [← covers_available_iff nested ofFamily isTcp protocol.symm,
        ← covers_wide_iff nested ofFamily protocol.symm]
      simp [protocol, notWide, notUdp]
    | udp =>
      simp only [← covers_available_iff nested ofFamily isUdp protocol.symm,
        ← covers_wide_iff nested ofFamily protocol.symm]
      simp [protocol, notWide, notTcp]

end Exact

theorem nodup_portNatives (isNatives : IsPortNatives family covered states protocol natives) :
    natives.Nodup := by
  obtain ⟨ranges, rfl, isMap, runs⟩ := isNatives
  rw [portNatives, List.nodup_flatMap]
  constructor
  · rintro ⟨network, values⟩ member
    obtain ⟨_, same⟩ := (mem_iff_valuesAt isMap).mp member
    have isRuns := same ▸ runs network
    apply isRuns.spaced.nodup.map_on
    intro first inside second alsoInside equal
    have ends := (isRuns.ends_before inside).1
    have alsoEnds := (isRuns.ends_before alsoInside).1
    have starts : first.1 < 65536 :=
      Nat.lt_of_le_of_lt (isRuns.spaced.valid first inside) ends
    have alsoStarts : second.1 < 65536 :=
      Nat.lt_of_le_of_lt (isRuns.spaced.valid second alsoInside) alsoEnds
    simp only [NativeRule.mk.injEq, Option.some.injEq, Prod.mk.injEq, true_and,
      ← UInt16.toNat_inj] at equal
    rw [UInt16.toNat_ofNat_of_lt' starts, UInt16.toNat_ofNat_of_lt' alsoStarts,
      UInt16.toNat_ofNat_of_lt' ends, UInt16.toNat_ofNat_of_lt' alsoEnds] at equal
    exact Prod.ext equal.1 equal.2
  · apply isMap.ascending.imp
    intro first second before native inFirst inSecond
    obtain ⟨_, _, rfl⟩ := List.mem_map.mp inFirst
    obtain ⟨_, _, same⟩ := List.mem_map.mp inSecond
    exact ne_of_lt before (congrArg NativeRule.network same).symm

theorem portNatives_shape (isNatives : IsPortNatives family covered states protocol natives)
    (canonical : ∀ port, Canonical family (states port)) :
    ∀ native ∈ natives, (native.network.family = family ∧ native.WellFormed) ∧
      native.protocol = some protocol ∧ native.ports ≠ none := by
  obtain ⟨ranges, rfl, isMap, runs⟩ := isNatives
  intro native member
  obtain ⟨network, range, inside, rfl⟩ := (mem_portNatives isMap).mp member
  have isOpen := ((runs network).ends_before inside).2
  obtain ⟨rfl, inFamily, _⟩ := tidy_openBefore canonical _ network isOpen
  exact ⟨⟨rfl, inFamily, nofun⟩, rfl, nofun⟩

theorem nodup_networks (nodup : List.Nodup networks) (protocol : Option NativeProtocol) :
    (networks.map fun network =>
      (⟨network, protocol, none⟩ : NativeRule)).Nodup :=
  nodup.map fun _ _ same => congrArg NativeRule.network same

theorem mem_wideNatives {outline : Outline}
    (member : native ∈ wideNatives family outline protocol) :
    native.network ∈ networksOf family (outline.wide protocol) ∧
      native.protocol = some protocol ∧ native.ports = none := by
  obtain ⟨network, found, rfl⟩ := List.mem_map.mp member
  exact ⟨List.mem_of_mem_filter found, rfl, rfl⟩

theorem wellFormed_of_mem_networksOf {native : NativeRule} (canonical : Canonical family intervals)
    (member : native.network ∈ networksOf family intervals) (ports : native.ports = none) :
    native.network.family = family ∧ native.WellFormed := by
  have ofFamily := family_of_mem_networksOf canonical member
  refine ⟨ofFamily, ?_, fun some => absurd ports some⟩
  rw [ofFamily]
  exact inFamily_of_mem_networksOf canonical member

theorem Emits.wellFormed {family : Family} {outline : Outline} (nested : outline.Nested family)
    (emits : Emits family outline natives) :
    ∀ native ∈ natives, native.network.family = family ∧ native.WellFormed := by
  obtain ⟨tcp, udp, isTcp, isUdp, rfl⟩ := emits
  simp only [List.forall_mem_append]
  refine ⟨⟨⟨fun native member => ?_, fun native member => ?_⟩, ?_⟩, ?_⟩
  · obtain ⟨network, found, rfl⟩ := List.mem_map.mp member
    exact wellFormed_of_mem_networksOf nested.everything found rfl
  · obtain ⟨protocol, _, found⟩ := List.mem_flatMap.mp member
    obtain ⟨inside, _, ports⟩ := mem_wideNatives found
    exact wellFormed_of_mem_networksOf (nested.wide protocol) inside ports
  · exact fun native member =>
      (portNatives_shape isTcp (nested.states .tcp) native member).1
  · exact fun native member =>
      (portNatives_shape isUdp (nested.states .udp) native member).1

theorem Emits.nodup {family : Family} {outline : Outline} (nested : outline.Nested family)
    (emits : Emits family outline natives) : natives.Nodup := by
  obtain ⟨tcp, udp, isTcp, isUdp, rfl⟩ := emits
  have tcpShape := portNatives_shape isTcp (nested.states .tcp)
  have udpShape := portNatives_shape isUdp (nested.states .udp)
  have wideNodup : ([NativeProtocol.icmp, .tcp, .udp].flatMap
      (wideNatives family outline)).Nodup := by
    rw [List.nodup_flatMap]
    refine ⟨fun protocol _ => nodup_networks
      ((nodup_networksOf (nested.wide protocol)).filter _) _, ?_⟩
    have distinct : [NativeProtocol.icmp, .tcp, .udp].Nodup := by decide
    apply distinct.imp
    intro first second different native inFirst inSecond
    have same := (mem_wideNatives inFirst).2.1.symm.trans (mem_wideNatives inSecond).2.1
    exact different (Option.some.inj same)
  -- The parts differ in whether they name a protocol and ports.
  refine List.Nodup.append (List.Nodup.append (List.Nodup.append
    (nodup_networks (nodup_networksOf nested.everything) none) wideNodup ?_)
    (nodup_portNatives isTcp) ?_) (nodup_portNatives isUdp) ?_
  · intro native inEvery inWide
    obtain ⟨network, _, rfl⟩ := List.mem_map.mp inEvery
    obtain ⟨protocol, _, found⟩ := List.mem_flatMap.mp inWide
    cases (mem_wideNatives found).2.1
  · intro native inOthers inTcp
    obtain ⟨_, _, ports⟩ := tcpShape native inTcp
    rcases List.mem_append.mp inOthers with inEvery | inWide
    · obtain ⟨network, _, rfl⟩ := List.mem_map.mp inEvery
      exact ports rfl
    · obtain ⟨protocol, _, found⟩ := List.mem_flatMap.mp inWide
      exact ports (mem_wideNatives found).2.2
  · intro native inOthers inUdp
    obtain ⟨_, protocol, ports⟩ := udpShape native inUdp
    rcases List.mem_append.mp inOthers with inOthers | inTcp
    · rcases List.mem_append.mp inOthers with inEvery | inWide
      · obtain ⟨network, _, rfl⟩ := List.mem_map.mp inEvery
        exact ports rfl
      · obtain ⟨protocol, _, found⟩ := List.mem_flatMap.mp inWide
        exact ports (mem_wideNatives found).2.2
    · cases (tcpShape native inTcp).2.1.symm.trans protocol

end Nvx.Host.Egress
