import Mathlib.Data.List.Dedup
import Nvx.Host.Egress.Outline

namespace Nvx.Host.Egress

open Nvx.Data

/-! The stages of the lowering emit the native rules of the rules' outline. -/

theorem isActive_iff {port : Nat} (small : port < 65536) :
    IsActive protocol covered addresses port rule ↔
      Swept protocol covered rule ∧ rule.addresses = addresses ∧
        rule.ports ≠ none ∧ InPorts rule.ports (.ofNat port) := by
  apply and_congr_right
  intro _
  apply and_congr_right
  intro _
  cases rule.ports with
  | none => simp
  | some range =>
    simp only [Option.mem_some_iff, exists_eq_left', ne_eq, reduceCtorEq,
      not_false_eq_true, true_and, InPorts, forall_eq',
      UInt16.le_iff_toNat_le]
    rw [UInt16.toNat_ofNat_of_lt' small]

section Family

variable {family : Family}

structure OfFamily (family : Family) (rules : List Rule) : Prop where
  wellFormed : ∀ rule ∈ rules, rule.WellFormed
  ordered : ∀ rule ∈ rules, PortsOrdered rule
  family : ∀ rule ∈ rules, rule.family = family

namespace OfFamily

variable (ofFamily : OfFamily family rules)

include ofFamily

theorem inFamily : ∀ rule ∈ rules, InFamily family rule.addresses :=
  fun rule member => ofFamily.family rule member ▸ (ofFamily.wellFormed rule member).inFamily

theorem protocol_ne_none : ∀ rule ∈ rules, rule.ports ≠ none → rule.protocol ≠ none := by
  intro rule member ports every
  rcases (ofFamily.wellFormed rule member).portsOf ports with tcp | udp
  · cases every.symm.trans tcp
  · cases every.symm.trans udp

theorem nested : (outline rules).Nested family :=
  nested_outline ofFamily.inFamily fun rule member =>
    (ofFamily.wellFormed rule member).portsOf

theorem union_eq (p : Rule → Bool) : union (rules.filter p) = unionWhere p rules := by
  have inFamily := inFamily_flatMap ofFamily.inFamily p
  have members : ∀ interval, interval ∈ ((rules.filter p).map Rule.addresses).dedup.flatMap id ↔
        interval ∈ (rules.filter p).flatMap Rule.addresses := by
    intro interval
    simp only [List.mem_flatMap, List.mem_dedup, List.mem_map, id]
    constructor
    · rintro ⟨_, ⟨rule, member, rfl⟩, inside⟩
      exact ⟨rule, member, inside⟩
    · rintro ⟨rule, member, inside⟩
      exact ⟨_, ⟨rule, member, rfl⟩, inside⟩
  refine @merge_eq family _ _ ?_ ?_ ?_
  · exact fun interval member => inFamily interval ((members interval).mp member)
  · exact canonical_unionWhere ofFamily.inFamily p
  · intro point
    rw [unionWhere, covers_merge inFamily]
    simp only [Covers, members]

theorem covers_of_not_swept (member : rule ∈ rules) (ofProtocol : rule.protocol = some protocol)
    (sorted : Spaced 0 covered) (skipped : ¬ Swept protocol covered rule)
    (covers : Covers rule.addresses point) : Covers covered point := by
  have wellFormed := ofFamily.wellFormed rule member
  by_contra outside
  apply skipped
  refine ⟨ofProtocol, ?_, fun nothing => ?_⟩
  · rintro empty
    rw [empty] at covers
    exact covers_nil point covers
  · exact outside ((subtract_eq_nil_iff wellFormed.inFamily.inRange
      wellFormed.sorted sorted).mp nothing point covers)

theorem describes (protocol : NativeProtocol) : Describes family ((outline rules).wide protocol)
      (eventsOf protocol ((outline rules).wide protocol) rules)
      ((outline rules).states protocol) where
  canonical := ofFamily.nested.states protocol
  inFamily port addresses nonzero := by
    obtain ⟨rule, member, _, rfl, _⟩ :=
      (balance_eventsOf_ne_zero ofFamily.ordered protocol _ addresses port).mp nonzero
    exact ofFamily.inFamily rule member
  covers port point := by
    simp only [balance_eventsOf_ne_zero ofFamily.ordered]
    by_cases small : port < 65536
    · rw [Outline.states, if_pos small]
      constructor
      · intro covers
        obtain ⟨rule, member, selected, covers⟩ :=
          (covers_unionWhere ofFamily.inFamily _ point).mp covers
        obtain ⟨ofProtocol, inPorts⟩ := of_decide_eq_true selected
        by_cases ports : rule.ports = none
        · refine .inr ((covers_unionWhere ofFamily.inFamily _ point).mpr
            ⟨rule, member, decide_eq_true ?_, covers⟩)
          exact ofProtocol.imp_right fun same => ⟨same, ports⟩
        · have same := ofProtocol.resolve_left (ofFamily.protocol_ne_none rule member ports)
          by_cases swept : Swept protocol ((outline rules).wide protocol) rule
          · exact .inl ⟨rule.addresses, ⟨rule, member, (isActive_iff small).mpr
              ⟨swept, rfl, ports, inPorts⟩⟩, covers⟩
          · exact .inr (ofFamily.covers_of_not_swept member same
              (ofFamily.nested.wide protocol).sorted swept covers)
      · rintro (⟨_, ⟨rule, member, active⟩, covers⟩ | covers)
        · obtain ⟨swept, rfl, _, inPorts⟩ := (isActive_iff small).mp active
          exact (covers_unionWhere ofFamily.inFamily _ point).mpr
            ⟨rule, member, decide_eq_true ⟨.inr swept.1, inPorts⟩, covers⟩
        · exact ofFamily.nested.available_of_wide protocol _ point covers
    · rw [Outline.states, if_neg small]
      constructor
      · exact .inr
      · rintro (⟨_, ⟨rule, member, _, _, range, _, _, ends⟩, _⟩ | covers)
        · exact absurd (Nat.lt_of_le_of_lt ends range.2.toNat_lt) small
        · exact covers

theorem lowerPortRules_spec (category : String) (protocol : NativeProtocol) :
    ∃ natives, IsPortNatives family ((outline rules).wide protocol)
        ((outline rules).states protocol) protocol natives ∧
      Spends (tooManyRules category) 0 natives.length
        (fun budget => lowerPortRules rules protocol family category
          ((outline rules).wide protocol) budget) natives := by
  obtain ⟨isMap, bounds⟩ := eventsOf_spec protocol ((outline rules).wide protocol) rules
  have ends : ∀ addresses, balance (eventsOf protocol
      ((outline rules).wide protocol) rules) addresses 65536 = 0 := by
    intro addresses
    by_contra nonzero
    obtain ⟨rule, _, _, _, range, _, _, ends⟩ :=
      (balance_eventsOf_ne_zero ofFamily.ordered protocol _ addresses 65536).mp nonzero
    exact absurd (Nat.lt_of_le_of_lt ends range.2.toNat_lt) (Nat.lt_irrefl _)
  obtain ⟨sweep, spends, rangesMap, counted, runs⟩ := sweep_spec category
    (ofFamily.nested.wide protocol) (ofFamily.describes protocol) isMap bounds ends
  refine ⟨portNatives protocol sweep.portRanges, ⟨sweep.portRanges, rfl, rangesMap, runs⟩, ?_⟩
  rw [length_portNatives, ← counted]
  exact spends.bind (spends_ok _ _ _)

theorem canonical_wideRules (protocol : NativeProtocol) :
    Canonical family (union (wideRules protocol rules)) := by
  rw [wideRules, ofFamily.union_eq]
  exact canonical_unionWhere ofFamily.inFamily _

theorem covers_wide (protocol : NativeProtocol) (point : Nat) :
    Covers ((outline rules).wide protocol) point ↔ Covers (outline rules).everything point ∨
        Covers (union (wideRules protocol rules)) point := by
  rw [wideRules, ofFamily.union_eq]
  simp only [outline, covers_unionWhere ofFamily.inFamily, decide_eq_true_eq,
    or_and_right, and_or_left, exists_or]

theorem merge_wide (protocol : NativeProtocol) :
    merge ((outline rules).everything ++ union (wideRules protocol rules)) =
      (outline rules).wide protocol := by
  apply merge_eq (inFamily_append.mpr ⟨ofFamily.nested.everything.inFamily,
    (ofFamily.canonical_wideRules protocol).inFamily⟩)
    (ofFamily.nested.wide protocol)
  intro point
  rw [covers_append, ofFamily.covers_wide]

theorem uncoveredNetworks_wide (protocol : NativeProtocol) :
    (uncoveredNetworks family (union (wideRules protocol rules)) (outline rules).everything).map
          (fun network => (⟨network, some protocol, none⟩ : NativeRule)) =
      wideNatives family (outline rules) protocol := by
  have merged : merge (union (wideRules protocol rules) ++
      (outline rules).everything) = (outline rules).wide protocol := by
    apply merge_eq (inFamily_append.mpr ⟨(ofFamily.canonical_wideRules protocol).inFamily,
        ofFamily.nested.everything.inFamily⟩) (ofFamily.nested.wide protocol)
    intro point
    rw [covers_append, ofFamily.covers_wide, or_comm]
  rw [uncoveredNetworks, merged, wideNatives]

theorem wide_of_no_rules (noRules : union (wideRules protocol rules) = []) :
    (outline rules).wide protocol = (outline rules).everything ∧
      wideNatives family (outline rules) protocol = [] := by
  have same : (outline rules).wide protocol = (outline rules).everything := by
    apply (ofFamily.nested.wide protocol).ext ofFamily.nested.everything
    intro point
    rw [ofFamily.covers_wide, noRules]
    simp
  refine ⟨same, ?_⟩
  rw [wideNatives, same, List.map_eq_nil_iff, List.filter_eq_nil_iff]
  intro network member
  have everything := ofFamily.nested.everything
  have within := (held_iff (inFamily_of_mem_networksOf everything member)
    everything.sorted).mpr (within_of_mem_networksOf everything member)
  simp [within]

theorem lowerWide_spec (category : String) (lowered : Lowered) (protocol : NativeProtocol) :
    ∃ later, Spends (tooManyRules category) lowered.natives.length
        later.natives.length (fun budget => lowerWide rules family category
          (outline rules).everything budget lowered protocol) later ∧
      later.natives = lowered.natives ++ wideNatives family (outline rules) protocol ∧
      (∀ other, other ≠ protocol → later.covered.lookup other = lowered.covered.lookup other) ∧
      (lowered.covered.lookup protocol = none →
        (later.covered.lookup protocol).getD (outline rules).everything =
          (outline rules).wide protocol) := by
  by_cases noRules : union (wideRules protocol rules) = []
  · obtain ⟨same, nothing⟩ := ofFamily.wide_of_no_rules noRules
    refine ⟨lowered, ?_, by rw [nothing, List.append_nil], fun _ _ => rfl, ?_⟩
    · simp only [lowerWide, noRules, if_true]
      exact spends_ok _ _ _
    · intro absent
      rw [absent, same]
      rfl
  · refine ⟨⟨lowered.natives ++ wideNatives family (outline rules) protocol,
      lowered.covered ++ [(protocol, (outline rules).wide protocol)]⟩, ?_, rfl,
      fun other different => ?_, fun absent => ?_⟩
    · have emitted := spends_left (spends_protocolIntervalsToNetworks
        (union (wideRules protocol rules)) (outline rules).everything family
        category) lowered.natives.length
      have count : lowered.natives.length + (uncoveredNetworks family
          (union (wideRules protocol rules)) (outline rules).everything).length =
            (lowered.natives ++ wideNatives family (outline rules) protocol).length := by
        rw [List.length_append, ← ofFamily.uncoveredNetworks_wide, List.length_map]
      have whole := emitted.map fun networks =>
        (⟨lowered.natives ++ networks.map fun network =>
            ⟨network, some protocol, none⟩,
          lowered.covered ++ [(protocol, merge ((outline rules).everything ++
            union (wideRules protocol rules)))]⟩ : Lowered)
      simp only [count, ofFamily.uncoveredNetworks_wide, ofFamily.merge_wide, bind_assoc] at whole
      simp only [lowerWide, noRules, if_false, ofFamily.merge_wide]
      exact whole
    · rw [List.lookup_append]
      simp [List.lookup_cons, beq_eq_false_iff_ne.mpr different]
    · rw [List.lookup_append, absent]
      simp

theorem lowerPorts_spec (category : String) (natives : List NativeRule)
    (found : (covered.lookup protocol).getD (outline rules).everything =
      (outline rules).wide protocol) :
    ∃ portRules, IsPortNatives family ((outline rules).wide protocol)
        ((outline rules).states protocol) protocol portRules ∧
      Spends (tooManyRules category) natives.length (natives ++ portRules).length
        (fun budget => lowerPorts rules family category (outline rules).everything
          covered budget natives protocol) (natives ++ portRules) := by
  obtain ⟨portRules, isNatives, spends⟩ :=
    ofFamily.lowerPortRules_spec category protocol
  refine ⟨portRules, isNatives, ?_⟩
  have whole := (spends_left spends natives.length).map (natives ++ ·)
  simp only [bind_assoc] at whole
  rw [List.length_append]
  simp only [lowerPorts, found]
  exact whole

theorem lowerFamily_spec (category : String) : ∃ natives, Emits family (outline rules) natives ∧
      Spends (tooManyRules category) 0 natives.length
        (fun budget => lowerFamily rules family category budget) natives := by
  have everything : union (rules.filter fun rule => rule.protocol = none) =
      (outline rules).everything := ofFamily.union_eq _
  obtain ⟨icmp, spendsIcmp, icmpNatives, icmpOthers, _⟩ :=
    ofFamily.lowerWide_spec category ⟨(networksOf family
      (outline rules).everything).map fun network => ⟨network, none, none⟩, []⟩
      .icmp
  obtain ⟨tcp, spendsTcp, tcpNatives, tcpOthers, tcpCovered⟩ :=
    ofFamily.lowerWide_spec category icmp .tcp
  obtain ⟨udp, spendsUdp, udpNatives, udpOthers, udpCovered⟩ :=
    ofFamily.lowerWide_spec category tcp .udp
  have foundTcp : (udp.covered.lookup .tcp).getD (outline rules).everything =
      (outline rules).wide .tcp := by
    rw [udpOthers .tcp (by decide)]
    exact tcpCovered (icmpOthers .tcp (by decide))
  have foundUdp : (udp.covered.lookup .udp).getD (outline rules).everything =
      (outline rules).wide .udp := by
    apply udpCovered
    rw [tcpOthers .udp (by decide)]
    exact icmpOthers .udp (by decide)
  obtain ⟨tcpRules, isTcp, spendsTcpPorts⟩ :=
    ofFamily.lowerPorts_spec category udp.natives foundTcp
  obtain ⟨udpRules, isUdp, spendsUdpPorts⟩ :=
    ofFamily.lowerPorts_spec category (udp.natives ++ tcpRules) foundUdp
  refine ⟨udp.natives ++ tcpRules ++ udpRules, ⟨tcpRules, udpRules, isTcp, isUdp, ?_⟩, ?_⟩
  · rw [udpNatives, tcpNatives, icmpNatives]
    simp only [List.flatMap_cons, List.flatMap_nil, List.append_nil, List.append_assoc]
  · rw [List.length_map] at spendsIcmp
    simp only [lowerFamily, everything, List.foldlM_cons, List.foldlM_nil, bind_pure, bind_assoc]
    refine (spends_intervalsToNetworks _ family category).bind ?_
    refine spendsIcmp.bind ?_
    refine spendsTcp.bind ?_
    refine spendsUdp.bind ?_
    exact spendsTcpPorts.bind spendsUdpPorts

end OfFamily

end Family

end Nvx.Host.Egress
