import Nvx.Host.Egress.Stages

namespace Nvx.Host.Egress

open Nvx.Data

/-! The lowered rules are a canonical form of what the rules match. -/

def rulesOf (rules : List Rule) (family : Family) : List Rule :=
  rules.filter fun rule => rule.family = family

structure Ordered (rules : List Rule) : Prop where
  wellFormed : ∀ rule ∈ rules, rule.WellFormed
  ordered : ∀ rule ∈ rules, PortsOrdered rule

theorem Ordered.ofFamily {rules : List Rule} (valid : Ordered rules)
    (family : Family) : OfFamily family (rulesOf rules family) where
  wellFormed rule member := valid.wellFormed rule (List.mem_of_mem_filter member)
  ordered rule member := valid.ordered rule (List.mem_of_mem_filter member)
  family _ member := of_decide_eq_true (List.mem_filter.mp member).2

theorem emits_nil (family : Family) : Emits family (outline []) [] := by
  have ofFamily : OfFamily family [] := ⟨by simp, by simp, by simp⟩
  obtain ⟨natives, emits, spends⟩ := ofFamily.lowerFamily_spec ""
  have result := spends.result 0 (Nat.le_refl 0)
  have nothing : lowerFamily [] family "" 0 = .ok [] := by
    rfl
  rw [nothing] at result
  split at result
  · rwa [Except.ok.inj result]
  · cases result

theorem lowerRulesOf_spec (valid : Ordered rules)
    (category : String) (lowered : List NativeRule) (family : Family) :
    ∃ natives, Emits family (outline (rulesOf rules family)) natives ∧
      Spends (tooManyRules category) lowered.length (lowered ++ natives).length
        (fun limit => lowerRulesOf rules category limit lowered family)
        (lowered ++ natives) := by
  by_cases absent : rulesOf rules family = []
  · refine ⟨[], absent ▸ emits_nil family, ?_⟩
    rw [List.append_nil]
    unfold rulesOf at absent
    simp only [lowerRulesOf, absent, if_true]
    exact spends_ok _ _ _
  · obtain ⟨natives, emits, spends⟩ :=
      (valid.ofFamily family).lowerFamily_spec category
    refine ⟨natives, emits, ?_⟩
    have whole := (spends_left spends lowered.length).map (lowered ++ ·)
    simp only [bind_assoc] at whole
    rw [List.length_append]
    unfold rulesOf at absent
    simp only [lowerRulesOf, absent, if_false]
    exact whole

/-- The native rules of both families, as the lowering sorts them. -/
def Lowers (rules : List Rule) (natives : List NativeRule) : Prop :=
  ∃ v4 v6, Emits .v4 (outline (rulesOf rules .v4)) v4 ∧ Emits .v6 (outline (rulesOf rules .v6)) v6 ∧
    natives = (v4 ++ v6).insertionSort (· ≤ ·)

theorem lowerNative_spec (valid : Ordered rules) (category : String) :
    ∃ natives, Lowers rules natives ∧ Spends (tooManyRules category) 0 natives.length
        (fun limit => lowerNative rules category limit) natives := by
  obtain ⟨v4, emitsV4, spendsV4⟩ := lowerRulesOf_spec valid category [] .v4
  rw [List.nil_append] at spendsV4
  obtain ⟨v6, emitsV6, spendsV6⟩ := lowerRulesOf_spec valid category v4 .v6
  refine ⟨_, ⟨v4, v6, emitsV4, emitsV6, rfl⟩, ?_⟩
  rw [List.length_insertionSort]
  simp only [lowerNative, Family.all, List.foldlM_cons, List.foldlM_nil, bind_pure, bind_assoc]
  refine spendsV4.bind ?_
  exact spendsV6.map _

theorem Lowers.ascending (valid : Ordered rules) (lowers : Lowers rules natives) :
    natives.Pairwise (· < ·) := by
  obtain ⟨v4, v6, emitsV4, emitsV6, rfl⟩ := lowers
  have nestedV4 := (valid.ofFamily .v4).nested
  have nestedV6 := (valid.ofFamily .v6).nested
  have nodup : (v4 ++ v6).Nodup := by
    refine (emitsV4.nodup nestedV4).append (emitsV6.nodup nestedV6) ?_
    intro native inV4 inV6
    cases (emitsV4.wellFormed nestedV4 native inV4).1.symm.trans
      (emitsV6.wellFormed nestedV6 native inV6).1
  have distinct := (List.perm_insertionSort (· ≤ ·) (v4 ++ v6)).nodup_iff.mpr nodup
  have sorted := List.pairwise_insertionSort (· ≤ ·) (v4 ++ v6)
  exact (sorted.and distinct).imp fun both => lt_of_le_of_ne both.1 both.2

theorem Lowers.wellFormed (valid : Ordered rules) (lowers : Lowers rules natives) :
    ∀ native ∈ natives, native.WellFormed := by
  obtain ⟨v4, v6, emitsV4, emitsV6, rfl⟩ := lowers
  intro native member
  rcases List.mem_append.mp ((List.mem_insertionSort _).mp member) with inV4 | inV6
  · exact (emitsV4.wellFormed (valid.ofFamily .v4).nested native inV4).2
  · exact (emitsV6.wellFormed (valid.ofFamily .v6).nested native inV6).2

theorem selected_iff_covers (valid : Ordered rules) (same : ∀ rule ∈ rules, p rule = true ↔
      (rule.protocol = none ∨ rule.protocol = packet.protocol) ∧ InPorts rule.ports packet.port) :
    Selected rules packet ↔ Covers (unionWhere p (rulesOf rules packet.family)) packet.address := by
  rw [covers_unionWhere (valid.ofFamily packet.family).inFamily]
  constructor
  · rintro ⟨rule, member, ofFamily, covers, selected⟩
    exact ⟨rule, List.mem_filter.mpr ⟨member, decide_eq_true ofFamily⟩,
      (same rule member).mpr selected, covers⟩
  · rintro ⟨rule, found, selected, covers⟩
    obtain ⟨member, ofFamily⟩ := List.mem_filter.mp found
    exact ⟨rule, member, of_decide_eq_true ofFamily, covers, (same rule member).mp selected⟩

theorem selected_iff (valid : Ordered rules) (packet : Packet) :
    Selected rules packet ↔ (outline (rulesOf rules packet.family)).Selects packet := by
  unfold Outline.Selects
  cases protocol : packet.protocol with
  | none =>
    apply selected_iff_covers valid
    intro rule member
    rw [decide_eq_true_eq, protocol, or_self]
    refine ⟨fun every => ⟨every, ?_⟩, And.left⟩
    have ports : rule.ports = none := by
      by_contra ports
      simpa [every] using (valid.wellFormed rule member).portsOf ports
    rw [ports]
    exact inPorts_none packet.port
  | some named =>
    apply selected_iff_covers valid
    intro rule _
    rw [decide_eq_true_eq, protocol]

theorem Lowers.emitted_iff (valid : Ordered rules) (lowers : Lowers rules natives)
    (packet : Packet) : Emitted natives packet ↔ Selected rules packet := by
  obtain ⟨v4, v6, emitsV4, emitsV6, rfl⟩ := lowers
  have nested := fun family => (valid.ofFamily family).nested
  have members : Emitted ((v4 ++ v6).insertionSort (· ≤ ·)) packet ↔
      Emitted v4 packet ∨ Emitted v6 packet := by
    rw [← emitted_append]
    simp only [Emitted, List.mem_insertionSort]
  rw [members, selected_iff valid]
  cases family : packet.family with
  | v4 =>
    have notV6 : ¬ Emitted v6 packet := by
      rintro ⟨native, member, ofFamily, _⟩
      cases ((emitsV6.wellFormed (nested .v6) native member).1.symm.trans ofFamily).trans family
    rw [Egress.emitted_iff (nested .v4) family.symm emitsV4]
    simp [notV6]
  | v6 =>
    have notV4 : ¬ Emitted v4 packet := by
      rintro ⟨native, member, ofFamily, _⟩
      cases ((emitsV4.wellFormed (nested .v4) native member).1.symm.trans ofFamily).trans family
    rw [Egress.emitted_iff (nested .v6) family.symm emitsV6]
    simp [notV4]

theorem available_zero (ofFamily : OfFamily family rules)
    (positive : ∀ rule ∈ rules, rule.PortsPositive) (protocol : NativeProtocol) :
    (outline rules).available protocol 0 = (outline rules).wide protocol := by
  apply (ofFamily.nested.available protocol 0).ext (ofFamily.nested.wide protocol)
  intro point
  refine ⟨covers_wide_of_available ofFamily.inFamily fun rule member _ inPorts => ?_,
    ofFamily.nested.available_of_wide protocol 0 point⟩
  by_contra ports
  obtain ⟨range, found⟩ := Option.ne_none_iff_exists'.mp ports
  have starts := UInt16.le_iff_toNat_le.mp (inPorts range found).1
  have positive := UInt16.le_iff_toNat_le.mp (positive rule member range found)
  exact absurd (Nat.le_trans positive starts) (by decide)

theorem outline_eq (valid : Ordered first) (alsoValid : Ordered second)
    (positive : ∀ rule ∈ first, rule.PortsPositive)
    (alsoPositive : ∀ rule ∈ second, rule.PortsPositive)
    (same : ∀ packet, Selected first packet ↔ Selected second packet) (family : Family) :
    outline (rulesOf first family) = outline (rulesOf second family) := by
  have ofFamily := valid.ofFamily family
  have alsoOfFamily := alsoValid.ofFamily family
  have agree : ∀ (point : Nat) (inFamily : point ≤ family.lastAddress)
      (protocol : Option NativeProtocol) (port : UInt16),
      (outline (rulesOf first family)).Selects ⟨family, point, inFamily, protocol, port⟩ ↔
        (outline (rulesOf second family)).Selects ⟨family, point, inFamily, protocol, port⟩ := by
    intro point inFamily protocol port
    exact (selected_iff valid ⟨family, point, inFamily, protocol, port⟩).symm.trans
      ((same _).trans (selected_iff alsoValid _))
  have available : (outline (rulesOf first family)).available =
      (outline (rulesOf second family)).available := by
    funext protocol port
    apply (ofFamily.nested.available protocol port).ext_of_le
      (alsoOfFamily.nested.available protocol port)
    exact fun point inFamily => agree point inFamily (some protocol) port
  apply Outline.ext
  · apply ofFamily.nested.everything.ext_of_le alsoOfFamily.nested.everything
    exact fun point inFamily => agree point inFamily none 0
  · funext protocol
    rw [← available_zero ofFamily fun rule member =>
        positive rule (List.mem_of_mem_filter member),
      ← available_zero alsoOfFamily fun rule member =>
        alsoPositive rule (List.mem_of_mem_filter member), available]
  · exact available

/-- Rules that match the same packets are lowered to the same native rules, which
ascend, and they are refused under the same limits, without an underflow. -/
theorem lowering_is_canonical (category : String) (first second : List Rule)
    (valid : Ordered first) (alsoValid : Ordered second)
    (positive : ∀ rule ∈ first, rule.PortsPositive)
    (alsoPositive : ∀ rule ∈ second, rule.PortsPositive)
    (same : ∀ packet, Selected first packet ↔ Selected second packet) :
    ∃ natives : List NativeRule, natives.Pairwise (· < ·) ∧ ∀ limit, ∀ rules ∈ [first, second],
        lowerNative rules category limit = (if natives.length ≤ limit then .ok natives
            else .error (tooManyRules category)) ∧
        lowerWithin rules category limit =
          if natives.length ≤ limit then .ok (natives.map NativeRule.render)
          else .error (tooManyRules category) := by
  obtain ⟨natives, lowers, spends⟩ := lowerNative_spec valid category
  obtain ⟨others, alsoLowers, alsoSpends⟩ := lowerNative_spec alsoValid category
  obtain rfl : natives = others := by
    obtain ⟨v4, v6, emitsV4, emitsV6, rfl⟩ := lowers
    obtain ⟨otherV4, otherV6, alsoV4, alsoV6, rfl⟩ := alsoLowers
    rw [← outline_eq valid alsoValid positive alsoPositive same] at alsoV4 alsoV6
    rw [emitsV4.unique alsoV4, emitsV6.unique alsoV6]
  refine ⟨natives, lowers.ascending valid, fun limit rules member => ?_⟩
  have lowered : lowerNative rules category limit =
      if natives.length ≤ limit then .ok natives
      else .error (tooManyRules category) := by
    rcases List.mem_pair.mp member with rfl | rfl
    · exact spends.result limit (Nat.zero_le limit)
    · exact alsoSpends.result limit (Nat.zero_le limit)
  refine ⟨lowered, ?_⟩
  rw [lowerWithin, lowered]
  split <;> rfl

/-- Two intervals that are adjacent are lowered as the one that they make. -/
theorem adjacent_intervals_are_lowered_alike :
    ∃ natives : List NativeRule, natives.Pairwise (· < ·) ∧
      ∀ limit, ∀ rules ∈ [[(⟨.v4, [(0, 255)], none, none⟩ : Rule)],
          [⟨.v4, [(0, 127), (128, 255)], none, none⟩]],
        lowerNative rules "allow" limit = (if natives.length ≤ limit then .ok natives
            else .error (tooManyRules "allow")) ∧
        lowerWithin rules "allow" limit =
          if natives.length ≤ limit then .ok (natives.map NativeRule.render)
          else .error (tooManyRules "allow") := by
  apply lowering_is_canonical
  · exact ⟨List.forall_mem_singleton.mpr ⟨⟨by decide, by decide⟩, by decide,
      by simp⟩, by simp [PortsOrdered]⟩
  · exact ⟨List.forall_mem_singleton.mpr ⟨⟨by decide, by decide⟩, by decide,
      by simp⟩, by simp [PortsOrdered]⟩
  · simp [Rule.PortsPositive]
  · simp [Rule.PortsPositive]
  · intro packet
    simp only [Selected, List.mem_singleton, exists_eq_left, Rule.Matches,
      covers_cons, covers_nil, or_false]
    apply and_congr_right
    intro _
    apply and_congr_left
    intro _
    omega

def reversed : Rule :=
  ⟨.v4, [(0, 255)], some .tcp, some (10, 5)⟩

theorem reversed_wellFormed : reversed.WellFormed :=
  ⟨⟨by decide, by decide⟩, by decide, fun _ => .inl rfl⟩

theorem not_selected_reversed (packet : Packet) : ¬ Selected [reversed] packet := by
  rintro ⟨rule, member, _, _, _, inPorts⟩
  obtain rfl := List.mem_singleton.mp member
  obtain ⟨starts, ends⟩ := inPorts (10, 5) rfl
  rw [UInt16.le_iff_toNat_le] at starts ends
  exact absurd (Nat.le_trans starts ends) (by decide)

theorem lowerNative_reversed : lowerNative [reversed] "allow" maxRulesPerAction =
      .ok [⟨⟨.v4, 0, 24⟩, some .tcp, some (6, 9)⟩] := by
  decide +kernel

/-- A reversed range matches nothing, as no rules do, but the ports between its
ends are opened. -/
theorem reversed_range_is_lowered : reversed.WellFormed ∧ reversed.PortsPositive ∧
      (∀ packet, Selected [reversed] packet ↔ Selected [] packet) ∧
      lowerNative [reversed] "allow" maxRulesPerAction ≠
        lowerNative [] "allow" maxRulesPerAction := by
  refine ⟨reversed_wellFormed, ?_, fun packet => ?_, ?_⟩
  · rintro range found
    obtain rfl := Option.mem_some_iff.mp found
    decide
  · exact iff_of_false (not_selected_reversed packet) (by simp [Selected])
  · rw [lowerNative_reversed]
    intro same
    cases Except.ok.inj same

end Nvx.Host.Egress
