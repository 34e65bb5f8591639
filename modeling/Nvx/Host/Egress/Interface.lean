import Nvx.Data.Codec
import Nvx.Host.Egress.Networks

namespace Nvx.Host.Egress

open Nvx.Data

/-! The networks that are read hold addresses of their family. -/

def Network.Proper (network : Network) : Prop :=
  InFamily network.family [network.interval]

theorem proper_new (short : prefixLen ≤ family.bits) (small : address ≤ family.lastAddress) :
    (Network.new family address prefixLen).Proper := by
  intro interval found
  obtain rfl := List.mem_singleton.mp found
  rw [Network.interval_new short]
  have power : 2 ^ family.bits = 2 ^ (family.bits - prefixLen) * 2 ^ prefixLen := by
    rw [← Nat.pow_add, Nat.sub_add_cancel short]
  have positive := Nat.two_pow_pos family.bits
  have inside : address / 2 ^ (family.bits - prefixLen) < 2 ^ prefixLen := by
    apply Nat.div_lt_of_lt_mul
    rw [← power]
    unfold Family.lastAddress at small
    omega
  have size := Nat.two_pow_pos (family.bits - prefixLen)
  have whole := Nat.mul_le_mul_left (2 ^ (family.bits - prefixLen)) inside
  rw [Nat.mul_succ, ← power] at whole
  change _ ≤ _ ∧ _ ≤ 2 ^ family.bits - 1
  simp only
  omega

theorem foldlM_some_invariant {State Item : Type} {p : State → Prop}
    {step : State → Item → Option State}
    (keeps : ∀ state item later, step state item = some later → p later)
    {items : List Item} {state result : State} (start : p state)
    (folded : items.foldlM step state = some result) : p result := by
  induction items generalizing state with
  | nil =>
    obtain rfl := Option.some.inj folded
    exact start
  | cons item items induction =>
    rw [List.foldlM_cons, Option.bind_eq_bind, Option.bind_eq_some_iff] at folded
    obtain ⟨later, stepped, folded⟩ := folded
    exact induction (keeps state item later stepped) folded

theorem shiftLeft_lt (width value bits : Nat) : shiftLeft width value bits < 2 ^ width :=
  Nat.mod_lt _ (Nat.two_pow_pos width)

theorem parseIpv4_lt (parsed : parseIpv4 text = some address) : address < 2 ^ 32 := by
  simp only [parseIpv4, Option.ite_none_right_eq_some] at parsed
  apply foldlM_some_invariant (p := (· < 2 ^ 32)) _ (Nat.two_pow_pos 32) parsed.2
  intro state item later stepped
  obtain ⟨value, read, rfl⟩ := Option.map_eq_some_iff.mp stepped
  simp only [octet, Option.ite_none_right_eq_some, Option.some.injEq] at read
  apply Nat.or_lt_two_pow (shiftLeft_lt 32 state 8)
  omega

theorem hexDigit_lt (read : hexDigit byte = some digit) : digit < 16 := by
  simp only [hexDigit, isDigit, decide_eq_true_eq] at read
  split at read
  · obtain rfl := Option.some.inj read
    omega
  · split at read
    · obtain rfl := Option.some.inj read
      omega
    · obtain ⟨letter, same⟩ := Option.ite_none_right_eq_some.mp read
      obtain rfl := Option.some.inj same
      omega

theorem Part.value_lt {value : Nat} (read : Part.value part = some value) : value < 2 ^ 16 := by
  cases part with
  | group group =>
    obtain rfl := Option.some.inj read
    exact group.toNat_lt
  | text bytes =>
    simp only [Part.value, Option.ite_none_left_eq_some] at read
    apply foldlM_some_invariant (p := (· < 2 ^ 16)) _ (Nat.two_pow_pos 16) read.2
    intro state byte later stepped
    obtain ⟨digit, hex, rfl⟩ := Option.map_eq_some_iff.mp stepped
    have small := hexDigit_lt hex
    exact Nat.or_lt_two_pow (shiftLeft_lt 16 state 4) (by omega)

theorem parseIpv6_lt (parsed : parseIpv6 text = some address) : address < 2 ^ 128 := by
  have keeps : ∀ (state : Nat) (part : Part) (later : Nat),
      appendGroup state part = some later → later < 2 ^ 128 := by
    intro state part later stepped
    obtain ⟨value, read, rfl⟩ := Option.map_eq_some_iff.mp stepped
    have small := Part.value_lt read
    exact Nat.or_lt_two_pow (shiftLeft_lt 128 state 16) (by omega)
  simp only [parseIpv6, assemble, Option.ite_none_left_eq_some,
    Option.bind_eq_bind, Option.bind_eq_some_iff] at parsed
  obtain ⟨_, parts, _, layout, _, high, _, folded⟩ := parsed
  apply foldlM_some_invariant (p := (· < 2 ^ 128)) keeps _ folded
  unfold checkedShiftLeft
  split
  · exact shiftLeft_lt 128 high _
  · exact Nat.two_pow_pos 128

theorem prefixFromPrefixString_le (parsed : prefixFromPrefixString text maximum = some length) :
    length ≤ maximum := by
  unfold prefixFromPrefixString at parsed
  simp only [Option.ite_none_left_eq_some, Option.ite_none_right_eq_some] at parsed
  obtain ⟨_, _, small, same⟩ := parsed
  exact Option.some.inj same ▸ small

theorem prefixFromIpv4Netmask_le
    (parsed : prefixFromIpv4Netmask mask = some length) : length ≤ 32 := by
  simp only [prefixFromIpv4Netmask, Option.ite_none_right_eq_some] at parsed
  obtain ⟨_, same⟩ := parsed
  obtain rfl := Option.some.inj same
  exact Nat.le_trans (List.takeWhile_prefix _).length_le (by simp)

theorem prefixFromIpv4Mask_le (parsed : prefixFromIpv4Mask text = some length) : length ≤ 32 := by
  obtain ⟨mask, _, found⟩ := Option.bind_eq_some_iff.mp parsed
  rcases Option.or_eq_some_iff.mp found with netmask | ⟨_, hostmask⟩
  · exact prefixFromIpv4Netmask_le netmask
  · exact prefixFromIpv4Netmask_le hostmask

theorem proper_parseIpv4Interface {network : Network}
    (parsed : parseIpv4Interface text = some network) : network.Proper := by
  simp only [parseIpv4Interface, Option.bind_eq_bind, Option.bind_eq_some_iff] at parsed
  obtain ⟨⟨_, netmask⟩, _, address, read, prefixLen, found, same⟩ := parsed
  obtain rfl := Option.some.inj same
  have small := parseIpv4_lt read
  apply proper_new
  · cases netmask with
    | none => exact Nat.le_of_eq (Option.some.inj found).symm
    | some netmask =>
      rcases Option.or_eq_some_iff.mp found with length | ⟨_, mask⟩
      · exact prefixFromPrefixString_le length
      · exact prefixFromIpv4Mask_le mask
  · exact Nat.le_sub_one_of_lt small

theorem proper_parseIpv6Interface {network : Network}
    (parsed : parseIpv6Interface text = some (network, isScoped)) :
    network.Proper := by
  simp only [parseIpv6Interface, Option.bind_eq_bind, Option.bind_eq_some_iff] at parsed
  obtain ⟨⟨_, netmask⟩, _, ⟨_, _⟩, _, address, read, prefixLen, found, same⟩ :=
    parsed
  obtain ⟨rfl, _⟩ := Prod.mk.inj (Option.some.inj same)
  have small := parseIpv6_lt read
  apply proper_new
  · cases netmask with
    | none => exact Nat.le_of_eq (Option.some.inj found).symm
    | some netmask => exact prefixFromPrefixString_le found
  · exact Nat.le_sub_one_of_lt small

theorem proper_of_parseInterface {network : Network}
    (parsed : parseInterface text = .ok network) : network.Proper := by
  unfold parseInterface at parsed
  split at parsed
  · rename_i found
    obtain rfl := Except.ok.inj parsed
    exact proper_parseIpv4Interface found
  · split at parsed
    · rename_i found
      obtain rfl := Except.ok.inj parsed
      exact proper_parseIpv6Interface found
    · cases parsed
    · cases parsed

end Nvx.Host.Egress
