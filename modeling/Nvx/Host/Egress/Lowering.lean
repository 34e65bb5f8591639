import Mathlib.Data.Prod.Lex
import Nvx.Data.SortedMap
import Nvx.Host.Egress.Rule

namespace Nvx.Host.Egress

open Nvx.Data

/-! The lowering of egress rules into native rules. -/

def NativeProtocol.rank : NativeProtocol → Nat
  | .icmp => 0
  | .tcp => 1
  | .udp => 2

def optionRank (rank : α → Nat) : Option α → Nat
  | none => 0
  | some value => rank value + 1

theorem optionRank_injective {rank : α → Nat} (injective : Function.Injective rank) :
    Function.Injective (optionRank rank) := by
  rintro (_ | first) (_ | second) same
  · rfl
  · cases same
  · cases same
  · exact congrArg some (injective (Nat.succ.inj same))

theorem Family.rank_injective : Function.Injective Family.rank := by
  rintro (_ | _) (_ | _) same <;> cases same <;> rfl

theorem NativeProtocol.rank_injective : Function.Injective NativeProtocol.rank := by
  rintro (_ | _ | _) (_ | _ | _) same <;> cases same <;> rfl

def Network.key (network : Network) : Nat ×ₗ Nat ×ₗ Nat :=
  toLex (network.family.rank, toLex (network.address, network.prefixLen))

theorem Network.key_injective : Function.Injective Network.key := by
  intro first second same
  obtain ⟨families, rest⟩ := Prod.mk.inj same
  obtain ⟨addresses, lengths⟩ := Prod.mk.inj rest
  exact Network.ext (Family.rank_injective families) addresses lengths

instance : LinearOrder Network :=
  .lift' Network.key Network.key_injective

@[ext]
structure NativeRule where
  network : Network
  protocol : Option NativeProtocol
  ports : Option PortRange
  deriving DecidableEq, Repr

namespace NativeRule

def portKey (range : PortRange) : Nat :=
  2 ^ 16 * range.1.toNat + range.2.toNat

theorem portKey_injective : Function.Injective portKey := by
  rintro ⟨first, last⟩ ⟨otherFirst, otherLast⟩ same
  have lastSmall := last.toNat_lt
  have otherSmall := otherLast.toNat_lt
  simp only [portKey] at same
  rw [Prod.mk.injEq, ← UInt16.toNat_inj, ← UInt16.toNat_inj]
  omega

def key (native : NativeRule) : Network ×ₗ Nat ×ₗ Nat :=
  toLex (native.network, toLex (optionRank NativeProtocol.rank native.protocol,
    optionRank portKey native.ports))

theorem key_injective : Function.Injective key := by
  intro first second same
  obtain ⟨networks, rest⟩ := Prod.mk.inj same
  obtain ⟨protocols, ranges⟩ := Prod.mk.inj rest
  exact NativeRule.ext networks (optionRank_injective NativeProtocol.rank_injective protocols)
    (optionRank_injective portKey_injective ranges)

instance : LinearOrder NativeRule :=
  .lift' key key_injective

def render (native : NativeRule) : String :=
  let network := native.network.write
  match native.protocol, native.ports with
  | none, _ => network
  | some protocol, none =>
    let name := protocol.asStr
    s!"{network}:{name}"
  | some protocol, some (start, last) =>
    let name := protocol.asStr
    if start = last then s!"{network}:{name}:{start}"
    else s!"{network}:{name}:{start}-{last}"

end NativeRule

def maxRulesPerAction : Nat := 256

def tooManyRules (category : String) : Failure :=
  invalid s!"{category} emits at most {maxRulesPerAction} native rules"

def checkedSub (budget spent : Nat) : Except Failure Nat :=
  if spent ≤ budget then .ok (budget - spent) else .error .underflow

def pushNetwork (maximum : Nat) (category : String) (networks : List Network)
    (network : Network) : Except Failure (List Network) :=
  if maximum ≤ networks.length then .error (tooManyRules category)
  else .ok (networks ++ [network])

def intervalsToNetworks (intervals : List Interval) (family : Family)
    (maximum : Nat) (category : String) : Except Failure (List Network) :=
  (networksOf family intervals).foldlM (pushNetwork maximum category) []

def held (network : Network) (intervals : List Interval) : Bool :=
  subtract [network.interval] intervals = []

def pushUncovered (covered : List Interval) (maximum : Nat) (category : String)
    (networks : List Network) (network : Network) :
    Except Failure (List Network) :=
  if held network covered then .ok networks
  else pushNetwork maximum category networks network

def protocolIntervalsToNetworks (protocolIntervals covered : List Interval)
    (family : Family) (maximum : Nat) (category : String) :
    Except Failure (List Network) :=
  (networksOf family (merge (protocolIntervals ++ covered))).foldlM
    (pushUncovered covered maximum category) []

/-- The union of the rules' addresses, which reads equal ones once. -/
def union (rules : List Rule) : List Interval :=
  merge ((rules.map Rule.addresses).dedup.flatMap id)

abbrev AddressSet : Type := List Interval

/-- The address sets that start (+1) or end (-1) at each boundary. -/
abbrev Events : Type := List (Nat × List (Int × AddressSet))

def addEvents (protocol : NativeProtocol) (covered : List Interval)
    (events : Events) (rule : Rule) : Events :=
  match rule.ports with
  | none => events
  | some (start, last) =>
    if rule.protocol ≠ some protocol ∨ rule.addresses = [] then events
    else if subtract rule.addresses covered = [] then events
    else pushAt (last.toNat + 1) (-1, rule.addresses)
      (pushAt start.toNat (1, rule.addresses) events)

abbrev Active : Type := List (AddressSet × Int)

def adjust (active : Active) (event : Int × AddressSet) : Active :=
  match active with
  | [] => if 0 + event.1 = 0 then [] else [(event.2, 0 + event.1)]
  | (addresses, count) :: rest =>
    if event.2 = addresses then
      if count + event.1 = 0 then rest
      else (addresses, count + event.1) :: rest
    else (addresses, count) :: adjust rest event

structure Sweep where
  active : Active
  portRanges : List (Network × List Interval)
  openNetworks : List Network
  ruleCount : Nat
  previousPort : Option Nat

namespace Sweep

def empty : Sweep :=
  ⟨[], [], [], 0, none⟩

/-- Extends the range of an open network whose addresses stay available. -/
def keep (available : List Interval) (port : Nat)
    (kept : List Network × List (Network × List Interval)) (network : Network) :
    List Network × List (Network × List Interval) :=
  if held network available then
    match modifyLastAt network (fun range => (range.1, port - 1)) kept.2 with
    | some portRanges => (kept.1 ++ [network], portRanges)
    | none => kept
  else kept

def opening (range : Interval) (sweep : Sweep) (network : Network) : Sweep :=
  { sweep with
    portRanges := pushAt network range sweep.portRanges
    ruleCount := sweep.ruleCount + 1
    openNetworks := sweep.openNetworks ++ [network] }

def start (budget : Nat) (category : String) (range : Interval) (sweep : Sweep)
    (network : Network) : Except Failure Sweep :=
  if budget ≤ sweep.ruleCount then .error (tooManyRules category)
  else .ok (sweep.opening range network)

/-- The ports from `previous` to before `port`, at which the same rules are
active. -/
def segment (family : Family) (category : String) (covered : List Interval)
    (budget previous port : Nat) (sweep : Sweep) : Except Failure Sweep := do
  let addresses := merge (sweep.active.flatMap Prod.fst)
  let available := merge (addresses ++ covered)
  let kept := sweep.openNetworks.foldl (keep available port) ([], sweep.portRanges)
  let keptCover := merge (covered ++ kept.1.map Network.interval)
  let left ← checkedSub budget sweep.ruleCount
  let networks ← protocolIntervalsToNetworks addresses keptCover family left category
  networks.foldlM (start budget category (previous, port - 1))
    { sweep with portRanges := kept.2, openNetworks := kept.1 }

def close (sweep : Sweep) : Sweep :=
  if sweep.previousPort.isSome ∧ sweep.active = [] then
    { sweep with openNetworks := [] }
  else sweep

def pass (family : Family) (category : String) (covered : List Interval)
    (budget port : Nat) (sweep : Sweep) : Except Failure Sweep :=
  match sweep.previousPort with
  | some previous =>
    if previous < port ∧ sweep.active ≠ [] then
      segment family category covered budget previous port sweep
    else .ok sweep
  | none => .ok sweep

def boundary (family : Family) (category : String) (covered : List Interval)
    (budget : Nat) (sweep : Sweep) (event : Nat × List (Int × AddressSet)) :
    Except Failure Sweep := do
  let sweep ← sweep.close.pass family category covered budget event.1
  return { sweep with
    active := event.2.foldl adjust sweep.active
    previousPort := some event.1 }

end Sweep

/-- The native rules of the port ranges, whose ports fit in 16 bits. -/
def portNatives (protocol : NativeProtocol)
    (portRanges : List (Network × List Interval)) : List NativeRule :=
  portRanges.flatMap fun (network, ranges) =>
    ranges.map fun (start, last) =>
      ⟨network, some protocol, some (.ofNat start, .ofNat last)⟩

def lowerPortRules (rules : List Rule) (protocol : NativeProtocol)
    (family : Family) (category : String) (covered : List Interval)
    (budget : Nat) : Except Failure (List NativeRule) := do
  let events := rules.foldl (addEvents protocol covered) []
  let sweep ← events.foldlM (Sweep.boundary family category covered budget) .empty
  return portNatives protocol sweep.portRanges

def wideRules (protocol : NativeProtocol) (rules : List Rule) : List Rule :=
  rules.filter fun rule => rule.protocol = some protocol ∧ rule.ports = none

/-- What is lowered so far, and the addresses that already match every port of
each protocol. -/
structure Lowered where
  natives : List NativeRule
  covered : List (NativeProtocol × List Interval)

def lowerWide (rules : List Rule) (family : Family) (category : String)
    (addressOnly : List Interval) (budget : Nat) (lowered : Lowered)
    (protocol : NativeProtocol) : Except Failure Lowered := do
  let protocolWide := union (wideRules protocol rules)
  if protocolWide = [] then return lowered
  let left ← checkedSub budget lowered.natives.length
  let networks ← protocolIntervalsToNetworks protocolWide addressOnly family left category
  return {
    natives := lowered.natives ++ networks.map fun network => ⟨network, some protocol, none⟩
    covered := lowered.covered ++
      [(protocol, merge (addressOnly ++ protocolWide))] }

def lowerPorts (rules : List Rule) (family : Family) (category : String)
    (addressOnly : List Interval) (covered : List (NativeProtocol × List Interval))
    (budget : Nat) (natives : List NativeRule) (protocol : NativeProtocol) :
    Except Failure (List NativeRule) := do
  let covered := (covered.lookup protocol).getD addressOnly
  let left ← checkedSub budget natives.length
  let portRules ← lowerPortRules rules protocol family category covered left
  return natives ++ portRules

def lowerFamily (rules : List Rule) (family : Family) (category : String)
    (budget : Nat) : Except Failure (List NativeRule) := do
  let addressOnly := union (rules.filter fun rule => rule.protocol = none)
  let networks ← intervalsToNetworks addressOnly family budget category
  let natives := networks.map fun network => ⟨network, none, none⟩
  let lowered ← [NativeProtocol.icmp, .tcp, .udp].foldlM
    (lowerWide rules family category addressOnly budget) ⟨natives, []⟩
  [NativeProtocol.tcp, .udp].foldlM
    (lowerPorts rules family category addressOnly lowered.covered budget)
    lowered.natives

def lowerRulesOf (rules : List Rule) (category : String) (limit : Nat)
    (lowered : List NativeRule) (family : Family) :
    Except Failure (List NativeRule) := do
  let familyRules := rules.filter fun rule => rule.family = family
  if familyRules = [] then return lowered
  let budget ← checkedSub limit lowered.length
  return lowered ++ (← lowerFamily familyRules family category budget)

def lowerNative (rules : List Rule) (category : String) (limit : Nat) :
    Except Failure (List NativeRule) := do
  let lowered ← Family.all.foldlM (lowerRulesOf rules category limit) []
  return lowered.insertionSort (· ≤ ·)

def lowerWithin (rules : List Rule) (category : String) (limit : Nat) :
    Except Failure (List String) :=
  (lowerNative rules category limit).map (List.map NativeRule.render)

def lower (rules : List Rule) (category : String) : Except Failure (List String) :=
  lowerWithin rules category maxRulesPerAction

end Nvx.Host.Egress
