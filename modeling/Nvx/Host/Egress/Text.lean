import Nvx.Host.Egress.Address

namespace Nvx.Host.Egress

open Nvx.Data

/-! Networks as they are written: what is read of an interface, and how a network
prints. -/

def hexDigit (byte : UInt8) : Option Nat :=
  if isDigit byte then some (byte.toNat - 48)
  else if 97 ≤ byte.toNat ∧ byte.toNat ≤ 102 then some (byte.toNat - 97 + 10)
  else if 65 ≤ byte.toNat ∧ byte.toNat ≤ 70 then some (byte.toNat - 65 + 10)
  else none

def shiftLeft (width value bits : Nat) : Nat :=
  value <<< bits % 2 ^ width

def checkedShiftLeft (width value bits : Nat) : Option Nat :=
  if bits < width then some (shiftLeft width value bits) else none

def octet (text : List UInt8) : Option Nat :=
  let valid := text ≠ [] ∧ text.length ≤ 3 ∧ text.all isDigit = true ∧
    (text = [48] ∨ text.head? ≠ some 48)
  if valid ∧ decimal text ≤ 255 then some (decimal text) else none

def appendOctet (address : Nat) (text : List UInt8) : Option Nat :=
  (octet text).map fun value => shiftLeft 32 address 8 ||| value

def parseIpv4 (text : List UInt8) : Option Nat :=
  let octets := text.splitOn 46
  if octets.length = 4 then octets.foldlM appendOctet 0 else none

def leadingOnes (mask : Nat) : Nat :=
  ((List.range 32).takeWhile fun index => mask.testBit (31 - index)).length

def prefixFromIpv4Netmask (mask : Nat) : Option Nat :=
  let ones := leadingOnes mask
  if (checkedShiftLeft 32 mask ones).getD 0 = 0 then some ones else none

def prefixFromIpv4Mask (text : List UInt8) : Option Nat := do
  let mask ← parseIpv4 text
  (prefixFromIpv4Netmask mask).or (prefixFromIpv4Netmask (2 ^ 32 - 1 - mask))

def maxIntDigits : Nat := 4300

def prefixFromPrefixString (text : List UInt8) (maximum : Nat) : Option Nat :=
  if text = [] ∨ maxIntDigits < text.length ∨ text.all isDigit = false then none
  else
    let significant := text.dropWhile (· = 48)
    if 3 < significant.length then none
    else if decimal significant ≤ maximum then some (decimal significant)
    else none

inductive Part
  | text (bytes : List UInt8)
  | group (value : UInt16)
  deriving DecidableEq

namespace Part

def isEmpty : Part → Bool
  | .text bytes => bytes.isEmpty
  | .group _ => false

def value : Part → Option Nat
  | .group value => some value.toNat
  | .text bytes =>
    if bytes = [] ∨ 4 < bytes.length then none
    else bytes.foldlM (fun value byte => (hexDigit byte).map (shiftLeft 16 value 4 ||| ·)) 0

end Part

/-- At most `count` parts, whose last one keeps the separators left. -/
def splitN (separator : UInt8) : Nat → List UInt8 → List (List UInt8)
  | 0, _ => []
  | 1, text => [text]
  | count + 2, text =>
    match text.dropWhile (· ≠ separator) with
    | [] => [text]
    | _ :: rest =>
      text.takeWhile (· ≠ separator) :: splitN separator (count + 1) rest

def maxParts : Nat := 9

def embedIpv4 (parts : List (List UInt8)) : Option (List Part) :=
  match parts.getLast? with
  | none => some []
  | some last =>
    if last.contains 46 then
      (parseIpv4 last).map fun address =>
        parts.dropLast.map .text ++ [.group (.ofNat (address >>> 16)), .group (.ofNat address)]
    else some (parts.map .text)

def gaps (parts : List Part) : List Nat :=
  (List.range parts.length).filter fun index =>
    0 < index ∧ index < parts.length - 1 ∧ (parts[index]?.map Part.isEmpty).getD false = true

/-- How many parts stand before and after the `::`, and how many groups it
stands for. -/
structure Layout where
  high : Nat
  low : Nat
  skipped : Nat

def sideLength (parts : Nat) (endsEmpty : Bool) : Option Nat :=
  if endsEmpty then if parts - 1 = 0 then some 0 else none else some parts

def layout (parts : List Part) : Option Layout :=
  let firstEmpty := (parts.head?.map Part.isEmpty).getD false
  let lastEmpty := (parts.getLast?.map Part.isEmpty).getD false
  match gaps parts with
  | [] =>
    if parts.length ≠ 8 ∨ firstEmpty ∨ lastEmpty then none
    else some ⟨parts.length, 0, 0⟩
  | [skip] => do
      let high ← sideLength skip firstEmpty
      let low ← sideLength (parts.length - skip - 1) lastEmpty
      if high + low < 8 then some ⟨high, low, 8 - (high + low)⟩ else none
  | _ => none

def appendGroup (address : Nat) (part : Part) : Option Nat :=
  part.value.map fun value => shiftLeft 128 address 16 ||| value

def ipv6Parts (text : List UInt8) : Option (List Part) :=
  let parts := splitN 58 (maxParts + 1) text
  if parts.length < 3 then none
  else (embedIpv4 parts).filter (·.length ≤ maxParts)

def assemble (parts : List Part) (layout : Layout) : Option Nat := do
  let high ← (parts.take layout.high).foldlM appendGroup 0
  let skipped := (checkedShiftLeft 128 high (16 * layout.skipped)).getD 0
  (parts.drop (parts.length - layout.low)).foldlM appendGroup skipped

def parseIpv6 (text : List UInt8) : Option Nat :=
  if text = [] ∨ 45 < text.length ∨ text.any (128 ≤ ·) = true then none
  else do
    let parts ← ipv6Parts text
    assemble parts (← layout parts)

inductive InterfaceError
  | invalid
  | scoped
  deriving DecidableEq, Repr

def splitNetmask (text : List UInt8) : Option (List UInt8 × Option (List UInt8)) :=
  match text.splitOn 47 with
  | [address] => some (address, none)
  | [address, netmask] => some (address, some netmask)
  | _ => none

def ipv4PrefixLen : Option (List UInt8) → Option Nat
  | none => some 32
  | some netmask =>
    (prefixFromPrefixString netmask 32).or (prefixFromIpv4Mask netmask)

def ipv6PrefixLen : Option (List UInt8) → Option Nat
  | none => some 128
  | some netmask => prefixFromPrefixString netmask 128

def parseIpv4Interface (text : List UInt8) : Option Network := do
  let (address, netmask) ← splitNetmask text
  let address ← parseIpv4 address
  let prefixLen ← ipv4PrefixLen netmask
  return .new .v4 address prefixLen

/-- A scope follows the first `%`, and is neither empty nor holds another one. -/
def splitScope (address : List UInt8) : Option (List UInt8 × Bool) :=
  match address.dropWhile (· ≠ 37) with
  | [] => some (address, false)
  | _ :: scope =>
    if scope = [] ∨ scope.contains 37 then none
    else some (address.takeWhile (· ≠ 37), true)

def parseIpv6Interface (text : List UInt8) : Option (Network × Bool) := do
  let (address, netmask) ← splitNetmask text
  let (address, isScoped) ← splitScope address
  let address ← parseIpv6 address
  let prefixLen ← ipv6PrefixLen netmask
  return (.new .v6 address prefixLen, isScoped)

def parseInterface (text : String) : Except InterfaceError Network :=
  match parseIpv4Interface (asBytes text) with
  | some network => .ok network
  | none =>
    match parseIpv6Interface (asBytes text) with
    | some (network, false) => .ok network
    | some (_, true) => .error .scoped
    | none => .error .invalid

def writeIpv4 (address : Nat) : String :=
  ".".intercalate ([24, 16, 8, 0].map fun shift =>
    toString (address >>> shift % 256))

/-- The first of the longest runs of at least two zero groups: where it starts,
and its length. -/
def longestZeros (index : Nat) (best : Option (Nat × Nat)) : List Nat → Option (Nat × Nat)
  | [] => best
  | group :: rest =>
    if group ≠ 0 then longestZeros (index + 1) best rest
    else
      let length := (rest.takeWhile (· = 0)).length + 1
      longestZeros (index + length)
        (if (best.map Prod.snd).getD 1 < length then some (index, length) else best)
        (rest.dropWhile (· = 0))
termination_by groups => groups.length
decreasing_by
  · simp
  · exact Nat.lt_succ_of_le (List.dropWhile_suffix _).length_le

def writeGroups (groups : List Nat) : String :=
  ":".intercalate (groups.map fun group => .ofList (Nat.toDigits 16 group))

def writeIpv6 (address : Nat) : String :=
  if address >>> 32 = 65535 then "::ffff:" ++ writeIpv4 address
  else
    let groups := (List.range 8).map fun index =>
      address >>> (112 - 16 * index) % 2 ^ 16
    match longestZeros 0 none groups with
    | none => writeGroups groups
    | some (start, length) =>
      writeGroups (groups.take start) ++ "::" ++ writeGroups (groups.drop (start + length))

def Network.write (network : Network) : String :=
  let address := match network.family with
    | .v4 => writeIpv4 network.address
    | .v6 => writeIpv6 network.address
  s!"{address}/{network.prefixLen}"

end Nvx.Host.Egress
