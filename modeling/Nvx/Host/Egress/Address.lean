import Mathlib.Data.List.Sort
import Mathlib.Data.Nat.Log
import Nvx.Data.Intervals
import Nvx.Data.Text

namespace Nvx.Host.Egress

open Nvx.Data

/-! IP networks, and the intervals of addresses that egress rules select. -/

inductive Family
  | v4
  | v6
  deriving DecidableEq, Repr

namespace Family

def all : List Family :=
  [.v4, .v6]

def bits : Family → Nat
  | .v4 => 32
  | .v6 => 128

/-- IPv4 addresses come before IPv6 addresses. -/
def rank : Family → Nat
  | .v4 => 0
  | .v6 => 1

def lastAddress (family : Family) : Nat :=
  2 ^ family.bits - 1

def everything (family : Family) : Interval :=
  (0, family.lastAddress)

end Family

def addressMax : Nat := 2 ^ 128 - 1

def saturatingAdd (value other : Nat) : Nat :=
  min (value + other) addressMax

def checkedAdd (value other : Nat) : Option Nat :=
  if value + other ≤ addressMax then some (value + other) else none

@[ext]
structure Network where
  family : Family
  address : Nat
  prefixLen : Nat
  deriving DecidableEq, Repr

namespace Network

def hostMask (network : Network) : Nat :=
  if network.family.bits ≤ network.prefixLen then 0
  else network.family.lastAddress >>> network.prefixLen

def clear (address mask : Nat) : Nat :=
  address ^^^ (address &&& mask)

def new (family : Family) (address prefixLen : Nat) : Network :=
  let network : Network := ⟨family, address, prefixLen⟩
  { network with address := clear address network.hostMask }

def interval (network : Network) : Interval :=
  (network.address, network.address ||| network.hostMask)

def contains (network other : Network) : Bool :=
  network.family = other.family ∧ network.interval.1 ≤ other.interval.1 ∧
    other.interval.2 ≤ network.interval.2

end Network

/-- The number of clear bits below the lowest set one of a 128-bit integer. -/
def trailingZeros (value : Nat) : Nat :=
  ((List.range 128).takeWhile fun bit => !value.testBit bit).length

/-- The position of the highest set bit, `127 - count.leading_zeros()`. -/
def highestBit (count : Nat) : Nat :=
  Nat.log2 count

structure Summary where
  family : Family
  next : Option Nat
  last : Nat

namespace Summary

def alignment (family : Family) (first : Nat) : Nat :=
  if first = 0 then family.bits else min (trailingZeros first) family.bits

/-- The largest power of two that fits in the rest of the interval. -/
def fitting (span : Nat) : Nat :=
  match checkedAdd span 1 with
  | some count => highestBit count
  | none => 128

def sizeBits (family : Family) (first last : Nat) : Nat :=
  min (alignment family first) (fitting (last - first))

/-- The address after the network, unless it passes the family's last one. -/
def following (family : Family) (first size : Nat) : Option Nat :=
  if 128 ≤ size then none
  else (checkedAdd first (2 ^ size)).filter fun next =>
    next - 1 ≠ family.lastAddress

def step (summary : Summary) : Option (Network × Summary) :=
  match summary.next.filter (· ≤ summary.last) with
  | none => none
  | some first =>
    let size := sizeBits summary.family first summary.last
    some (.new summary.family first (summary.family.bits - size),
      { summary with next := following summary.family first size })

theorem lt_of_following {family : Family} {first size next : Nat}
    (found : following family first size = some next) :
    next = first + 2 ^ size := by
  unfold following at found
  split at found
  · cases found
  · rw [Option.filter_eq_some_iff] at found
    unfold checkedAdd at found
    split at found
    · exact (Option.some.inj found.1).symm
    · cases found.1

def remaining (summary : Summary) : Nat :=
  match summary.next with
  | none => 0
  | some first => summary.last + 1 - first

theorem remaining_lt (found : step summary = some (network, later)) :
    later.remaining < summary.remaining := by
  unfold step at found
  split at found
  · cases found
  · rename_i first filtered
    obtain ⟨here, inside⟩ := Option.filter_eq_some_iff.mp filtered
    obtain ⟨_, rfl⟩ := Prod.mk.inj (Option.some.inj found)
    have bound : first ≤ summary.last := by simpa using inside
    simp only [remaining, here]
    cases later : following summary.family first (sizeBits summary.family first summary.last) with
    | none => simp only; omega
    | some next =>
      have after := lt_of_following later
      have positive := Nat.two_pow_pos (sizeBits summary.family first summary.last)
      simp only
      omega

def collect (summary : Summary) : List Network :=
  match _found : summary.step with
  | none => []
  | some (network, later) => network :: collect later
termination_by summary.remaining
decreasing_by exact remaining_lt ‹_›

theorem collect_eq (summary : Summary) : summary.collect = match summary.step with
      | none => []
      | some (network, later) => network :: later.collect := by
  rw [collect]
  split <;> simp_all

end Summary

def summarize (family : Family) (interval : Interval) : List Network :=
  Summary.collect ⟨family, some interval.1, interval.2⟩

def networksOf (family : Family) (intervals : List Interval) : List Network :=
  intervals.flatMap (summarize family)

def intervalLE (first second : Interval) : Prop :=
  first.1 < second.1 ∨ first.1 = second.1 ∧ first.2 ≤ second.2

instance : DecidableRel intervalLE := fun _ _ =>
  inferInstanceAs (Decidable (_ ∨ _))

def mergeFrom (previous : Interval) : List Interval → List Interval
  | [] => [previous]
  | interval :: rest =>
    if interval.1 ≤ saturatingAdd previous.2 1 then
      mergeFrom (previous.1, max previous.2 interval.2) rest
    else previous :: mergeFrom interval rest

def merge (intervals : List Interval) : List Interval :=
  match intervals.insertionSort intervalLE with
  | [] => []
  | first :: rest => mergeFrom first rest

/-- What the exclusions leave of a source from the cursor to its end. -/
def cut (sourceEnd : Nat) : Nat → List Interval → List Interval
  | cursor, [] => if cursor ≤ sourceEnd then [(cursor, sourceEnd)] else []
  | cursor, (excludedStart, excludedEnd) :: rest =>
    if excludedStart ≤ sourceEnd then
      (if cursor < excludedStart then [(cursor, excludedStart - 1)] else []) ++
        match checkedAdd excludedEnd 1 with
        | none => []
        | some next =>
          if sourceEnd < max cursor next then []
          else cut sourceEnd (max cursor next) rest
    else if cursor ≤ sourceEnd then [(cursor, sourceEnd)]
    else []

def subtract : List Interval → List Interval → List Interval
  | [], _ => []
  | source :: sources, exclusions =>
    let left := exclusions.dropWhile fun excluded => excluded.2 < source.1
    cut source.2 source.1 left ++ subtract sources left

end Nvx.Host.Egress
