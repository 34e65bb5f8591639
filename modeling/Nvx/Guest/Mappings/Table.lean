import Nvx.Data.Dialogue
import Nvx.Data.Machine
import Nvx.Guest.Mappings.Basic

namespace Nvx.Guest.Mappings

open Nvx.Data
open Nvx.Protocol (ProtocolError GuestHostMap GuestMapsPayload maxHostMappings
  decodeGuestMapsPayload)

/-! The host mapping table of a guest agent (`guest/mappings/table.rs`). -/

structure MappingTable where
  expected : UInt32
  applied : UInt32
  latched : Bool
  deriving DecidableEq

inductive Refusal where
  | latched
  | malformed (error : ProtocolError)
  | empty
  | order (first expected : UInt32)
  | excess («end» announced : UInt32)
  | exportRoot (entry : UInt32)
  | mapping (entry : UInt32) (error : InvalidMapping)
  deriving DecidableEq

inductive TableError (Error : Type) where
  | refused (entry : UInt32) (refusal : Refusal)
  | failed (entry : UInt32) (error : Error)
  deriving DecidableEq

def mapping (entry : UInt32) (map : GuestHostMap) : Except Refusal Mapping :=
  if map.source = [] then .error (.exportRoot entry)
  else
    let access := if map.readOnly then Access.readOnly else .readWrite
    match Mapping.new map.source map.target access with
    | .ok mapping => .ok mapping
    | .error error => .error (.mapping entry error)

def mappings : (entry : UInt32) → List GuestHostMap → Except Refusal (List Mapping)
  | _, [] => .ok []
  | entry, map :: maps => do
      let first ← mapping entry map
      let others ← mappings (entry + 1) maps
      .ok (first :: others)

namespace MappingTable

def «new» (expected : UInt32) : Option MappingTable :=
  if expected.toNat ≤ maxHostMappings then some ⟨expected, 0, false⟩ else none

def isComplete (table : MappingTable) : Bool :=
  !table.latched && table.applied = table.expected

def decoded (part : List UInt8) : Except Refusal GuestMapsPayload :=
  match decodeGuestMapsPayload part with
  | .ok payload => .ok payload
  | .error error => .error (.malformed error)

def check (table : MappingTable) (part : List UInt8) : Except Refusal (List Mapping) :=
  if table.latched then .error .latched
  else do
    let payload ← decoded part
    if payload.maps = [] then .error .empty
    else if payload.first ≠ table.applied then
      .error (.order payload.first table.applied)
    else
      let «end» := table.applied + UInt32.ofNat payload.maps.length
      if table.expected < «end» then .error (.excess «end» table.expected)
      else mappings table.applied payload.maps

def applySucceeded (table : MappingTable) (mappings : List Mapping) :
    MappingTable :=
  { table with applied := table.applied + UInt32.ofNat mappings.length }

def applyFailed (table : MappingTable) (mappings : List Mapping) (index : Nat) :
    MappingTable :=
  { table with
    applied := table.applied + UInt32.ofNat (min index mappings.length)
    latched := true }

/-- Hands the mappings of a part to `map`, which returns the index of the first
that it failed to apply. -/
def apply [Monad m] (table : MappingTable) (part : List UInt8)
    (map : List Mapping → m (Except (Nat × Error) Unit)) :
    m (MappingTable × Except (TableError Error) Unit) :=
  match table.check part with
  | .error refusal => pure (table, .error (.refused table.applied refusal))
  | .ok mappings => do
      match ← map mappings with
      | .ok () => pure (table.applySucceeded mappings, .ok ())
      | .error (index, error) =>
        let table := table.applyFailed mappings index
        pure (table, .error (.failed table.applied error))

structure Part (Error : Type) where
  bytes : List UInt8
  outcome : Except (Nat × Error) Unit

structure Return (Error : Type) where
  handed : List (List Mapping)
  result : Except (TableError Error) Unit

/-- A caller that hands each list of mappings over and waits for the outcome. -/
def handOver (mappings : List Mapping) :
    Dialogue (List Mapping) (fun _ => Except (Nat × Error) Unit) (Except (Nat × Error) Unit) :=
  .ask mappings .done

def step (table : MappingTable) (part : Part Error) : MappingTable × Return Error :=
  let (handed, table, result) :=
    (table.apply part.bytes handOver).run fun _ => part.outcome
  (table, ⟨handed, result⟩)

def machine (Error : Type) : Machine MappingTable (Part Error) (Return Error) where
  step := step

end MappingTable

end Nvx.Guest.Mappings
