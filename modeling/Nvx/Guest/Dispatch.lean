import Nvx.Guest.Errno
import Nvx.Guest.Mappings.TableRuns
import Nvx.Protocol.ExecPayload

namespace Nvx.Guest.Dispatch

open Nvx.Data
open Nvx.Protocol (ProtocolError GuestExecPayload appHeaderLen violation)
open Nvx.Guest.Mappings (Mapping MappingTable TableError)

/-! The requests that the managed agent serves (`protocol/app.rs`,
`guest/managed_agent/{dispatch,mappings,session}.rs`).  What the agent does to
the world is asked of the world: the frames that it sends, the workloads that
it runs, the mappings that its mapper mounts, and its diagnostics. -/

def appPing : UInt8 := 1
def appExec : UInt8 := 2
def appStop : UInt8 := 3
def appCancel : UInt8 := 4
def appFeatures : UInt8 := 5
def appMaps : UInt8 := 6
def appReady : UInt8 := 0x81
def appStopped : UInt8 := 0x85
def appError : UInt8 := 0xff

def unsupportedOperation : String := "unsupported-operation"
def invalidRequest : String := "invalid-request"
def mappingsIncomplete : String := "mappings-incomplete"
def mappingFailed : String := "mapping-failed"

def appMagic : List UInt8 := [0x4e, 0x56, 0x58, 0x43]

def appVersion : UInt8 := 1

structure AppFrame where
  kind : UInt8
  requestId : UInt64
  status : UInt32
  payload : List UInt8
  deriving DecidableEq

def decodeApp (frame : List UInt8) : Except ProtocolError AppFrame :=
  if frame.length < appHeaderLen then
    .error (violation "control endpoint returned a truncated application frame")
  else
    let payload := frame.drop appHeaderLen
    if slice 0 4 frame ≠ appMagic ∨ frame[4]? ≠ some appVersion ∨
        LittleEndian.decode (slice 6 2 frame) ≠ 0 ∨
        LittleEndian.decode (slice 20 4 frame) ≠ payload.length then
      .error (violation "control endpoint returned an invalid application frame")
    else .ok {
      kind := frame.getD 5 0
      requestId := LittleEndian.toUInt64 (slice 8 8 frame)
      status := LittleEndian.toUInt32 (slice 16 4 frame)
      payload := payload }

namespace GuestFeatures

def cancel : UInt32 := (1 : UInt32) <<< 0
def workloadAccount : UInt32 := (1 : UInt32) <<< 2
def execCgroup : UInt32 := (1 : UInt32) <<< 3
def execEnvironment : UInt32 := (1 : UInt32) <<< 4
def execCwd : UInt32 := (1 : UInt32) <<< 5
def hostMappingTable : UInt32 := (1 : UInt32) <<< 6

def directAgent : UInt32 :=
  cancel ||| workloadAccount ||| execCgroup ||| execEnvironment ||| execCwd ||| hostMappingTable

def sandboxAgent : UInt32 := cancel ||| execEnvironment ||| hostMappingTable

end GuestFeatures

inductive Effect where
  | credit (length : Nat)
  | send (kind : UInt8) (requestId : UInt64) (status : Nat) (payload : List UInt8)
  | run (requestId : UInt64) (execution : GuestExecPayload)
  | map (mappings : List Mapping)
  | drain
  | report (stage : String) (status : Nat)
  | reportMapping (status : Nat) (entry : UInt32)

/-- A mapper that fails returns the index of the mapping that failed. -/
def Effect.Answer : Effect → Type
  | .credit _ | .send .. | .run .. => Except Errno Unit
  | .map _ => Except (Nat × Errno) Unit
  | .drain | .report .. | .reportMapping .. => Unit

abbrev Agent : Type → Type :=
  ExceptT Errno (StateT MappingTable (Dialogue Effect Effect.Answer))

def perform (effect : Effect) : Agent effect.Answer :=
  ExceptT.mk fun table => .ask effect fun answer => .done (.ok answer, table)

def orThrow (effect : Agent (Except Errno Unit)) : Agent Unit := do
  match ← effect with
  | .ok () => pure ()
  | .error error => throw error

def sendApp (kind : UInt8) (requestId : UInt64) (status : Nat)
    (payload : List UInt8) : Agent Unit :=
  if Protocol.outerMaxPayload < appHeaderLen + payload.length then
    throw EMSGSIZE
  else orThrow (perform (.send kind requestId status payload))

def sendError (requestId : UInt64) (status : Nat) (category : String) :
    Agent Unit :=
  sendApp appError requestId status (asBytes category)

def inspectErr (stage : String) (computation : Agent Unit) : Agent Unit :=
  tryCatch computation fun error => do
    perform (.report stage error)
    throw error

def refuseData (payload : List UInt8) : Agent AppFrame := do
  perform (.report "data-application" payload.length)
  throw EPROTO

def acceptRequest (payload : List UInt8) : Agent AppFrame := do
  match decodeApp payload with
  | .error _ => refuseData payload
  | .ok frame =>
    if frame.requestId = 0 ∨ frame.status ≠ 0 then refuseData payload
    else
      match ← perform (.credit payload.length) with
      | .ok () => pure frame
      | .error error =>
        perform (.report "data-credit" payload.length)
        throw error

inductive MappingError where
  | invalid
  | mount (status : Errno) (entry : UInt32)

def applyRequest (payload : List UInt8) : Agent (Except MappingError Unit) := do
  let table ← get
  let (table, result) ← table.apply payload fun mappings =>
    perform (.map mappings)
  set table
  match result with
  | .ok () => pure (.ok ())
  | .error (.refused _ _) => pure (.error .invalid)
  | .error (.failed entry status) => pure (.error (.mount status entry))

inductive Outcome where
  | stopped

def handlePing (request : AppFrame) : Agent Unit := do
  if request.payload = [] then
    inspectErr "ping-ready" (sendApp appReady request.requestId 0 [])
  else
    perform (.report "ping-payload" request.payload.length)
    sendError request.requestId EINVAL invalidRequest

def handleExec (request : AppFrame) : Agent Unit := do
  let table ← get
  if table.isComplete then
    match Protocol.decodeGuestExecPayload request.payload with
    | .error _ => sendError request.requestId EINVAL invalidRequest
    | .ok execution => orThrow (perform (.run request.requestId execution))
  else sendError request.requestId EAGAIN mappingsIncomplete

def handleFeatures (direct : Bool) (request : AppFrame) : Agent Unit :=
  if request.payload = [] then
    let features :=
      if direct then GuestFeatures.directAgent else GuestFeatures.sandboxAgent
    sendApp appReady request.requestId 0 (LittleEndian.ofUInt32 features)
  else sendError request.requestId EINVAL invalidRequest

def handleMaps (request : AppFrame) : Agent Unit := do
  match ← applyRequest request.payload with
  | .ok () => sendApp appReady request.requestId 0 []
  | .error .invalid => sendError request.requestId EINVAL invalidRequest
  | .error (.mount status entry) =>
    perform (.reportMapping status entry)
    sendError request.requestId status mappingFailed

def handleStop (request : AppFrame) : Agent Outcome := do
  if request.payload ≠ [] then throw EPROTO
  else
    sendApp appStopped request.requestId 0 []
    perform .drain
    pure .stopped

/-- Serves the request of one payload, and returns the outcome that ends the
session, if any. -/
def handleData (direct : Bool) (payload : List UInt8) : Agent (Option Outcome) := do
  let request ← acceptRequest payload
  if request.kind = appPing then
    handlePing request
    pure none
  else if request.kind = appExec then
    handleExec request
    pure none
  else if request.kind = appCancel then
    -- The targeted workload has already reported its outcome.
    pure none
  else if request.kind = appFeatures then
    handleFeatures direct request
    pure none
  else if request.kind = appMaps then
    handleMaps request
    pure none
  else if request.kind = appStop then
    let outcome ← handleStop request
    pure (some outcome)
  else
    sendError request.requestId ENOTSUP unsupportedOperation
    pure none

def Effect.IsRun : Effect → Prop
  | .run _ _ => True
  | _ => False

/-- From a table of `before`, the computation runs no workload, and leaves a
table of `after` unless it fails. -/
def Idles (before after : MappingTable → Prop) (computation : Agent Value) :
    Prop :=
  ∀ table, before table → (computation.run.run table).Always (fun effect => ¬ effect.IsRun)
    fun (result, table) => ∀ value, result = .ok value → after table

namespace Idles

variable {before between after : MappingTable → Prop}

theorem bind {next : First → Agent Value} (idles : Idles before between first)
    (later : ∀ value, Idles between after (next value)) :
    Idles before after (first >>= next) := by
  intro table holds
  refine (idles table holds).bind ?_
  rintro ⟨_ | value, table⟩ kept
  · exact fun value failed => nomatch failed
  · exact later value table (kept value rfl)

theorem pure (value : Value) : Idles before before (Pure.pure value) :=
  fun _ holds _ _ => holds

theorem throw (error : Errno) : Idles before after (MonadExcept.throw error : Agent Value) :=
  fun _ _ _ failed => nomatch failed

theorem perform (quiet : ¬ effect.IsRun) : Idles before before (Dispatch.perform effect) :=
  fun _ holds => ⟨quiet, fun _ _ _ => holds⟩

theorem orThrow (idles : Idles before after effect) :
    Idles before after (Dispatch.orThrow effect) := by
  refine idles.bind fun result => ?_
  cases result with
  | ok => exact pure ()
  | error error => exact throw error

theorem sendApp (kind : UInt8) (requestId : UInt64) (status : Nat) (payload : List UInt8) :
    Idles before before (Dispatch.sendApp kind requestId status payload) := by
  unfold Dispatch.sendApp
  split
  · exact throw _
  · exact orThrow (perform id)

theorem inspectErr (idles : Idles before after computation) :
    Idles before after (Dispatch.inspectErr stage computation) := by
  intro table holds
  refine (idles table holds).bind ?_
  rintro ⟨error | value, table⟩ kept
  · exact ⟨id, fun _ _ failed => nomatch failed⟩
  · exact fun other _ => kept value rfl

theorem acceptRequest (payload : List UInt8) :
    Idles before before (Dispatch.acceptRequest payload) := by
  have refused : Idles before before (refuseData payload) :=
    (perform id).bind fun _ => throw EPROTO
  unfold Dispatch.acceptRequest
  split
  · exact refused
  · split
    · exact refused
    · refine (perform id).bind fun credited => ?_
      cases credited with
      | ok => exact pure _
      | error error => exact (perform id).bind fun _ => throw error

theorem weaken {computation : Agent Value} (idles : Idles before between computation)
    (weakens : ∀ table, between table → after table) :
    Idles before after computation :=
  fun table holds => (idles table holds).mono fun _ kept value returned =>
    weakens _ (kept value returned)

theorem get_bind {next : MappingTable → Agent Value}
    (later : ∀ table, before table → Idles (· = table) after (next table)) :
    Idles before after (get >>= next) :=
  fun table holds => later table holds table rfl

theorem set (table : MappingTable) :
    Idles before (fun _ => True) (MonadStateOf.set table : Agent PUnit) :=
  fun _ _ _ _ => trivial

theorem applyRequest (payload : List UInt8) :
    Idles before (fun _ => True) (Dispatch.applyRequest payload) := by
  refine get_bind fun table _ => ?_
  have applies : Idles (· = table) (· = table)
      (table.apply payload fun mappings => Dispatch.perform (.map mappings)) := by
    unfold MappingTable.apply
    split
    · exact pure _
    · refine (perform id).bind fun outcome => ?_
      rcases outcome with ⟨index, error⟩ | ⟨⟩
      · exact pure _
      · exact pure _
  refine applies.bind fun applied => (set applied.1).bind fun _ => ?_
  split
  · exact pure _
  · exact pure _
  · exact pure _

theorem handlePing (request : AppFrame) : Idles before before (Dispatch.handlePing request) := by
  unfold Dispatch.handlePing
  split
  · exact inspectErr (sendApp _ _ _ _)
  · exact (perform id).bind fun _ => sendApp _ _ _ _

theorem handleFeatures (direct : Bool) (request : AppFrame) :
    Idles before before (Dispatch.handleFeatures direct request) := by
  unfold Dispatch.handleFeatures
  split
  · exact sendApp _ _ _ _
  · exact sendApp _ _ _ _

theorem handleStop (request : AppFrame) : Idles before before (Dispatch.handleStop request) := by
  unfold Dispatch.handleStop
  split
  · exact throw _
  · exact (sendApp _ _ _ _).bind fun _ => (perform id).bind fun _ => pure _

theorem handleExec (request : AppFrame) :
    Idles (fun table => table.isComplete = false) (fun _ => True)
      (Dispatch.handleExec request) := by
  refine get_bind fun table incomplete => ?_
  rw [if_neg (Bool.eq_false_iff.mp incomplete)]
  exact (sendApp _ _ _ _).weaken fun _ _ => trivial

theorem handleMaps (request : AppFrame) :
    Idles before (fun _ => True) (Dispatch.handleMaps request) := by
  refine (applyRequest _).bind fun result => ?_
  rcases result with (_ | ⟨status, entry⟩) | ⟨⟩
  · exact sendApp _ _ _ _
  · exact (perform id).bind fun _ => sendApp _ _ _ _
  · exact sendApp _ _ _ _

theorem handleData (direct : Bool) (payload : List UInt8) :
    Idles (fun table => table.isComplete = false) (fun _ => True)
      (Dispatch.handleData direct payload) := by
  have forget : ∀ table : MappingTable, table.isComplete = false → True :=
    fun _ _ => trivial
  refine (acceptRequest payload).bind fun request => ?_
  split
  · exact ((handlePing request).bind fun _ => pure none).weaken forget
  split
  · exact (handleExec request).bind fun _ => pure none
  split
  · exact (pure none).weaken forget
  split
  · exact ((handleFeatures direct request).bind fun _ => pure none).weaken forget
  split
  · exact (handleMaps request).bind fun _ => pure none
  split
  · exact ((handleStop request).bind fun _ => pure _).weaken forget
  · exact ((sendApp _ _ _ _).bind fun _ => pure none).weaken forget

end Idles

/-- The table applies the mappings that the host announced at most once and in
order, and the agent runs workloads only once all are applied. -/
theorem announced_mappings_are_applied_once_in_order {Error : Type}
    (expected : UInt32) (start : MappingTable) (created : MappingTable.new expected = some start)
    (parts : List (MappingTable.Part Error)) :
    let table := (MappingTable.machine Error).after start parts
    let trace := (MappingTable.machine Error).trace start parts
    -- what was applied are the entries `0..applied`, each as its part has it
    (trace.flatMap MappingTable.entries).map Prod.fst = List.range table.applied.toNat ∧
    (∀ event ∈ trace, ∀ mappings ∈ event.2.handed, ∃ payload,
      Protocol.decodeGuestMapsPayload event.1.bytes = .ok payload ∧
        List.Forall₂ Mappings.Maps payload.maps mappings) ∧
    table.applied.toNat ≤ expected.toNat ∧
    -- a part that does not continue the table changes nothing
    (∀ part : MappingTable.Part Error,
      (¬ ∃ payload, Protocol.decodeGuestMapsPayload part.bytes = .ok payload ∧
        payload.first = table.applied ∧
        table.applied.toNat + payload.maps.length ≤ expected.toNat) →
      (table.step part).1 = table ∧ (table.step part).2.handed = []) ∧
    (∀ (part : MappingTable.Part Error) entry refusal,
      (table.step part).2.result = .error (.refused entry refusal) →
      (table.step part).1 = table ∧ (table.step part).2.handed = []) ∧
    -- a mapping that failed ends the table
    ((∃ event ∈ trace, ∃ entry error, event.2.result = .error (.failed entry error)) →
      table.isComplete = false ∧ ∀ part : MappingTable.Part Error,
        (table.step part).1 = table ∧ (table.step part).2.handed = []) ∧
    ∀ (direct : Bool) (payload : List UInt8) (table : MappingTable), table.isComplete = false →
      ((handleData direct payload).run.run table).Always
        (fun effect => ¬ effect.IsRun) fun _ => True := by
  intro table trace
  have isStart : start.Sound ∧ start.applied = 0 ∧ start.expected = expected := by
    rw [MappingTable.new, Option.ite_none_right_eq_some, Option.some.injEq] at created
    obtain ⟨few, rfl⟩ := created
    exact ⟨⟨few, Nat.zero_le _⟩, rfl, rfl⟩
  obtain ⟨sound, fresh, rfl⟩ := isStart
  have follows : MappingTable.Follows start trace table :=
    MappingTable.Follows.run sound fresh parts
  have refused : ∀ (part : MappingTable.Part Error) refusal,
      table.check part.bytes = .error refusal →
      (table.step part).1 = table ∧ (table.step part).2.handed = [] := by
    intro part refusal checked
    rw [MappingTable.step_of_error checked]
    exact ⟨rfl, rfl⟩
  refine ⟨follows.entries, ?_, ?_, ?_, ?_, ?_, ?_⟩
  · intro event member mappings handed
    obtain ⟨earlier, later, split⟩ := List.append_of_mem member
    obtain ⟨before, _, _, _, returned, _⟩ :=
      (MappingTable.machine Error).exists_split_of_trace_eq start split
    have reached := (MappingTable.Follows.run sound fresh before).sound
    rw [returned] at handed
    exact MappingTable.maps_of_handed reached handed
  · rw [← follows.expected]
    exact follows.sound.within
  · intro part broken
    obtain ⟨refusal, checked⟩ := MappingTable.exists_check_eq_error follows.sound part.bytes (by
        intro fits
        obtain ⟨payload, continues⟩ := fits
        exact broken ⟨payload, continues.decodes, continues.next,
          follows.expected ▸ continues.fits⟩)
    exact refused part refusal checked
  · intro part entry refusal result
    exact refused part refusal (MappingTable.check_of_refused result)
  · intro failed
    have latched := follows.latched failed
    refine ⟨by rw [MappingTable.isComplete, latched]; rfl, fun part => ?_⟩
    exact refused part .latched (MappingTable.check_eq_error_of_latched latched part.bytes)
  · intro direct payload table incomplete
    exact (Idles.handleData direct payload table incomplete).mono fun _ _ => trivial

/-- One part that maps `0` at `/w`. -/
theorem announced_mapping_of_one_entry :
    let part : MappingTable.Part Errno :=
      ⟨[0, 0, 0, 0, 1, 0, 0, 0, 0, 0, 1, 0, 2, 0, 48, 47, 119], .ok ()⟩
    let table := (MappingTable.machine Errno).after ⟨1, 0, false⟩ [part]
    table.applied = 1 ∧ (((MappingTable.machine Errno).trace ⟨1, 0, false⟩ [part]).flatMap
        MappingTable.entries).map Prod.fst = List.range table.applied.toNat := by
  intro part table
  exact ⟨by decide +kernel, (announced_mappings_are_applied_once_in_order 1
    ⟨1, 0, false⟩ (by decide) [part]).1⟩

end Nvx.Guest.Dispatch
