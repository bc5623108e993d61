import RcdServer.Lib.Run
import RcdServer.Operations.Control

/-!
# The maintenance fence

The `Gate` of `maintenance.rs`. Every mutation holds an admission; `enter` blocks further ones
in memory, then on disk, and `leave` lifts the block on disk, then in memory, once all accepted
work has drained. `enter` and `leave` hold the transition lock until their record is saved; the
save and the return to memory are steps of their own, and a restart may come between them.

An operation is what `execute` or `admit_command` does under an admission: it may set the flag
of a port (`control_pending`, `pending_commands`) while it holds the admission, and the flag may
outlive it.
-/
namespace RcdServer.Operations.Maintenance

open Lib

/-! ## The gate -/

structure Record where
  schemaVersion : Nat
  gatewayInstanceId : String
  fencingToken : Nat
  deploymentId : String
  active : Bool
  deriving DecidableEq

/-- The state behind the gate's lock. -/
structure Gate where
  record : Record
  pending : Nat
  durable : Bool
  error : String
  deriving DecidableEq

def initialRecord (gateway : String) : Record := ⟨1, gateway, 0, "", false⟩

def validateOwner (deployment : String) (token : Nat) : Except OperationError Unit :=
  if token = 0 ∨ deployment = "" ∨ deployment.utf8ByteSize > 128 ∨
      !(deployment.toList.all fun c => c.isAlphanum || "-_.".toList.contains c) then
    .error ⟨"invalid_request", "invalid deployment_id or fencing_token"⟩
  else .ok ()

/-- `admit` of the source. -/
def Gate.takeAdmission (g : Gate) : Except OperationError Gate :=
  if g.record.active || !g.durable then .error ⟨"busy", "gateway maintenance blocks new mutations"⟩
  else if g.pending + 1 < 2 ^ 64 then .ok { g with pending := g.pending + 1 }
  else .error ⟨"busy", "admission counter exhausted"⟩

structure Status where
  deploymentId : String
  fencingToken : Nat
  active : Bool
  admissionBlocked : Bool
  durable : Bool
  pendingAdmissions : Nat
  pendingPortOperations : Nat
  drained : Bool
  error : String
  deriving DecidableEq

def Gate.snapshot (g : Gate) (pendingPorts : Nat) : Status where
  deploymentId := g.record.deploymentId
  fencingToken := g.record.fencingToken
  active := g.record.active
  admissionBlocked := g.record.active || !g.durable
  durable := g.durable
  pendingAdmissions := g.pending
  pendingPortOperations := pendingPorts
  drained := g.record.active && g.durable && g.pending == 0 && pendingPorts == 0
  error := g.error

/-- How a call goes on under the transition lock: it returns, or saves the next record. -/
inductive Decision where
  | done (result : Except OperationError Unit)
  | save (g : Gate) (next : Record)

def Gate.enter (g : Gate) (deployment : String) (token : Nat) : Decision :=
  match validateOwner deployment token with
  | .error e => .done (.error e)
  | .ok () =>
    let next := { g.record with active := true, deploymentId := deployment, fencingToken := token }
    let blocked := { g with record := next, durable := false }
    if !g.durable && !g.record.active then
      .done (.error ⟨"persistence_failed",
        "unknown maintenance state; reconcile storage before restarting"⟩)
    else if g.record.active then
      if g.record.deploymentId ≠ deployment ∨ g.record.fencingToken ≠ token then
        .done (.error ⟨"conflict", "another maintenance fence owns this gateway"⟩)
      else if g.durable then .done (.ok ())
      else .save blocked next
    else if g.record.fencingToken + 1 < 2 ^ 64 ∧ g.record.fencingToken + 1 = token then
      .save blocked next
    else .done (.error ⟨"conflict", "fencing token must be the next generation"⟩)

def Gate.leave (g : Gate) (deployment : String) (token pendingPorts : Nat) : Decision :=
  match validateOwner deployment token with
  | .error e => .done (.error e)
  | .ok () =>
    if g.record.deploymentId ≠ deployment ∨ g.record.fencingToken ≠ token then
      .done (.error ⟨"conflict", "maintenance fence owner changed"⟩)
    else if !g.durable then
      .done (.error ⟨"persistence_failed", "maintenance state is not durable"⟩)
    else if !g.record.active then .done (.ok ())
    else if g.pending ≠ 0 ∨ pendingPorts ≠ 0 then
      .done (.error ⟨"busy", "accepted operations have not drained"⟩)
    else .save g { g.record with active := false }

/-- The second half of `persist`, with the result of the save. -/
def Gate.settle (g : Gate) (next : Record) : Except String Unit → Gate
  | .ok () => { g with record := next, durable := true, error := "" }
  | .error e => { g with durable := false, error := e }

/-! ## The database file -/

/-- `broken` is a file without a readable record. -/
inductive Disk where
  | missing
  | broken
  | stored (r : Record)
  deriving DecidableEq

def validRecord (initial r : Record) : Bool :=
  r.schemaVersion == 1 && r.gatewayInstanceId == initial.gatewayInstanceId &&
    !(r.fencingToken == 0 && (r.active || r.deploymentId != "")) &&
    !(r.fencingToken != 0 && !(validateOwner r.deploymentId r.fencingToken).isOk)

/-- How opening the file went: a failed first opening may leave a file without a record. -/
inductive LoadOutcome where
  | opened
  | failed (created : Bool) (error : String)
  deriving DecidableEq

/-- `Gate::open`; a file without a record cannot be opened. -/
def openGate (initial : Record) (disk : Disk) : LoadOutcome → Option (Disk × Gate)
  | .failed created error =>
    let disk := match disk with
      | .missing => if created then .broken else .missing
      | disk => disk
    some (disk, ⟨initial, 0, false, error⟩)
  | .opened =>
    match disk with
    | .missing => some (.stored initial, ⟨initial, 0, true, ""⟩)
    | .broken => none
    | .stored r =>
      if validRecord initial r then some (.stored r, ⟨r, 0, true, ""⟩)
      else
        some (.stored r,
          ⟨initial, 0, false, "invalid maintenance identity/schema/fencing generation"⟩)

/-! ## The system -/

/-- An accepted mutation: whether it still holds its admission, and the port it has flagged. -/
structure Operation where
  id : Nat
  admission : Bool
  port : Option String
  deriving DecidableEq

/-- The holder of the transition lock, before and after its save. -/
inductive Phase where
  | saving (leaving : Bool) (next : Record)
  | saved (leaving : Bool) (next : Record) (result : Except String Unit)
  deriving DecidableEq

/-- `entered` is an `enter` that returned, `released` the commit of a `leave`. -/
inductive Event where
  | entered (deployment : String) (token : Nat)
  | released (deployment : String) (token : Nat)
  | admitted
  deriving DecidableEq

structure Sys where
  gateway : String
  disk : Disk
  gate : Gate
  transition : Option Phase
  operations : List Operation
  accepted : Nat
  /-- The latest event first. -/
  log : List Event
  deriving DecidableEq

/-- The number of ports with a flag. -/
def Sys.pendingPortOperations (s : Sys) : Nat :=
  (s.operations.filterMap (·.port)).dedup.length

/-- `failed true` is a save that committed and was reported as failed. -/
inductive SaveOutcome where
  | committed
  | failed (committed : Bool) (error : String)
  deriving DecidableEq

inductive Action where
  | takeAdmission
  | dropAdmission (id : Nat)
  | flagPort (id : Nat) (port : String)
  | clearPort (id : Nat)
  | enter (deployment : String) (token : Nat)
  | leave (deployment : String) (token : Nat)
  | save (outcome : SaveOutcome)
  | settle
  | restart (outcome : LoadOutcome)
  deriving DecidableEq

def Sys.note (s : Sys) (e : Event) : Sys := { s with log := e :: s.log }

def Sys.decide (s : Sys) (leaving : Bool) (deployment : String) (token : Nat) : Decision → Sys
  | .done (.ok ()) => if leaving then s else s.note (.entered deployment token)
  | .done (.error _) => s
  | .save gate next => { s with gate := gate, transition := some (.saving leaving next) }

/-- The record reaches the disk; an `UPDATE` without a row fails. -/
def Sys.commit (s : Sys) (leaving : Bool) (next : Record) (result : Except String Unit) : Option Sys :=
  match s.disk with
  | .stored _ =>
    let s := { s with disk := .stored next, transition := some (.saved leaving next result) }
    some (if leaving then s.note (.released next.deploymentId next.fencingToken) else s)
  | _ => none

def Sys.updateOperation (s : Sys) (id : Nat) (change : Operation → Operation) : Sys :=
  { s with operations := s.operations.map fun op => if op.id = id then change op else op }

def Sys.holds (s : Sys) (id : Nat) : Bool := s.operations.any fun op => op.id == id && op.admission

def step (s : Sys) : Action → Option Sys
  | .takeAdmission =>
    match s.gate.takeAdmission with
    | .error _ => some s
    | .ok gate =>
      some ({ s with
        gate := gate
        operations := ⟨s.accepted, true, none⟩ :: s.operations
        accepted := s.accepted + 1 }.note .admitted)
  | .dropAdmission id =>
    if s.holds id then
      some { s.updateOperation id fun op => { op with admission := false } with
        gate := { s.gate with pending := s.gate.pending - 1 } }
    else none
  | .flagPort id port =>
    -- Controls and commands flag their port under the admission they hold.
    if s.holds id then some (s.updateOperation id fun op => { op with port := some port }) else none
  | .clearPort id => some (s.updateOperation id fun op => { op with port := none })
  | .enter deployment token =>
    if s.transition.isSome then none
    else some (s.decide false deployment token (s.gate.enter deployment token))
  | .leave deployment token =>
    if s.transition.isSome then none
    else
      some (s.decide true deployment token
        (s.gate.leave deployment token s.pendingPortOperations))
  | .save outcome =>
    match s.transition, outcome with
    | some (.saving leaving next), .committed => s.commit leaving next (.ok ())
    | some (.saving leaving next), .failed true e => s.commit leaving next (.error e)
    | some (.saving leaving next), .failed false e =>
      some { s with transition := some (.saved leaving next (.error e)) }
    | _, _ => none
  | .settle =>
    match s.transition with
    | some (.saved leaving next result) =>
      let s' := { s with gate := s.gate.settle next result, transition := none }
      some (if result.isOk && !leaving then s'.note (.entered next.deploymentId next.fencingToken)
        else s')
    | _ => none
  | .restart outcome =>
    (openGate (initialRecord s.gateway) s.disk outcome).map fun x =>
      { s with disk := x.1, gate := x.2, transition := none, operations := [] }

/-- A gateway before its first start, which is a `restart` without a file. -/
def Sys.initial (gateway : String) : Sys where
  gateway := gateway
  disk := .missing
  gate := ⟨initialRecord gateway, 0, false, ""⟩
  transition := none
  operations := []
  accepted := 0
  log := []

end RcdServer.Operations.Maintenance
