import RcdServer.Commands.Execution
import RcdServer.Process.Maintenance

/-!
# Commands and process operations of the manager

`writeCommand`, `callCommand`, `executeQueuedWrite`, `startQueuedWrite` and `finishCommand` of
`opc_backend.go` and `command_queue.go`, and the admission of `admitSourceProcess`. Admissions of
both kinds run under the configuration lock. The claim that `writeCommand` makes for its own
command, the dispatch and the finish do not take that lock.

The gate of `dispatchCommand`, `markTracked` or `resetLegacyBaseline`, is the last check before the
send; the send follows under a context that ends before the sweep may end the command, so the two
are one step. The reset of a send value and a synchronization input only reserve a port here.
-/
namespace RcdServer.Commands

open Lib Routes Process

variable {D : Type}

/-- The configuration lock between two calls of its holder. -/
inductive ConfigHolder where
  /-- A command was accepted and is not registered yet. -/
  | accepting (c : PendingCommand) (call : Bool)
  | starting
  /-- The source had no pending command; the operation has not begun. -/
  | admitting (source request : String)
  /-- The operation has begun; its record is not created yet. -/
  | creating (source request : String)
  deriving DecidableEq

/-- A captured `lowerCommandTarget`. -/
structure Target where
  generation : Nat
  epoch : Nat
  baselineSequence : Nat
  deriving DecidableEq

def Target.meta (t : Target) (call : Bool) (dispatch : D) : Meta D :=
  { generation := t.generation, epoch := t.epoch, baselineSequence := t.baselineSequence
    done := if call then some none else none
    queued := if call then none else some dispatch }

structure Runtime (D : Type) where
  commands : Sys D
  maintenance : Maintenance
  releaseActive : Bool
  started : Bool
  config : Option ConfigHolder
  /-- The commands that `executeQueuedWrite` and `callCommand` have not sent yet. -/
  inFlight : List PendingCommand
  /-- The commands that reserve a port for a write of their own. -/
  reservations : List String
  /-- The commands sent to the lower, each with the fence of its source at that moment. -/
  sent : List (PendingCommand × String)

inductive RuntimeAction (D : Type) where
  | restorePending (c : PendingCommand) (now : Time)
  | restoreTracked (id : String)
  | sweepRestored (now maxAge : Time)
  | restoreFence (source request : String)
  | start
  | setRelease (active : Bool)
  /-- Sessions, routes and configurations. -/
  | table (a : Routes.Action)
  | writeCommand (sessionID groupID port nodeID request id : String) (now : Time)
  | callCommand (sessionID groupID port nodeID request id : String) (now : Time)
  | registerAccepted (target : Option Target) (dispatch : D)
  | readyQueued (id : String)
  | claimOwn (source port id : String)
  | startQueuedWrite (source port : String)
  | activate
  | dispatch (id : String) (tracked : Bool) (sequence : Nat)
  /-- The executor returns without sending. -/
  | abandon (id : String)
  | observe (id : String) (terminal : Terminal) (tracked : Bool) (epoch sequence : Nat)
  | arm (id : String)
  | finish (id : String) (state : CommandState)
  | cancelQueued (id : String)
  | commit (now : Time)
  | reserve (checked sessionID groupID port kind nodeID id : String) (now : Time)
  | releaseReservation (id : String) (now : Time)
  | checkProcess (source request : String)
  | abandonProcess
  | beginProcess
  | createProcess (created : Bool)
  | releaseFence (source request : String)
  | endExecution (source request : String)
  | tryReconcile (source request : String)
  | beginMutation (source : String)
  | endMutation (source : String) (lease : Nat)

namespace Runtime

def initial (config : Configuration) : Runtime D where
  commands := .initial config
  maintenance := .initial
  releaseActive := false
  started := false
  config := none
  inFlight := []
  reservations := []
  sent := []

def routeTable (r : Runtime D) : RouteTable := r.commands.routes.table

def reserved (r : Runtime D) : Reservations := r.commands.commands

def fenced (r : Runtime D) (source : String) : Prop := r.maintenance.fence source ≠ ""

/-- A call of the execution service, or of the table. -/
def call (r : Runtime D) (a : Action D) : Option (Runtime D) :=
  (step r.commands a).map fun s => { r with commands := s }

def checkProcessMaintenance (r : Runtime D) (source : String) : Bool :=
  !r.releaseActive && (r.maintenance.check source true).isOk

def checkSourceOperation (r : Runtime D) (source : String) : Bool :=
  !r.releaseActive && (r.maintenance.check source false).isOk

/-- The operations of the table that leave the commands alone. -/
def routing : Routes.Action → Bool
  | .openSession .. | .touchSession .. | .closeSession .. | .selectRoute .. | .setAutomatic ..
  | .setDefault .. | .applyConfiguration .. | .prepareConfiguration .. | .abandonConfiguration
  | .publishConfiguration .. => true
  | _ => false

/-- Accept a command of a source that is not maintained. -/
def accept (r : Runtime D) (source : String) (a : Routes.Action)
    (out : Except RouteError (RouteTable × PendingCommand))
    (accepted : Runtime D → PendingCommand → Runtime D) : Option (Runtime D) :=
  if r.config.isSome || !r.started then none
  else if !r.checkProcessMaintenance source then some r
  else
    match out with
    | .error _ => some r
    | .ok (_, c) => (r.call (.table a)).map fun r => accepted r c

/-- The source that a session has selected for a group. -/
def selected (r : Runtime D) (sessionID groupID : String) : Option String :=
  ((r.routeTable.sessions.lookup sessionID).bind fun s => s.routes.lookup groupID).map (·.sourceID)

def writeCommand (r : Runtime D) (sessionID groupID port nodeID request id : String) (now : Time) :
    Option (Runtime D) :=
  match r.selected sessionID groupID with
  | none => some r
  | some source =>
    r.accept source (.enqueueWrite sessionID groupID port nodeID request id now)
      (r.routeTable.enqueueWrite sessionID groupID port nodeID request id now)
      fun r c => { r with config := some (.accepting c false) }

def callCommand (r : Runtime D) (sessionID groupID port nodeID request id : String) (now : Time) :
    Option (Runtime D) :=
  match r.selected sessionID groupID with
  | none => some r
  | some source =>
    r.accept source (.beginCommand sessionID groupID port "Call" nodeID request id now)
      (r.routeTable.beginCommand sessionID groupID port "Call" nodeID request id now)
      fun r c => { r with config := some (.accepting c true) }

/-- The source checked for a reset may be that of an earlier command. -/
def reserve (r : Runtime D) (checked sessionID groupID port kind nodeID id : String) (now : Time) :
    Option (Runtime D) :=
  r.accept checked (.beginCommand sessionID groupID port kind nodeID "" id now)
    (r.routeTable.beginCommand sessionID groupID port kind nodeID "" id now)
    fun r c => { r with reservations := c.id :: r.reservations }

def registerAccepted (r : Runtime D) (target : Option Target) (dispatch : D) : Option (Runtime D) :=
  match r.config with
  | some (.accepting c call) =>
    match target with
    | none => some { r with config := none }
    | some target =>
      (r.call (.register c.id (target.meta call dispatch))).map fun r =>
        { r with config := none, inFlight := if call then c :: r.inFlight else r.inFlight }
  | _ => none

def unlockStarting (r : Runtime D) : Runtime D :=
  if r.config = some .starting then { r with config := none } else r

def startQueuedWrite (r : Runtime D) (source port : String) : Option (Runtime D) :=
  if r.config.isSome || !r.started then none
  else
    (r.call (.claimQueued source port none)).map fun r =>
      if r.commands.holder.isSome then { r with config := some .starting } else r

def activate (r : Runtime D) : Option (Runtime D) :=
  match r.commands.holder with
  | some (.claiming id) =>
    match r.reserved.activateQueued id with
    | .error _ => (r.call .activate).map unlockStarting
    | .ok (_, c) =>
      (r.call .activate).map fun r => { r.unlockStarting with inFlight := c :: r.inFlight }
  | _ => none

/-- What `markTracked` and `resetLegacyBaseline` return. -/
def gate (r : Runtime D) (id : String) (tracked : Bool) : Bool :=
  match r.commands.dispatch.lookup id with
  | none => false
  | some m => tracked || !(m.tracked || m.armed)

def dispatch (r : Runtime D) (id : String) (tracked : Bool) (sequence : Nat) :
    Option (Runtime D) :=
  match r.inFlight.find? (·.id == id) with
  | none => none
  | some c =>
    (r.call (if tracked then .markTracked id else .resetLegacyBaseline id sequence)).map fun r' =>
      { r' with
        inFlight := r.inFlight.filter (·.id != id)
        sent := if r.gate id tracked then (c, r.maintenance.fence c.sourceID) :: r.sent
          else r.sent }

/-- The checks of `admitSourceProcess` in the section of the lock that goes on to begin. -/
def checkProcess (r : Runtime D) (source request : String) : Option (Runtime D) :=
  if r.config.isSome || !r.started then none
  else if !r.checkSourceOperation source then some r
  else if r.reserved.sourcePendingCount source ≠ 0 then some r
  else some { r with config := some (.admitting source request) }

def beginProcess (r : Runtime D) : Option (Runtime D) :=
  match r.config with
  | some (.admitting source request) =>
    match r.maintenance.beginProcess source request with
    | .error _ => some { r with config := none }
    | .ok m => some { r with maintenance := m, config := some (.creating source request) }
  | _ => none

def createProcess (r : Runtime D) (created : Bool) : Option (Runtime D) :=
  match r.config with
  | some (.creating source request) =>
    if created then some { r with config := none }
    else
      some { r with
        maintenance := (r.maintenance.releaseFence source request).endExecution source request
        config := none }
  | _ => none

def step (r : Runtime D) : RuntimeAction D → Option (Runtime D)
  | .restorePending c now => if r.started then none else r.call (.table (.restorePending c now))
  | .restoreTracked id =>
    if r.started then none else r.call (.register id { tracked := true, armed := true })
  | .sweepRestored now maxAge =>
    if r.started then none else r.call (.table (.sweepExpired now maxAge))
  | .restoreFence source request =>
    if r.started then none
    else
      match r.maintenance.restoreFence source request with
      | .error _ => none
      | .ok m => some { r with maintenance := m }
  | .start => some { r with started := true }
  | .setRelease active => some { r with releaseActive := active }
  | .table a => if routing a then r.call (.table a) else none
  | .writeCommand sessionID groupID port nodeID request id now =>
    r.writeCommand sessionID groupID port nodeID request id now
  | .callCommand sessionID groupID port nodeID request id now =>
    r.callCommand sessionID groupID port nodeID request id now
  | .registerAccepted target dispatch => r.registerAccepted target dispatch
  | .readyQueued id => r.call (.readyQueued id)
  | .claimOwn source port id => r.call (.claimQueued source port (some id))
  | .startQueuedWrite source port => r.startQueuedWrite source port
  | .activate => r.activate
  | .dispatch id tracked sequence => r.dispatch id tracked sequence
  | .abandon id => some { r with inFlight := r.inFlight.filter (·.id != id) }
  | .observe id terminal tracked epoch sequence => r.call (.observe id terminal tracked epoch sequence)
  | .arm id => r.call (.arm id)
  | .finish id state => r.call (.finish id state)
  | .cancelQueued id => r.call (.cancelQueued id)
  | .commit now => r.call (.commit now)
  | .reserve checked sessionID groupID port kind nodeID id now =>
    r.reserve checked sessionID groupID port kind nodeID id now
  | .releaseReservation id now =>
    if id ∈ r.reservations then r.call (.table (.commitCommandFinish id false now)) else none
  | .checkProcess source request => r.checkProcess source request
  | .abandonProcess =>
    match r.config with
    | some (.admitting _ _) => some { r with config := none }
    | _ => none
  | .beginProcess => r.beginProcess
  | .createProcess created => r.createProcess created
  | .releaseFence source request =>
    some { r with maintenance := r.maintenance.releaseFence source request }
  | .endExecution source request =>
    some { r with maintenance := r.maintenance.endExecution source request }
  | .tryReconcile source request =>
    (r.maintenance.tryReconcile source request).map fun m => { r with maintenance := m }
  | .beginMutation source =>
    match r.maintenance.beginMutation source with
    | .error _ => some r
    | .ok (m, _) => some { r with maintenance := m }
  | .endMutation source lease =>
    some { r with maintenance := r.maintenance.endMutation source lease }

end Runtime

end RcdServer.Commands
