import Mathlib.Algebra.GroupWithZero.Nat
import Mathlib.Data.List.Basic
import RcdServer.Lib.Text

/-!
# Data of the process agent

The records of `domain/process_control.go` and of the package `processagent` with their checks. A
fencing token is a decimal text in the source; here it is its number, or `none` for a text that is
empty or no such number. A revision is the pair that `bumpLocked` prints, so a text of another form
never is the current one. Times count from one. Fields that no modelled function reads are left
out: paths and limits of the configuration, the agent's own build identity, the uptime and the
address of a job.
-/
namespace RcdServer.Agent

open Lib.Text

/-! ## Identifiers -/

def isIdentifierChar (c : Char) : Bool :=
  isAsciiAlphabetic c || isAsciiDigit c || c == '-' || c == '_' || c == '.'

def textBytes (s : String) : Nat := (s.toList.map Char.utf8Size).sum

def validOperationRevision (value : String) : Bool :=
  value ≠ "" && textBytes value ≤ 128 && value.toList.all fun c => isIdentifierChar c || c == ':'

/-- `maintenanceID`. -/
def maintenanceId (value : String) : Bool :=
  value ≠ "" && textBytes value ≤ 128 && value.toList.all isIdentifierChar

def blank (value : String) : Bool := trim value = ""

/-- An initiator or actor: not blank and at most 128 bytes. -/
def validActor (value : String) : Bool := !blank value && textBytes value ≤ 128

/-- `newID`: sixteen random bytes in hexadecimal digits. -/
def isNewId (value : String) : Bool :=
  value.toList.length == 32 &&
    value.toList.all fun c => isAsciiDigit c || decide ('a' ≤ c ∧ c ≤ 'f')

structure Revision where
  bootId : String
  counter : Nat
  deriving DecidableEq

/-! ## Requests -/

inductive Action where
  | start
  | stop
  | restart
  deriving DecidableEq

/-- `stop` and `restart` end the running process. -/
def Action.stops : Action → Bool
  | .start => false
  | .stop | .restart => true

inductive ProcessState where
  | stopped
  | starting
  | running
  | stopping
  | failed
  deriving DecidableEq

inductive Desired where
  | running
  | stopped
  deriving DecidableEq

/-- The process state that confirms the desired one. -/
def Desired.state : Desired → ProcessState
  | .running => .running
  | .stopped => .stopped

def Action.desired : Action → Desired
  | .stop => .stopped
  | .start | .restart => .running

structure Request where
  configurationGuard : String
  lifecycle : Bool
  managerInstanceId : String
  actor : String
  gatewayInstanceId : String
  requestId : String
  instanceId : String
  action : Action
  expectedRevision : Revision
  deploymentId : String
  fencingToken : Option Nat
  deriving DecidableEq

/-- A process action under a maintenance token. -/
def Request.owned (r : Request) : Bool := r.deploymentId ≠ "" || r.fencingToken.isSome

/-- `Validate` of a request; `parsesGuard` says that a configuration guard is canonical JSON of
file revisions. -/
def Request.validate (parsesGuard : String → Bool) (r : Request) : Bool :=
  (r.configurationGuard = "" ||
      (r.lifecycle && r.action == .restart && parsesGuard r.configurationGuard)) &&
    (if r.lifecycle then
      validOperationRevision r.managerInstanceId && validOperationRevision r.gatewayInstanceId &&
        validActor r.actor && !r.actor.toList.any isControl && !r.owned
    else r.managerInstanceId = "" && r.actor = "" && r.gatewayInstanceId = "") &&
    validOperationRevision r.requestId && r.requestId ≠ "." && r.requestId ≠ ".." &&
    validOperationRevision r.instanceId &&
    (!r.owned || (validOperationRevision r.deploymentId &&
      r.fencingToken.any fun token => 0 < token && token < 2 ^ 64))

/-! ## Maintenance -/

structure LowerFence where
  schemaVersion : Nat
  gatewayInstanceId : String
  deploymentId : String
  fencingToken : Option Nat
  active : Bool
  admissionBlocked : Bool
  durable : Bool
  pendingAdmissions : Nat
  pendingPortOperations : Nat
  drained : Bool
  error : String
  bootId : String
  deriving DecidableEq

def LowerFence.validate (gateway : String) (f : LowerFence) : Bool :=
  match f.fencingToken with
  | none => false
  | some token =>
    token < 2 ^ 64 && f.schemaVersion == 1 && f.gatewayInstanceId = gateway &&
      validOperationRevision f.bootId &&
      !(token == 0 && (f.active || f.deploymentId ≠ "")) &&
      !(decide (0 < token) && !maintenanceId f.deploymentId) && textBytes f.error ≤ 16384 &&
      f.admissionBlocked == (f.active || !f.durable) &&
      f.drained == (f.active && f.durable && f.pendingAdmissions == 0 &&
        f.pendingPortOperations == 0)

inductive JobPhase where
  | preparing
  | entering
  | draining
  | ready
  | stopping
  | stopped
  | starting
  | verifying
  | releasing
  | unknown
  | completed
  deriving DecidableEq

/-- A `MaintenanceJob`. -/
structure Job where
  offlineHold : Bool
  deploymentId : String
  instanceId : String
  gatewayInstanceId : String
  endpoint : String
  launchBinding : String
  fencingToken : Option Nat
  targetVersion : String
  initiator : String
  phase : JobPhase
  lowerConfirmed : Bool
  releaseRequested : Bool
  createdAt : Nat
  updatedAt : Nat
  lower : LowerFence
  error : String
  deriving DecidableEq

def sameFence (f : LowerFence) (j : Job) : Bool :=
  f.gatewayInstanceId = j.gatewayInstanceId && f.deploymentId = j.deploymentId &&
    f.fencingToken = j.fencingToken

inductive MaintenanceAction where
  | enter
  | reconcile
  | complete
  | holdStopped
  | releaseStopped
  deriving DecidableEq

structure MaintenanceRequest where
  action : MaintenanceAction
  instanceId : String
  deploymentId : String
  expectedRevision : Revision
  targetVersion : String
  initiator : String
  deriving DecidableEq

/-! ## Lifecycle operations -/

inductive OperationState where
  | accepted
  | running
  | succeeded
  | failed
  | unknown
  deriving DecidableEq

def OperationState.terminal : OperationState → Bool
  | .succeeded | .failed => true
  | .accepted | .running | .unknown => false

inductive LifecyclePhase where
  | accepted
  | entering
  | draining
  | checkingConfiguration
  | stopping
  | starting
  | verifying
  | releasing
  | completed
  | manualStopped
  | configurationRejected
  | unknown
  deriving DecidableEq

/-- `lifecycleState`. -/
structure Lifecycle where
  requestId : String
  managerInstanceId : String
  actor : String
  action : Action
  phase : LifecyclePhase
  state : OperationState
  error : String
  fenceId : String
  deriving DecidableEq

/-! ## Snapshots and operations -/

structure Snapshot where
  revision : Revision
  state : ProcessState
  desired : Desired
  pid : Nat
  startedAt : Option Nat
  exitCode : Option Int
  lastError : String
  pendingRequestId : Option String
  restartCount : Nat
  lastExitAt : Option Nat
  lastStopForced : Bool
  deriving DecidableEq

/-- A snapshot with what `snapshotLocked` adds to it. -/
structure View where
  snapshot : Snapshot
  lifecycle : Option Lifecycle
  manualStopped : Bool
  maintenanceEnabled : Bool
  maintenance : Option (String × JobPhase)
  deriving DecidableEq

/-- `savedOperation`. Identity and action of an operation are those of its request. -/
structure Operation where
  request : Request
  state : OperationState
  createdAt : Nat
  updatedAt : Nat
  errorCode : String
  error : String
  forced : Bool
  snapshot : Option View
  deriving DecidableEq

/-- `ProcessSnapshot.Validate`, as far as the agent's own states are concerned. -/
def View.validate (v : View) : Bool :=
  (v.lifecycle.all fun l => validOperationRevision l.requestId &&
      validOperationRevision l.managerInstanceId && validActor l.actor &&
      textBytes l.error ≤ 16384) &&
    !(v.snapshot.state == .running && v.snapshot.pid ≤ 1) &&
    v.snapshot.pendingRequestId.all validOperationRevision &&
    textBytes v.snapshot.lastError ≤ 16384 &&
    v.maintenance.all fun m => validOperationRevision m.1 && v.maintenanceEnabled

/-- `ProcessOperation.Validate` for its own request. -/
def Operation.validate (o : Operation) : Bool :=
  o.createdAt ≠ 0 && o.updatedAt ≠ 0 && o.createdAt ≤ o.updatedAt && textBytes o.error ≤ 16384 &&
    textBytes o.errorCode ≤ 128 && o.snapshot.all View.validate &&
    (o.state != .succeeded || o.snapshot.any fun v =>
      v.snapshot.state == o.request.action.desired.state &&
        v.snapshot.desired == o.request.action.desired)

/-! ## The state file -/

structure Durable where
  schemaVersion : Nat
  counter : Nat
  desired : Desired
  restartCount : Nat
  operations : List Operation
  lastSnapshot : Snapshot
  maintenance : Option Job
  lifecycle : Option Lifecycle
  deferredFence : Option Job
  deriving DecidableEq

/-- What a normalized configuration fixes. `endpoint` is empty without a maintenance peer,
`parsesGuard` stands for `ParseConfigurationGuard`, `fenceDigest` for the hexadecimal SHA-256 of a
manager and a request, `stateBytes` for the size of the JSON text of a state, and `hostRelease`
says that a host release directory is configured. -/
structure Config where
  instanceId : String
  gatewayInstanceId : String
  endpoint : String
  launchBinding : String
  hostRelease : Bool
  onFailure : Bool
  autoStart : Bool
  parsesGuard : String → Bool
  fenceDigest : String → String → String
  stateBytes : Durable → Nat
  instanceId_valid : validOperationRevision instanceId = true
  gateway_valid : endpoint ≠ "" → validOperationRevision gatewayInstanceId = true
  hostRelease_endpoint : hostRelease = true → endpoint ≠ ""
  fenceDigest_valid : ∀ manager request,
    maintenanceId ("routine." ++ fenceDigest manager request) = true

/-- An error text of the operating system: at most two path names and a message. -/
structure OsError where
  text : String
  bounded : textBytes text ≤ 12288
  deriving DecidableEq

/-- How `persistLocked` ends: `lost` is an error before the rename, `unsure` one after it. -/
inductive Save where
  | saved
  | lost (e : OsError)
  | unsure (e : OsError)
  deriving DecidableEq

def Save.error : Save → Option String
  | .saved => none
  | .lost e | .unsure e => some e.text

def Save.ok (save : Save) : Bool := save.error.isNone

theorem Save.eq_saved {save : Save} (h : save.ok = true) : save = .saved := by
  cases save with
  | saved => rfl
  | lost e => cases h
  | unsure e => cases h

end RcdServer.Agent
