import RcdServer.Agent.Types

/-!
# The supervisor

The state of one agent with its state file, and the critical sections of `supervisor.go`,
`lifecycle.go`, `maintenance.go` and `maintenance_stopped.go` as functions on it. The worker is one
goroutine; where it stands between two sections is part of the state. At most one maintenance call
holds `maintenanceMu`, and at most one reconciliation the lock of the host. A section that would
dereference a missing maintenance job panics with the mutex held, so nothing follows it.
-/
namespace RcdServer.Agent

/-! ## Where the worker stands -/

/-- `stopOwned`: before its first section, before the signal, and waiting for the exit. -/
inductive StopStage where
  | begin
  | signal
  | waiting
  deriving DecidableEq

/-- `stopOwnedGracefully`: before and after the signal. -/
inductive GracefulStage where
  | begin
  | waiting
  deriving DecidableEq

/-- `startOwned`: before its first section, before the process is created, and waiting for it to
get ready. -/
inductive StartStage where
  | begin
  | spawn
  | waiting
  deriving DecidableEq

inductive Drain where
  | beforeStop
  | beforeRelease
  deriving DecidableEq

/-- The calls of `MaintenanceAction` that a lifecycle operation makes; `giveUp` releases the fence
after the configuration was rejected. -/
inductive LifecycleCall where
  | enter
  | reconcile (drain : Drain)
  | giveUp (cause : String)
  | release
  deriving DecidableEq

def LifecycleCall.action : LifecycleCall → MaintenanceAction
  | .enter => .enter
  | .reconcile _ => .reconcile
  | .giveUp _ | .release => .complete

/-- The places where `lifecycleRun` records a phase. -/
inductive PhasePoint where
  | entering
  | draining (drain : Drain)
  | checking
  | stopping
  | starting
  | verifying
  | releasing
  deriving DecidableEq

def PhasePoint.phase : PhasePoint → LifecyclePhase
  | .entering => .entering
  | .draining _ => .draining
  | .checking => .checkingConfiguration
  | .stopping => .stopping
  | .starting => .starting
  | .verifying => .verifying
  | .releasing => .releasing

/-- How `lifecycleRun` returned; `rejected` is a `lifecyclePreconditionError`. -/
inductive LifecycleResult where
  | ok
  | rejected (error : String)
  | unknown (error : String)
  deriving DecidableEq

/-- Where `lifecycleRun` stands outside of the routines that stop and start the process. -/
inductive LifecycleStage where
  | begin
  | phase (point : PhasePoint)
  | request (call : LifecycleCall)
  | call (call : LifecycleCall) (req : MaintenanceRequest)
  | waiting (call : LifecycleCall)
  | drainCheck (drain : Drain)
  | validate
  | stopped
  | desire
  | read
  | compare (active : Bool)
  | released
  | ended (result : LifecycleResult)
  deriving DecidableEq

/-- Who has called `startOwned`. -/
inductive StartFor where
  | perform (req : Request) (forced : Bool)
  | lifecycle (req : Request)
  deriving DecidableEq

/-- Who has called `stopOwned`. -/
inductive StopFor where
  | perform (req : Request)
  | cleanup (cause : String) (caller : StartFor)
  | shutdown
  deriving DecidableEq

/-- Who has called `stopOwnedGracefully`. -/
inductive GracefulFor where
  | lifecycle (req : Request)
  | cleanup (cause : String) (caller : StartFor)
  deriving DecidableEq

/-- The worker: between two jobs, before the first section of `perform`, in one of the routines, in
`cleanupFailedStart`, before `finish`, in a lifecycle operation, and at the end of `loop`. -/
inductive Worker where
  | idle
  | perform (req : Request)
  | stop (stage : StopStage) (caller : StopFor)
  | graceful (stage : GracefulStage) (caller : GracefulFor)
  | count (req : Request) (forced : Bool)
  | start (stage : StartStage) (caller : StartFor)
  | cleanup (cause : String) (caller : StartFor)
  | finish (req : Request) (forced : Bool) (error : Option String)
  | lifecycle (req : Request) (stage : LifecycleStage)
  | closing (error : Option String)
  | done
  deriving DecidableEq

def StartFor.request : StartFor → Request
  | .perform req _ | .lifecycle req => req

def StopFor.request : StopFor → Option Request
  | .perform req => some req
  | .cleanup _ caller => some caller.request
  | .shutdown => none

def GracefulFor.request : GracefulFor → Request
  | .lifecycle req => req
  | .cleanup _ caller => caller.request

/-- The request whose side effects the worker is at. -/
def Worker.request : Worker → Option Request
  | .perform req | .count req _ | .finish req _ _ | .lifecycle req _ => some req
  | .stop _ caller => caller.request
  | .graceful _ caller => some caller.request
  | .start _ caller | .cleanup _ caller => some caller.request
  | .idle | .closing _ | .done => none

/-- The worker after `startOwned` returned. -/
def StartFor.returned (error : Option String) : StartFor → Worker
  | .perform req forced => .finish req forced error
  | .lifecycle req =>
    match error with
    | none => .lifecycle req (.phase .verifying)
    | some e => .lifecycle req (.ended (.unknown e))

/-- The worker after `stopOwned` returned. -/
def StopFor.returned (forced : Bool) (error : Option String) : StopFor → Worker
  | .perform req =>
    if error = none ∧ req.action = .restart then .count req forced else .finish req forced error
  | .cleanup cause caller => caller.returned (some cause)
  | .shutdown => .closing error

/-- The worker after `stopOwnedGracefully` returned. -/
def GracefulFor.returned (error : Option String) : GracefulFor → Worker
  | .lifecycle req =>
    match error with
    | none => .lifecycle req (if req.action = .stop then .stopped else .phase .starting)
    | some e => .lifecycle req (.ended (.unknown e))
  | .cleanup cause caller => caller.returned (some cause)

/-! ## Calls under way -/

/-- Where a call that holds `maintenanceMu` stands: before a reading of the lower, in a change of
its fence for the lower boot it names, before the sections that record contradictory evidence or an
unknown outcome, or, for a process action under a token, before its reading or its submission. -/
inductive CallStage where
  | read (action : MaintenanceAction)
  | enter (lowerBoot : String)
  | leave (lowerBoot : String)
  | reread
  | evidence (cause : String)
  | unknown (cause : String)
  | processRead (req : Request)
  | processSubmit (req : Request)
  deriving DecidableEq

/-- `current` is the copy of the job that the call works with. -/
structure Call where
  worker : Bool
  current : Job
  stage : CallStage
  deriving DecidableEq

/-- A reconciliation of a lifecycle operation between its two sections. -/
structure Resolving where
  req : Request
  stopConfirmed : Bool
  running : Bool
  job : Option Job
  deriving DecidableEq

/-! ## The state -/

structure Child where
  pid : Nat
  exit : Option Int
  deriving DecidableEq

/-- What has happened to requests: their side effects began, or a tombstone was stored. -/
inductive Happened where
  | performed (req : Request)
  | tombstoned (req : Request)
  deriving DecidableEq

def Happened.request : Happened → Request
  | .performed req | .tombstoned req => req

/-- `disk` are the contents that the state file may have after a crash, the latest first; `none` is
a missing file. `retryAt` says that a retry is scheduled. Three fields are history: `log` are the
requests that were performed or tombstoned, the latest first; `bootIds` are the boot identifiers
used so far; `drainedFor` is the owner whose fence was received durable, active and drained, with no
release requested since. -/
structure Supervisor where
  disk : List (Option Durable)
  now : Nat
  bootIds : List String
  log : List Happened
  up : Bool
  schemaVersion : Nat
  counter : Nat
  desired : Desired
  restartCount : Nat
  operations : List Operation
  maintenance : Option Job
  lifecycle : Option Lifecycle
  deferredFence : Option Job
  snapshot : Snapshot
  bootId : String
  child : Option Child
  jobs : Option Request
  worker : Worker
  closing : Bool
  storageErr : Bool
  retryAt : Bool
  lifecycleLock : Bool
  resolving : Option Resolving
  call : Option Call
  drainedFor : Option (String × Option Nat)

namespace Supervisor

def durable (s : Supervisor) : Durable :=
  ⟨s.schemaVersion, s.counter, s.desired, s.restartCount, s.operations, s.snapshot, s.maintenance,
    s.lifecycle, s.deferredFence⟩

/-- `bumpLocked`. No run exhausts the counter. -/
def bump (s : Supervisor) : Supervisor :=
  { s with
    counter := s.counter + 1
    snapshot := { s.snapshot with
      revision := ⟨s.bootId, s.counter + 1⟩
      desired := s.desired
      restartCount := s.restartCount } }

/-- The contents of the state file that a save leaves possible. -/
def written (s : Supervisor) : Save → List (Option Durable)
  | .saved => [some s.durable]
  | .lost _ => s.disk
  | .unsure _ => some s.durable :: s.disk

/-- `persistLocked`. -/
def persist (s : Supervisor) (save : Save) : Supervisor :=
  { s with
    disk := s.written save
    storageErr := s.storageErr || !save.ok
    snapshot := { s.snapshot with
      lastError := match save.error with
        | none => s.snapshot.lastError
        | some e => "守护状态保存失败，已禁止新的进程操作: " ++ e } }

def maintenanceActive (s : Supervisor) : Bool := s.maintenance.any fun j => j.phase != .completed

def lifecycleActive (s : Supervisor) : Bool := s.lifecycle.any fun j => !j.state.terminal

def ownsLifecycleMaintenance (s : Supervisor) (id : String) : Bool :=
  s.lifecycle.any fun j => !j.state.terminal && j.fenceId = id &&
    s.snapshot.pendingRequestId = some j.requestId

/-- `snapshotLocked`. -/
def view (cfg : Config) (s : Supervisor) : View where
  snapshot := s.snapshot
  lifecycle := s.lifecycle
  manualStopped :=
    (s.deferredFence.isSome || s.lifecycle.any (·.phase == .manualStopped)) &&
      s.desired == .stopped && !s.lifecycleActive
  maintenanceEnabled := cfg.endpoint ≠ "" || s.maintenanceActive
  maintenance :=
    if s.maintenanceActive then s.maintenance.map fun j => (j.deploymentId, j.phase) else none

/-! ## The journal -/

def retainedOperations : Nat := 256

def find (s : Supervisor) (id : String) : Option Operation :=
  s.operations.reverse.find? fun o => o.request.requestId = id

/-- The entry of a request is changed in place; request identifiers are unique. -/
def update (s : Supervisor) (id : String) (change : Operation → Operation) : Supervisor :=
  { s with operations := s.operations.map fun o =>
      if o.request.requestId = id then change o else o }

def evictable (s : Supervisor) (o : Operation) : Bool :=
  o.state.terminal && s.lifecycle.all fun j => j.requestId ≠ o.request.requestId

/-- A full journal gives up its oldest evictable entry. -/
def evicted (s : Supervisor) : List Operation :=
  if s.operations.length = retainedOperations then s.operations.eraseP s.evictable
  else s.operations

/-- `addLocked`. -/
def add (s : Supervisor) (req : Request) (state : OperationState) : Supervisor :=
  { s with operations := s.evicted ++ [⟨req, state, s.now, s.now, "", "", false, none⟩] }

/-- The current view is frozen into the entry of a request. -/
def freeze (cfg : Config) (s : Supervisor) (id : String) : Supervisor :=
  s.update id fun o => { o with snapshot := some (s.view cfg) }

end Supervisor

/-! ## Error texts -/

/-- A text cut to at most so many bytes. -/
def cutText : Nat → List Char → List Char
  | _, [] => []
  | n, c :: cs => if c.utf8Size ≤ n then c :: cutText (n - c.utf8Size) cs else []

def boundedError (text : String) : String :=
  if textBytes text ≤ 8192 then text else String.ofList (cutText 8192 text.toList ++ ['…'])

inductive ErrorCode where
  | invalidRequest
  | notFound
  | conflict
  | busy
  | unsupported
  | operationFailed
  | persistenceFailed
  deriving DecidableEq

def ErrorCode.text : ErrorCode → String
  | .invalidRequest => "invalid_request"
  | .notFound => "not_found"
  | .conflict => "conflict"
  | .busy => "busy"
  | .unsupported => "unsupported"
  | .operationFailed => "operation_failed"
  | .persistenceFailed => "persistence_failed"

/-- An `OperationError`. -/
structure Refusal where
  code : ErrorCode
  message : String
  deriving DecidableEq

/-- `Error` of an `OperationError`. -/
def Refusal.text (r : Refusal) : String := r.code.text ++ ": " ++ r.message

namespace Supervisor

/-! ## Process actions -/

/-- `maintenanceProcessAllowedLocked`. -/
def processAllowed (cfg : Config) (s : Supervisor) (req : Request) (owner : Bool) :
    Except Refusal Unit :=
  if s.lifecycleActive then .error ⟨.busy, "安全运维作业尚未结束"⟩
  else if s.deferredFence.isSome ∧ owner = false then
    .error ⟨.busy, "人为停止保留的维护身份须通过安全生命周期启动"⟩
  else if s.maintenanceActive then
    if owner = false ∨ s.maintenance.any (fun job => req.deploymentId ≠ job.deploymentId ||
        req.fencingToken ≠ job.fencingToken || !job.lowerConfirmed || job.releaseRequested) then
      .error ⟨.busy, "下级处于维护状态；进程操作必须使用当前维护作业及令牌"⟩
    else .ok ()
  else if req.owned then .error ⟨.conflict, "维护作业已经结束或不存在"⟩
  else if cfg.endpoint ≠ "" ∧ req.action ≠ .start then
    .error ⟨.busy, "先登记维护作业并确认下级排空，再停止或重启"⟩
  else .ok ()

/-- The maintenance job that owns an admitted action follows it. -/
def followed (s : Supervisor) (req : Request) (owner : Bool) : Option Job :=
  s.maintenance.map fun j =>
    if owner then
      { j with phase := if req.action.stops then .stopping else .starting, updatedAt := s.now }
    else j

/-- An admitted action before its registration is stored. -/
def register (cfg : Config) (s : Supervisor) (req : Request) (owner : Bool) : Supervisor :=
  { s.add req .accepted with
    maintenance := s.followed req owner
    desired := req.action.desired
    snapshot := { s.snapshot with pendingRequestId := some req.requestId }
    retryAt := false }.bump.freeze cfg req.requestId

/-- A registration whose rename never happened: the former desired state and snapshot are back. -/
def unregistered (cfg : Config) (before s : Supervisor) (req : Request) : Supervisor :=
  let s := { s with
    desired := before.desired
    snapshot := { before.snapshot with lastError := s.snapshot.lastError } }.bump
  s.update req.requestId fun o => { o with
    state := .failed
    errorCode := "persistence_failed"
    error := "作业登记失败，未派发进程操作；请核对守护存储"
    snapshot := some (s.view cfg) }

/-- The registration is stored and handed to the worker. -/
def registered (cfg : Config) (before s : Supervisor) (req : Request) (save : Save) : Supervisor :=
  match save with
  | .saved => { s.persist .saved with jobs := some req }
  | .unsure e => (s.persist (.unsure e)).update req.requestId fun o => { o with
      state := .unknown
      errorCode := "persistence_failed"
      error := "作业登记的持久化未确认，未派发进程操作；请核对守护状态，不能重复提交" }
  | .lost e => unregistered cfg before (s.persist (.lost e)) req

/-- What `submit` checks of a new request. -/
def admissible (cfg : Config) (s : Supervisor) (req : Request) (owner : Bool) :
    Except Refusal Unit :=
  if s.closing || s.storageErr then
    .error ⟨.operationFailed, "守护正在关闭或持久化故障，不能接收操作"⟩
  else
    match s.processAllowed cfg req owner with
    | .error e => .error e
    | .ok () =>
      if req.expectedRevision ≠ s.snapshot.revision then
        .error ⟨.conflict, "进程状态版本已变化，请刷新后确认"⟩
      else if s.snapshot.pendingRequestId.isSome then
        .error ⟨.busy, "该下级已有进行中的进程操作"⟩
      else .ok ()

/-- `submit`; a request that is in the journal is only read. -/
def submit (cfg : Config) (s : Supervisor) (req : Request) (owner : Bool) (save : Save) :
    Except Refusal Supervisor :=
  if req.instanceId ≠ cfg.instanceId then .error ⟨.notFound, "守护实例标识不匹配"⟩
  else
    match s.find req.requestId with
    | some item =>
      if item.request ≠ req then .error ⟨.conflict, "同一作业编号不能用于不同操作"⟩ else .ok s
    | none =>
      match s.admissible cfg req owner with
      | .error e => .error e
      | .ok () => .ok (registered cfg s (s.register cfg req owner) req save)

/-- What `submitMaintenanceProcess` checks of a new request. -/
def tokenHeld (cfg : Config) (s : Supervisor) (req : Request) : Except Refusal Job :=
  if s.closing || s.storageErr then .error ⟨.operationFailed, "守护关闭中或存储不可写"⟩
  else if req.expectedRevision ≠ s.snapshot.revision then
    .error ⟨.conflict, "进程状态版本已变化"⟩
  else if s.snapshot.pendingRequestId.isSome then .error ⟨.busy, "已有进行中的进程操作"⟩
  else
    match s.maintenance with
    | none => .error ⟨.conflict, "进程操作未持有已确认的维护令牌"⟩
    | some job =>
      if job.phase = .completed ∨ job.deploymentId ≠ req.deploymentId ∨
          job.fencingToken ≠ req.fencingToken ∨ job.lowerConfirmed = false ∨
          job.releaseRequested = true ∨ cfg.endpoint = "" then
        .error ⟨.conflict, "进程操作未持有已确认的维护令牌"⟩
      else .ok job

/-- The first section of `submitMaintenanceProcess`. A start is submitted without a reading. -/
def submitOwned (cfg : Config) (s : Supervisor) (req : Request) : Except Refusal Supervisor :=
  if s.call.isSome then .error ⟨.busy, "维护握手正在执行"⟩
  else if req.instanceId ≠ cfg.instanceId then .error ⟨.notFound, "守护实例标识不匹配"⟩
  else
    match s.find req.requestId with
    | some item =>
      if item.request ≠ req then .error ⟨.conflict, "同一作业编号不能用于不同操作"⟩ else .ok s
    | none =>
      match s.tokenHeld cfg req with
      | .error e => .error e
      | .ok job => .ok { s with call := some ⟨false, job,
          if req.action.stops then .processRead req else .processSubmit req⟩ }

/-- The state with a tombstone before it is stored. -/
def buried (cfg : Config) (s : Supervisor) (req : Request) : Supervisor :=
  ({ s.add req .failed with
    schemaVersion := if req.lifecycle then 4 else s.schemaVersion }.update req.requestId fun o =>
      { o with
        errorCode := "unconfirmed_cancelled"
        error := "未找到本次作业登记，已封存该编号以阻止迟到执行；请核对当前进程状态" }).bump.freeze
    cfg req.requestId

/-- `resolveRecorded`: an unknown request gets a tombstone, and the revision moves on. -/
def resolveRecorded (cfg : Config) (s : Supervisor) (req : Request) (save : Save) :
    Except Refusal Supervisor :=
  if req.instanceId ≠ cfg.instanceId ∨
      (req.lifecycle = true ∧ req.gatewayInstanceId ≠ cfg.gatewayInstanceId) then
    .error ⟨.notFound, "守护实例标识不匹配"⟩
  else
    match s.find req.requestId with
    | some item =>
      if item.request ≠ req then .error ⟨.conflict, "作业编号与原始请求不匹配"⟩ else .ok s
    | none =>
      if s.closing || s.storageErr then
        .error ⟨.operationFailed, "守护不可写，暂时不能封存未确认作业"⟩
      else .ok { (s.buried cfg req).persist save with
        log := if save.ok then .tombstoned req :: s.log else s.log }

/-! ## The owned process -/

/-- `recordExitLocked` on the owned process. -/
def recordExit (s : Supervisor) : Supervisor :=
  { s with
    child := none
    snapshot := match s.child with
      | none => s.snapshot
      | some c => { s.snapshot with
          pid := 0
          startedAt := none
          exitCode := some (c.exit.getD 0)
          lastExitAt := some s.now } }

def setState (s : Supervisor) (state : ProcessState) : Supervisor :=
  { s with snapshot := { s.snapshot with state := state } }

/-- The owned process has exited and nobody has recorded it yet. -/
def exited (s : Supervisor) : Bool := s.child.any fun c => c.exit.isSome

/-- The owned process runs. -/
def alive (s : Supervisor) : Bool := s.child.any fun c => c.exit.isNone

/-- The first section of `perform`. -/
def performBegin (s : Supervisor) (req : Request) (save : Save) : Supervisor :=
  { (s.update req.requestId fun o => { o with state := .running, updatedAt := s.now }) with
    snapshot := { s.snapshot with
      state := if req.action.stops then .stopping else .starting
      lastError := ""
      lastStopForced := false }
    worker :=
      match save.error with
      | some e => .finish req false (some e)
      | none => if req.action.stops then .stop .begin (.perform req)
        else .start .begin (.perform req false) }.bump.persist save

/-- `maintenanceProcessFinishedLocked`. -/
def processFinished (s : Supervisor) (req : Request) (error : Option String) : Option Job :=
  s.maintenance.map fun j =>
    if req.deploymentId = "" ∨ j.phase = .completed then j
    else { j with
      updatedAt := s.now
      phase :=
        if error.isSome then .unknown else if req.action = .stop then .stopped else .verifying
      error := (error.map boundedError).getD j.error }

/-- `finish` before its result is stored. -/
def finished (cfg : Config) (s : Supervisor) (req : Request) (forced : Bool)
    (error : Option String) : Supervisor :=
  { (s.update req.requestId fun o => { o with
      updatedAt := s.now
      forced := forced || s.snapshot.lastStopForced
      state := if error.isSome then .failed else .succeeded
      errorCode := if error.isSome then "operation_failed" else o.errorCode
      error := (error.map boundedError).getD o.error }) with
    maintenance := s.processFinished req error
    snapshot := { s.snapshot with
      pendingRequestId := none
      lastStopForced := forced || s.snapshot.lastStopForced
      state := if error.isSome then .failed else req.action.desired.state
      lastError := (error.map boundedError).getD s.snapshot.lastError }
    retryAt := s.retryAt ||
      (error.isSome && cfg.onFailure && s.desired == Desired.running && !s.maintenanceActive)
    worker := .idle }.bump.freeze cfg req.requestId

/-- `finish`. -/
def finish (cfg : Config) (s : Supervisor) (req : Request) (forced : Bool) (error : Option String)
    (save : Save) : Supervisor :=
  ((s.finished cfg req forced error).persist save).update req.requestId fun o =>
    if save.ok then o
    else { o with
      state := .unknown
      errorCode := "persistence_failed"
      error := "进程操作已执行，但结果保存失败；请核对进程与守护存储" }

/-- The first section of `stopOwned`: without a running process there is nothing to do. -/
def stopBegin (s : Supervisor) (caller : StopFor) (save : Save) : Supervisor :=
  if s.alive then
    { s.setState .stopping with worker := .stop .signal caller }.bump.persist save
  else { s.recordExit.setState .stopped with worker := caller.returned false none }

/-- The last section of `stopOwned`. -/
def stopEnd (s : Supervisor) (caller : StopFor) (forced : Bool) : Supervisor :=
  { s.recordExit with
    snapshot := { s.recordExit.snapshot with state := .stopped, lastStopForced := forced }
    worker := caller.returned forced none }

/-- The first section of `startOwned`. -/
def startBegin (s : Supervisor) (caller : StartFor) (save : Save) : Supervisor :=
  if s.closing then { s with worker := caller.returned (some "context canceled") }
  else if s.alive then { s.setState .running with worker := caller.returned none }
  else { s.recordExit.setState .starting with
    worker := match save.error with
      | some e => caller.returned (some e)
      | none => .start .spawn caller }.bump.persist save

/-- The process is created and entered. -/
def spawn (s : Supervisor) (caller : StartFor) (pid : Nat) (save : Save) : Supervisor :=
  { s with
    child := some ⟨pid, none⟩
    snapshot := { s.snapshot with pid := pid, startedAt := some s.now, exitCode := none }
    worker := match save.error with
      | some e => .cleanup e caller
      | none => .start .waiting caller }.bump.persist save

/-- The first half of `observeExitAndRetry`: an exit that nobody asked for. -/
def observeExit (cfg : Config) (s : Supervisor) (save : Save) : Supervisor :=
  let code := s.recordExit.snapshot.exitCode.getD 0
  { s.recordExit with
    snapshot := { s.recordExit.snapshot with
      state := .failed
      lastError := "下级进程意外退出，退出码 " ++ toString code ++ "；请查看进程日志" }
    retryAt := s.retryAt || (cfg.onFailure && s.desired == Desired.running && code ≠ 0) }.bump.persist save

/-- A start that the agent itself asks for, after a failure or when it boots. -/
def ownStart (cfg : Config) (s : Supervisor) (id : String) : Request :=
  ⟨"", false, "", "", "", id, cfg.instanceId, .start, s.snapshot.revision, "", none⟩

/-- The second half of `observeExitAndRetry`. -/
def retry (cfg : Config) (s : Supervisor) (id : String) (save : Save) : Supervisor :=
  let req := s.ownStart cfg ("retry." ++ id)
  let s := { s.add req .accepted with
    snapshot := { s.snapshot with pendingRequestId := some req.requestId }
    restartCount := s.restartCount + 1
    retryAt := false }.bump.freeze cfg req.requestId
  { s.persist save with jobs := if save.ok then some req else s.jobs }

/-- Whether the second half runs once the delay is over. -/
def retryDue (s : Supervisor) : Bool :=
  s.retryAt && !s.maintenanceActive && !s.lifecycleActive && s.deferredFence.isNone &&
    s.desired == Desired.running && !s.storageErr

/-- `observeExitAndRetry`; `elapsed` says that the delay of a retry is over. -/
def observeExitAndRetry (cfg : Config) (s : Supervisor) (elapsed : Bool) (id : String)
    (exitSave retrySave : Save) : Supervisor :=
  if s.closing || s.storageErr || s.snapshot.pendingRequestId.isSome then s
  else
    let s := if s.exited then s.observeExit cfg exitSave else s
    if elapsed && s.retryDue then s.retry cfg id retrySave else s

end Supervisor

end RcdServer.Agent
