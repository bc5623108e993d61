import RcdServer.Lib.Run
import RcdServer.Agent.Lifecycle

/-!
# Runs of the agent

The state file is read back by `load`, and `New` restores a process that should run. The events are
the requests from outside, the sections of a call that holds `maintenanceMu`, the steps of the
worker and what happens to the process, the host and the agent itself; each is one critical section
or one action between two of them, so a run is an interleaving of all of them. A crash comes at any
moment and leaves one of the contents that the state file may have. Random identifiers are new: no
earlier text contains them.
-/
namespace RcdServer.Agent

/-! ## Loading -/

namespace Durable

/-- `validateMaintenanceLoaded` of a stopped lower. -/
def validHold (cfg : Config) (d : Durable) (j : Job) : Bool :=
  (d.schemaVersion == 3 || d.schemaVersion == 4) && maintenanceId j.deploymentId &&
    j.instanceId = cfg.instanceId && maintenanceId j.targetVersion && validActor j.initiator &&
    j.launchBinding = cfg.launchBinding && j.createdAt ≠ 0 && j.createdAt ≤ j.updatedAt &&
    (j.phase == .stopped || j.phase == .completed) &&
    (j.phase == .completed || d.desired == .stopped)

/-- `validateMaintenanceLoaded` of a job with a fence. -/
def validJob (cfg : Config) (j : Job) : Bool :=
  maintenanceId j.deploymentId && j.instanceId = cfg.instanceId && maintenanceId j.targetVersion &&
    validActor j.initiator && j.createdAt ≠ 0 && j.createdAt ≤ j.updatedAt &&
    (j.fencingToken.all fun token => 0 < token && token < 2 ^ 64) &&
    (!j.lowerConfirmed || j.fencingToken.isSome) && (!j.releaseRequested || j.lowerConfirmed) &&
    (j.phase != .completed || j.releaseRequested) && validOperationRevision j.gatewayInstanceId &&
    (!j.lowerConfirmed || (j.lower.validate j.gatewayInstanceId && sameFence j.lower j &&
      j.lower.durable && (j.lower.active || j.releaseRequested))) &&
    (j.phase == .completed || (j.gatewayInstanceId = cfg.gatewayInstanceId &&
      j.endpoint = cfg.endpoint && cfg.endpoint ≠ "" && j.launchBinding = cfg.launchBinding))

def validMaintenance (cfg : Config) (d : Durable) : Bool :=
  (decide (4 ≤ d.schemaVersion) || decide (2 ≤ d.schemaVersion) == d.maintenance.isSome) &&
    d.maintenance.all fun j => if j.offlineHold then d.validHold cfg j else validJob cfg j

/-- The deferred fence of `validateLifecycleLoaded`. -/
def validDeferred (cfg : Config) (d : Durable) (j : Job) : Bool :=
  d.schemaVersion == 4 && j.instanceId = cfg.instanceId &&
    j.gatewayInstanceId = cfg.gatewayInstanceId && j.endpoint = cfg.endpoint &&
    j.launchBinding = cfg.launchBinding && j.lowerConfirmed && j.lower.active && j.lower.drained &&
    sameFence j.lower j && j.lower.validate j.gatewayInstanceId

def find (d : Durable) (id : String) : Option Operation :=
  d.operations.reverse.find? fun o => o.request.requestId = id

/-- The lifecycle operation of `validateLifecycleLoaded`. -/
def validLifecycle (d : Durable) (j : Lifecycle) : Bool :=
  d.schemaVersion == 4 && maintenanceId j.fenceId &&
    (d.find j.requestId).any fun o => o.request.lifecycle &&
      j.managerInstanceId = o.request.managerInstanceId && j.actor = o.request.actor &&
      j.action == o.request.action

/-- The journal that `load` accepts. -/
def validOperations (cfg : Config) (d : Durable) : Bool :=
  d.operations.length ≤ Supervisor.retainedOperations &&
    (d.operations.all fun o => o.request.validate cfg.parsesGuard &&
      o.request.instanceId = cfg.instanceId && o.validate) &&
    decide (d.operations.map fun o => o.request.requestId).Nodup

/-- The checks of `load`, which reads at most eight mebibytes. -/
def loadable (cfg : Config) (d : Durable) : Bool :=
  decide (cfg.stateBytes d ≤ 8 * 2 ^ 20) && decide (1 ≤ d.schemaVersion ∧ d.schemaVersion ≤ 4) &&
    d.validOperations cfg && d.validMaintenance cfg && d.deferredFence.all (d.validDeferred cfg) &&
    d.lifecycle.all d.validLifecycle

end Durable

/-- An operation that was under way is not repeated after a restart. -/
def Operation.restored (now : Nat) (o : Operation) : Operation :=
  if o.state.terminal then o
  else if o.request.lifecycle then { o with
    state := .unknown
    errorCode := "agent_restarted"
    error := "Agent 重启，安全运维结果待确认；未重放原操作"
    updatedAt := now }
  else { o with
    state := .failed
    errorCode := "agent_restarted"
    error := "守护进程重新启动，上次作业未确认；请核对已恢复的进程状态"
    updatedAt := now }

def Job.restored (now : Nat) (j : Job) : Job :=
  if j.offlineHold ∨ j.phase = .completed then j
  else { j with
    phase := .unknown
    error := "agent 已重启；维护仍保留，未自动重做上次进程操作，请按原作业对账"
    updatedAt := now }

def Lifecycle.restored (j : Lifecycle) : Lifecycle :=
  if j.state.terminal then j
  else { j with
    state := .unknown, phase := .unknown, error := "Agent 已重启；未重复执行，请核对原作业" }

def noSnapshot : Snapshot := ⟨⟨"", 0⟩, .stopped, .stopped, 0, none, none, "", none, 0, none, false⟩

/-- What `load` starts from without a file. -/
def firstDurable (cfg : Config) : Durable :=
  ⟨1, 0, if cfg.autoStart then .running else .stopped, 0, [], noSnapshot, none, none, none⟩

namespace Supervisor

/-- A stopped agent: its memory is gone. -/
def halt (s : Supervisor) (disk : List (Option Durable)) : Supervisor where
  disk := disk
  now := s.now
  bootIds := s.bootIds
  log := s.log
  up := false
  schemaVersion := 1
  counter := 0
  desired := .stopped
  restartCount := 0
  operations := []
  maintenance := none
  lifecycle := none
  deferredFence := none
  snapshot := noSnapshot
  bootId := ""
  child := none
  jobs := none
  worker := .done
  closing := false
  storageErr := false
  retryAt := false
  lifecycleLock := false
  resolving := none
  call := none
  drainedFor := none

/-- `load` before its save. -/
def loaded (s : Supervisor) (d : Durable) (bootId : String) : Supervisor :=
  { s.halt s.disk with
    bootIds := bootId :: s.bootIds
    up := true
    schemaVersion := d.schemaVersion
    counter := d.counter
    desired := d.desired
    restartCount := d.restartCount
    operations := d.operations.map (Operation.restored s.now)
    maintenance := d.maintenance.map (Job.restored s.now)
    lifecycle := d.lifecycle.map Lifecycle.restored
    deferredFence := d.deferredFence
    snapshot := { noSnapshot with
      exitCode := d.lastSnapshot.exitCode
      lastExitAt := d.lastSnapshot.lastExitAt
      lastStopForced := d.lastSnapshot.lastStopForced }
    bootId := bootId
    worker := .idle }.bump

/-- Whether `New` restores the process. -/
def restores (s : Supervisor) : Bool :=
  s.desired == .running && !s.maintenanceActive && !s.lifecycleActive && s.deferredFence.isNone

/-- `New` after the file was read: an error stops the agent again. -/
def booted (cfg : Config) (s : Supervisor) (d : Durable) (bootId : String)
    (loadSave startSave : Save) : Supervisor :=
  let t := (s.loaded d bootId).persist loadSave
  if !loadSave.ok then t.halt t.disk
  else if t.restores then
    match t.submit cfg (t.ownStart cfg ("boot." ++ bootId)) false startSave with
    | .error _ => t.halt t.disk
    | .ok u => if startSave.ok then u else u.halt u.disk
  else t

/-- `New`. A file that `load` refuses stays as it is. -/
def boot (cfg : Config) (s : Supervisor) (bootId : String) (loadSave startSave : Save) :
    Supervisor :=
  match s.disk.head?.join with
  | none => s.booted cfg (firstDurable cfg) bootId loadSave startSave
  | some d => if d.loadable cfg then s.booted cfg d bootId loadSave startSave else s

/-- The first start of an agent comes with an empty directory. -/
def initial : Supervisor where
  disk := [none]
  now := 1
  bootIds := []
  log := []
  up := false
  schemaVersion := 1
  counter := 0
  desired := .stopped
  restartCount := 0
  operations := []
  maintenance := none
  lifecycle := none
  deferredFence := none
  snapshot := noSnapshot
  bootId := ""
  child := none
  jobs := none
  worker := .done
  closing := false
  storageErr := false
  retryAt := false
  lifecycleLock := false
  resolving := none
  call := none
  drainedFor := none

end Supervisor

/-! ## Events -/

/-- Requests from outside. -/
inductive Asked where
  | submit (req : Request) (save : Save)
  | submitLifecycle (req : Request) (host : Bool) (save : Save) (marker : Option OsError)
  | resolve (req : Request) (save : Save)
  | resolveBegin (req : Request) (host : Bool)
  | resolveEnd (answer : Except String LowerFence) (save : Save) (marker : Option OsError)
  | maintain (req : MaintenanceRequest) (save : Save)

/-- The sections of the call under way. -/
inductive Calling where
  | reply (answer : Except String LowerFence) (save : Save)
  | evidence
  | unknown (save : Save)
  | submit (save : Save)

/-- The steps of the worker in the routines of the process. -/
inductive Working where
  | takeJob
  | performBegin (save : Save)
  | stopBegin (save : Save)
  | stopSignal (error : Option String)
  | stopEnd (forced : Bool)
  | stopFail (forced : Bool) (cause : String)
  | gracefulSignal (error : Option String)
  | gracefulEnd
  | gracefulFail (cause : String)
  | count
  | startBegin (save : Save)
  | spawn (pid : Nat) (save : Save)
  | spawnFail (cause : String)
  | startReady
  | startExited (cause : String)
  | startCanceled
  | startTimeout (cause : String)
  | cleanup
  | finish (save : Save)
  | observe (elapsed : Bool) (id : String) (exitSave retrySave : Save)
  | shutdown
  | shutdownEnd (save : Save)

/-- The steps of the worker in a lifecycle operation. -/
inductive Lifecycling where
  | begin
  | phase (save : Save) (marker : Option OsError)
  | request
  | call (save : Save)
  | drainCheck (expired : Bool)
  | validate (error : Option String)
  | stopped (save : Save) (marker : Option OsError)
  | desire (save : Save)
  | read (answer : Except String LowerFence)
  | compare
  | released
  | finish (save : Save) (marker : Option OsError)

inductive Event where
  | asked (e : Asked)
  | calling (e : Calling)
  | working (e : Working)
  | lifecycling (e : Lifecycling)
  | childExit (code : Int)
  | close
  | crash (content : Nat)
  | boot (bootId : String) (loadSave startSave : Save)
  | elapse (time : Nat)

namespace Supervisor

/-! ## Steps -/

/-- The state after a request: a refused one changes nothing. -/
def accepted (s : Supervisor) : Except Refusal Supervisor → Supervisor
  | .ok t => t
  | .error _ => s

/-- `Submit`. -/
def submitAny (cfg : Config) (s : Supervisor) (req : Request) (save : Save) :
    Except Refusal Supervisor :=
  if req.lifecycle then .error ⟨.invalidRequest, "安全生命周期必须使用专用接口"⟩
  else if req.owned then s.submitOwned cfg req
  else s.submit cfg req false save

def asked (cfg : Config) (s : Supervisor) : Asked → Option Supervisor
  | .submit req save =>
    if req.validate cfg.parsesGuard then some (s.accepted (s.submitAny cfg req save)) else some s
  | .submitLifecycle req host save marker =>
    if req.validate cfg.parsesGuard then
      some (s.accepted (s.submitLifecycle cfg req host save marker))
    else some s
  | .resolve req save =>
    if req.validate cfg.parsesGuard then some (s.accepted (s.resolveRecorded cfg req save))
    else some s
  | .resolveBegin req host =>
    if req.validate cfg.parsesGuard && s.reconcilable cfg req host then some (s.resolveBegin req)
    else none
  | .resolveEnd answer save marker =>
    s.resolving.map fun r => s.resolveEnd cfg r answer save marker
  | .maintain req save =>
    if req.action = .holdStopped ∨ req.action = .releaseStopped then
      some (s.stoppedMaintenance cfg req save)
    else some (s.maintain cfg req false save)

/-- A section of a call needs the maintenance job that it writes to. -/
def calling (cfg : Config) (s : Supervisor) (e : Calling) : Option Supervisor :=
  match s.call with
  | none => none
  | some c =>
    if s.maintenance.isNone then none
    else
      match e, c.stage with
      | .reply answer save, _ => s.reply c answer save
      | .evidence, .evidence cause => some (s.evidenceUnknown c cause)
      | .unknown save, .unknown cause => some (s.maintenanceUnknown c cause save)
      | .submit save, .processSubmit req => some (s.submitCall cfg c req save)
      | _, _ => none

/-- The job that was handed over begins. -/
def takeJob (s : Supervisor) (req : Request) : Supervisor :=
  { s with
    jobs := none
    log := .performed req :: s.log
    worker := if req.lifecycle then .lifecycle req .begin else .perform req }

/-- An identifier that an earlier text contains. -/
def seen (s : Supervisor) (id : String) : Bool :=
  let names (r : Request) : Bool :=
    r.requestId = "boot." ++ id || r.requestId = "retry." ++ id || r.expectedRevision.bootId = id
  s.bootIds.contains id || s.log.any (fun h => names h.request) ||
    s.operations.any (fun o => names o.request) ||
    s.disk.any fun d => d.any fun d => d.operations.any fun o => names o.request

def goTo (s : Supervisor) (worker : Worker) : Supervisor := { s with worker := worker }

/-- The last section of `loop`. -/
def shutdownEnd (s : Supervisor) (error : Option String) (save : Save) : Supervisor :=
  { s with
    snapshot := { s.snapshot with
      lastError := match error with
        | none => s.snapshot.lastError
        | some e => "守护关闭时下级退出未确认: " ++ e }
    lifecycleLock := false
    worker := .done }.bump.persist save

def working (cfg : Config) (s : Supervisor) (e : Working) : Option Supervisor :=
  match e, s.worker with
  | .takeJob, .idle => s.jobs.map s.takeJob
  | .performBegin save, .perform req => some (s.performBegin req save)
  | .stopBegin save, .stop .begin caller => some (s.stopBegin caller save)
  | .stopSignal error, .stop .signal caller =>
    some (s.goTo (match error with
      | none => .stop .waiting caller
      | some e => caller.returned false (some e)))
  | .stopEnd forced, .stop .waiting caller =>
    if s.alive then none else some (s.stopEnd caller forced)
  | .stopFail forced cause, .stop .waiting caller =>
    some (s.goTo (caller.returned forced (some cause)))
  | .gracefulSignal error, .graceful .begin caller =>
    some (s.goTo (if s.child.isNone then caller.returned none
      else match error with
        | none => .graceful .waiting caller
        | some e => if s.exited then .graceful .waiting caller else caller.returned (some e)))
  | .gracefulEnd, .graceful .waiting caller =>
    if s.alive then none
    else some ((s.recordExit.setState .stopped).goTo (caller.returned none))
  | .gracefulFail cause, .graceful .waiting caller =>
    some (s.goTo (caller.returned (some cause)))
  | .count, .count req forced =>
    some ({ s with restartCount := s.restartCount + 1 }.goTo (.start .begin (.perform req forced)))
  | .startBegin save, .start .begin caller => some (s.startBegin caller save)
  | .spawn pid save, .start .spawn caller =>
    -- Process 1 is the init process.
    if pid ≤ 1 then none else some (s.spawn caller pid save)
  | .spawnFail cause, .start .spawn caller =>
    some (s.goTo (caller.returned (some cause)))
  | .startReady, .start .waiting caller =>
    if s.alive then some (s.goTo (caller.returned none)) else none
  | .startExited cause, .start .waiting caller =>
    if s.alive then none else some (s.recordExit.goTo (caller.returned (some cause)))
  | .startCanceled, .start .waiting caller =>
    if s.closing then some (s.goTo (caller.returned (some "context canceled"))) else none
  | .startTimeout cause, .start .waiting caller => some (s.goTo (.cleanup cause caller))
  | .cleanup, .cleanup cause caller =>
    some (s.goTo (if s.lifecycleActive then .graceful .begin (.cleanup cause caller)
      else .stop .begin (.cleanup cause caller)))
  | .finish save, .finish req forced error => some (s.finish cfg req forced error save)
  | .observe elapsed id exitSave retrySave, .idle =>
    if isNewId id && !s.seen id then
      some (s.observeExitAndRetry cfg elapsed id exitSave retrySave)
    else none
  | .shutdown, .idle => if s.closing then some (s.goTo (.stop .begin .shutdown)) else none
  | .shutdownEnd save, .closing error =>
    some (s.shutdownEnd error save)
  | _, _ => none

def lifecycling (cfg : Config) (s : Supervisor) (e : Lifecycling) : Option Supervisor :=
  match s.worker with
  | .lifecycle req stage =>
    match e, stage with
    | .begin, .begin => some (s.lifecycleBegin req)
    | .phase save marker, .phase point => some (s.lifecyclePhase req point save marker)
    | .request, .request call => s.lifecycle.map fun j => s.lifecycleRequest cfg req call j
    | .call save, .call _ maintenance => some (s.maintain cfg maintenance true save)
    | .drainCheck expired, .drainCheck drain => some (s.drainCheck req drain expired)
    | .validate error, .validate => some (s.validateConfiguration req error)
    | .stopped save marker, .stopped => some (s.lifecycleStopped req save marker)
    | .desire save, .desire => some (s.lifecycleDesire req save)
    | .read answer, .read => some (s.lifecycleRead cfg req answer)
    | .compare, .compare active => some (s.lifecycleCompare req active)
    | .released, .released => some (s.lifecycleReleased req)
    | .finish save marker, .ended result => some (s.lifecycleEnd cfg req result save marker)
    | _, _ => none
  | _ => none

/-- The process exits; the agent sees it when it looks. -/
def childExit (s : Supervisor) (code : Int) : Supervisor :=
  { s with child := s.child.map fun c => if c.exit.isNone then { c with exit := some code } else c }

def step (cfg : Config) (s : Supervisor) (e : Event) : Option Supervisor :=
  match s.up, e with
  | _, .elapse time => some { s with now := s.now + time }
  | false, .boot bootId loadSave startSave =>
    if isNewId bootId && !s.seen bootId then some (s.boot cfg bootId loadSave startSave) else none
  | true, .asked e => s.asked cfg e
  | true, .calling e => s.calling cfg e
  | true, .working e => s.working cfg e
  | true, .lifecycling e => s.lifecycling cfg e
  | true, .childExit code => some (s.childExit code)
  | true, .close => some { s with closing := true }
  | true, .crash content => s.disk[content]?.map fun d => s.halt [d]
  | _, _ => none

end Supervisor

end RcdServer.Agent
