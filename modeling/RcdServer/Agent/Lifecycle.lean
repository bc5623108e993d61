import RcdServer.Agent.Handshake

/-!
# Lifecycle operations

`SubmitLifecycle`, the sections of `lifecycleRun` and `performLifecycle`, and the reconciliation of
a lifecycle operation. The lock of the host is held from the registration of an operation to its
end, and during a reconciliation.
-/
namespace RcdServer.Agent

/-- What follows a recorded phase. -/
def PhasePoint.next (req : Request) : PhasePoint → Worker
  | .entering => .lifecycle req (.request .enter)
  | .draining drain => .lifecycle req (.request (.reconcile drain))
  | .checking => .lifecycle req .validate
  | .stopping => .graceful .begin (.lifecycle req)
  | .starting => .lifecycle req .desire
  | .verifying => .lifecycle req .read
  | .releasing => .lifecycle req (.request .release)

/-- The lifecycle state after `lifecycleRun` returned. -/
def LifecycleResult.apply (req : Request) (j : Lifecycle) : LifecycleResult → Lifecycle
  | .ok => { j with
      state := .succeeded
      phase := if req.action = .stop then .manualStopped else .completed }
  | .rejected e => { j with
      state := .failed, phase := .configurationRejected, error := boundedError e }
  | .unknown e => { j with state := .unknown, phase := .unknown, error := boundedError e }

/-- The journal entry after `lifecycleRun` returned. -/
def LifecycleResult.conclude (now : Nat) (o : Operation) : LifecycleResult → Operation
  | .ok => { o with updatedAt := now, state := .succeeded }
  | .rejected e => { o with
      updatedAt := now, state := .failed, errorCode := "conflict", error := boundedError e }
  | .unknown e => { o with
      updatedAt := now, state := .unknown, errorCode := "lifecycle_unconfirmed",
      error := boundedError e }

namespace Supervisor

/-- `saveLifecycleLocked`: the state, then the marker of the host, whose failure is `marker`. -/
def saveLifecycle (s : Supervisor) (save : Save) (marker : Option OsError) : Supervisor :=
  let s := s.bump.persist save
  { s with storageErr := s.storageErr || marker.isSome }

/-- The error of `saveLifecycleLocked`. -/
def lifecycleError (save : Save) (marker : Option OsError) : Option String :=
  save.error.or (marker.map OsError.text)

/-- The worker goes on with a lifecycle operation. -/
def proceed (s : Supervisor) (req : Request) (stage : LifecycleStage) : Supervisor :=
  { s with worker := .lifecycle req stage }

def setLifecycle (s : Supervisor) (change : Lifecycle → Lifecycle) : Supervisor :=
  { s with lifecycle := s.lifecycle.map change }

/-! ## Registration -/

/-- The fence that a new operation works with: a deferred one, or one of its own. -/
def fenceFor (cfg : Config) (s : Supervisor) (req : Request) : String :=
  match s.deferredFence with
  | some job => job.deploymentId
  | none => "routine." ++ cfg.fenceDigest req.managerInstanceId req.requestId

def newLifecycle (cfg : Config) (s : Supervisor) (req : Request) : Lifecycle :=
  ⟨req.requestId, req.managerInstanceId, req.actor, req.action, .accepted, .accepted, "",
    s.fenceFor cfg req⟩

/-- An admitted operation. Without its marker it is not handed to the worker. -/
def registerLifecycle (cfg : Config) (s : Supervisor) (req : Request) (save : Save)
    (marker : Option OsError) : Supervisor :=
  let t := ({ s with
    schemaVersion := 4
    lifecycle := some (s.newLifecycle cfg req)
    snapshot := { s.snapshot with pendingRequestId := some req.requestId }
    retryAt := false }.add req .accepted).saveLifecycle save marker
  if (lifecycleError save marker).isSome then
    (t.setLifecycle fun j => { j with state := .unknown, phase := .unknown }).update req.requestId
      fun o => { o with state := .unknown }
  else { t with lifecycleLock := true, jobs := some req }

/-- What `SubmitLifecycle` checks of a new request; `host` says that the machine has no other
unfinished job. -/
def lifecycleAllowed (s : Supervisor) (req : Request) (host : Bool) : Except Refusal Unit :=
  if s.closing || s.storageErr then .error ⟨.persistenceFailed, "代理不可写或正在退出"⟩
  else if req.expectedRevision ≠ s.snapshot.revision then .error ⟨.conflict, "进程状态已变化，请刷新"⟩
  else if s.lifecycleActive || s.maintenanceActive || s.snapshot.pendingRequestId.isSome then
    .error ⟨.busy, "目标已有进行中的发布或运维作业"⟩
  else if !host || s.lifecycleLock || s.resolving.isSome then
    .error ⟨.busy, "目标机器正在发布或运维，或共享锁不可访问"⟩
  else .ok ()

/-- `SubmitLifecycle`. -/
def submitLifecycle (cfg : Config) (s : Supervisor) (req : Request) (host : Bool) (save : Save)
    (marker : Option OsError) : Except Refusal Supervisor :=
  if !req.lifecycle || !cfg.hostRelease then .error ⟨.unsupported, "代理未启用安全生命周期能力"⟩
  else if req.instanceId ≠ cfg.instanceId ∨ req.gatewayInstanceId ≠ cfg.gatewayInstanceId then
    .error ⟨.conflict, "固定 Agent 或下级身份不匹配"⟩
  else
    match s.find req.requestId with
    | some item =>
      if item.request ≠ req then .error ⟨.conflict, "操作编号已用于另一请求"⟩ else .ok s
    | none =>
      match s.lifecycleAllowed req host with
      | .error e => .error e
      | .ok () => .ok (s.registerLifecycle cfg req save marker)

/-! ## The sections of `lifecycleRun` -/

/-- What follows the first section. -/
def lifecycleFirst (s : Supervisor) (req : Request) : LifecycleStage :=
  if s.child.isSome ∧ req.action ≠ .start then .phase .entering
  else if req.action = .stop then .stopped else .phase .starting

/-- The first section. A deferred stop fence becomes the maintenance job again. -/
def lifecycleBegin (s : Supervisor) (req : Request) : Supervisor :=
  if req.configurationGuard ≠ "" ∧ s.child = none then
    s.proceed req (.ended (.rejected "配置应用重启要求下级正在运行；未启动原本停止的程序"))
  else
    { s with
      maintenance := s.deferredFence.or s.maintenance
      drainedFor := if s.deferredFence.isSome then none else s.drainedFor }.proceed req
        (s.lifecycleFirst req)

/-- `lifecyclePhase`. -/
def lifecyclePhase (s : Supervisor) (req : Request) (point : PhasePoint) (save : Save)
    (marker : Option OsError) : Supervisor :=
  let t := (s.setLifecycle fun j => { j with phase := point.phase, state := .running }).update
    req.requestId fun o => { o with state := .running, updatedAt := s.now }
  { t.saveLifecycle save marker with
    worker := match lifecycleError save marker with
      | some e => .lifecycle req (.ended (.unknown e))
      | none => point.next req }

/-- The section of `lifecycleMaintenance`: the request of the operation's own call. -/
def lifecycleRequest (cfg : Config) (s : Supervisor) (req : Request) (call : LifecycleCall)
    (j : Lifecycle) : Supervisor :=
  s.proceed req (.call call
    ⟨call.action, cfg.instanceId, j.fenceId, s.snapshot.revision, "routine", j.actor⟩)

/-- The end of one round of `lifecycleDrain`; `expired` says that its time is over. -/
def drainCheck (s : Supervisor) (req : Request) (drain : Drain) (expired : Bool) : Supervisor :=
  s.proceed req
    (if s.maintenance.any fun j => j.lowerConfirmed && j.lower.drained then
      match drain with
      | .beforeStop => .phase (if req.configurationGuard ≠ "" then .checking else .stopping)
      | .beforeRelease => .phase .releasing
    else if expired then .ended (.unknown "下级排空超时；未停止进程，保留维护供核对")
    else .request (.reconcile drain))

/-- The check of the configuration by the lower; `error` is its answer. -/
def validateConfiguration (s : Supervisor) (req : Request) (error : Option String) : Supervisor :=
  s.proceed req
    (match if s.maintenance.isNone then some "configuration guard is unavailable" else error with
    | none => .phase .stopping
    | some e => .request (.giveUp e))

/-- The fence of the current job outlives the process. -/
def keepsFence (s : Supervisor) : Bool :=
  s.maintenance.any fun m => m.lowerConfirmed && m.lower.active

def deferFence (s : Supervisor) : Supervisor :=
  { s with
    deferredFence := if s.keepsFence then s.maintenance else s.deferredFence
    maintenance := if s.keepsFence then none else s.maintenance
    drainedFor := if s.keepsFence then none else s.drainedFor
    desired := .stopped
    snapshot := { s.snapshot with state := .stopped } }

/-- The last section of a stop. -/
def lifecycleStopped (s : Supervisor) (req : Request) (save : Save) (marker : Option OsError) :
    Supervisor :=
  if s.child.isSome || s.snapshot.pid != 0 then
    s.proceed req (.ended (.unknown "进程退出尚未确认"))
  else
    (s.deferFence.saveLifecycle save marker).proceed req
      (.ended (match lifecycleError save marker with
        | some e => .unknown e
        | none => .ok))

/-- The section before the process is started. -/
def lifecycleDesire (s : Supervisor) (req : Request) (save : Save) : Supervisor :=
  { { s with desired := Desired.running }.bump.persist save with
    worker := match save.error with
      | some e => .lifecycle req (.ended (.unknown e))
      | none => .start .begin (.lifecycle req) }

/-- The reading of the started lower. -/
def lifecycleRead (cfg : Config) (s : Supervisor) (req : Request)
    (answer : Except String LowerFence) : Supervisor :=
  s.proceed req
    (match answer with
    | .error e => .ended (.unknown e)
    | .ok f =>
      if !f.validate cfg.gatewayInstanceId then
        .ended (.unknown "invalid lower maintenance identity or state")
      else if !f.durable then .ended (.unknown "下级维护状态未持久确认")
      else .compare f.active)

/-- Whether the started lower has to be released. -/
def lifecycleCompare (s : Supervisor) (req : Request) (active : Bool) : Supervisor :=
  s.proceed req
    (if s.maintenanceActive then .phase (.draining .beforeRelease)
    else if active then .ended (.unknown "下级存在另一未确认维护，未解除")
    else .released)

/-- The last section of a start or restart. -/
def lifecycleReleased (s : Supervisor) (req : Request) : Supervisor :=
  { s with
    deferredFence := none
    snapshot := { s.snapshot with state := .running } }.proceed req (.ended .ok)

/-! ## The end of an operation -/

/-- The last section of `performLifecycle` before its result is stored. The view is frozen before
the revision moves on. -/
def lifecycleEnded (cfg : Config) (s : Supervisor) (req : Request) (result : LifecycleResult) :
    Supervisor :=
  { ((s.setLifecycle fun j => result.apply req j).update req.requestId fun o =>
      result.conclude s.now o) with
    snapshot := { s.snapshot with pendingRequestId := none }
    lifecycleLock := false
    worker := .idle }.freeze cfg req.requestId

/-- The last section of `performLifecycle`. -/
def lifecycleEnd (cfg : Config) (s : Supervisor) (req : Request) (result : LifecycleResult)
    (save : Save) (marker : Option OsError) : Supervisor :=
  let t := (s.lifecycleEnded cfg req result).saveLifecycle save marker
  if (lifecycleError save marker).isSome then
    (t.setLifecycle fun j => { j with state := .unknown, phase := .unknown }).update req.requestId
      fun o => { o with
        state := .unknown, errorCode := "persistence_failed", error := "运维结果保存未确认" }
  else t

/-! ## Reconciliation -/

/-- Whether `Resolve` reconciles a lifecycle operation instead of reading its record. -/
def reconcilable (cfg : Config) (s : Supervisor) (req : Request) (host : Bool) : Bool :=
  req.lifecycle && (s.find req.requestId).any (fun o => o.state == .unknown && o.request = req) &&
    s.lifecycle.any (fun j => j.requestId = req.requestId) && req.instanceId = cfg.instanceId &&
    req.gatewayInstanceId = cfg.gatewayInstanceId && !s.closing && !s.storageErr &&
    s.snapshot.pendingRequestId.isNone && host && !s.lifecycleLock && s.resolving.isNone

/-- The process has exited since the operation was registered. -/
def stopConfirmed (s : Supervisor) (req : Request) : Bool :=
  req.action == .stop && s.child.isNone && s.snapshot.pid == 0 &&
    (s.find req.requestId).any fun o => s.snapshot.lastExitAt.any fun t => o.createdAt ≤ t

/-- An exit that nobody has recorded yet is recorded. -/
def noticeExit (s : Supervisor) : Supervisor :=
  { s with
    child := if s.exited then none else s.child
    snapshot := if s.exited then s.recordExit.snapshot else s.snapshot }

/-- The first section of a reconciliation. An exit of the owned process is evidence. -/
def resolveBegin (s : Supervisor) (req : Request) : Supervisor :=
  { s.noticeExit with
    resolving := some ⟨req, s.noticeExit.stopConfirmed req,
      s.noticeExit.child.isSome && decide (0 < s.noticeExit.snapshot.pid), s.maintenance⟩ }

/-- The lower has left the fence of the operation. -/
def startConfirmed (cfg : Config) (r : Resolving) (f : LowerFence) : Bool :=
  r.running && r.req.action != .stop && f.validate cfg.gatewayInstanceId && f.durable && !f.active &&
    !f.admissionBlocked && r.job.all fun j => j.releaseRequested && sameFence f j

/-- The fence that is kept proves that the lower was drained. -/
def stopProven (r : Resolving) : Bool :=
  r.stopConfirmed && r.job.all fun j => j.lowerConfirmed && j.lower.drained && j.lower.active

/-- The operation is found to have succeeded. -/
def concluded (cfg : Config) (s : Supervisor) (req : Request) (phase : LifecyclePhase) (save : Save)
    (marker : Option OsError) : Supervisor :=
  (((s.setLifecycle fun j => { j with
      phase := phase, state := .succeeded, error := "" }).update req.requestId fun o => { o with
        state := .succeeded, errorCode := "", error := "", updatedAt := s.now }).bump.freeze cfg
      req.requestId).saveLifecycle save marker

/-- The effect of a proven stop. -/
def stopFound (s : Supervisor) (r : Resolving) : Supervisor :=
  { s with
    deferredFence := r.job.or s.deferredFence
    maintenance := if r.job.isSome then none else s.maintenance
    drainedFor := if r.job.isSome then none else s.drainedFor
    desired := Desired.stopped
    snapshot := { s.snapshot with state := .stopped } }

/-- The effect of a confirmed start. -/
def startFound (s : Supervisor) (r : Resolving) (f : LowerFence) : Supervisor :=
  { s with
    maintenance := if r.job.isSome then
        s.maintenance.map fun j => { j with
          lower := f, lowerConfirmed := true, phase := JobPhase.completed, error := "" }
      else s.maintenance
    deferredFence := none
    snapshot := { s.snapshot with state := .running } }

/-- The second section of a reconciliation; `answer` is the reading of the lower. -/
def resolveEnd (cfg : Config) (s : Supervisor) (r : Resolving) (answer : Except String LowerFence)
    (save : Save) (marker : Option OsError) : Supervisor :=
  let s := { s with resolving := none }
  if s.closing || (s.find r.req.requestId).isNone || s.snapshot.pendingRequestId.isSome then s
  else if stopProven r then (s.stopFound r).concluded cfg r.req .manualStopped save marker
  else
    match answer with
    | .error _ => s
    | .ok f =>
      if startConfirmed cfg r f && s.child.isSome && s.snapshot.pid != 0 then
        (s.startFound r f).concluded cfg r.req .completed save marker
      else s

end Supervisor

end RcdServer.Agent
