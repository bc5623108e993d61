import RcdServer.Agent.Supervisor

/-!
# Handshakes with the lower

`MaintenanceAction` and `stoppedMaintenance`: the critical sections of one call, which holds
`maintenanceMu` from its first section to its last. A call of the worker resumes the worker when it
ends. A reply of the lower is received in the section that comes after it.
-/
namespace RcdServer.Agent

/-! ## Calls of a lifecycle operation -/

/-- Where `lifecycleRun` goes on after a call of `MaintenanceAction`. -/
def LifecycleCall.returned (error : Option String) : LifecycleCall → LifecycleStage
  | .giveUp cause =>
    match error with
    | none => .ended (.rejected cause)
    | some e => .ended (.unknown (cause ++ "\n" ++ e))
  | .enter =>
    match error with
    | none => .phase (.draining .beforeStop)
    | some e => .ended (.unknown e)
  | .reconcile drain =>
    match error with
    | none => .drainCheck drain
    | some e => .ended (.unknown e)
  | .release =>
    match error with
    | none => .released
    | some e => .ended (.unknown e)

/-- The worker after its call has returned. -/
def Worker.called (error : Option String) : Worker → Worker
  | .lifecycle req (.call c _) | .lifecycle req (.waiting c) => .lifecycle req (c.returned error)
  | w => w

/-- The worker once its call is under way. -/
def Worker.waits : Worker → Worker
  | .lifecycle req (.call c _) => .lifecycle req (.waiting c)
  | w => w

/-! ## Changes of a job -/

namespace Job

def touch (now : Nat) (j : Job) : Job := { j with updatedAt := now }

def assign (token : Nat) (j : Job) : Job := { j with fencingToken := some token, phase := .entering }

def release (f : LowerFence) (j : Job) : Job :=
  { j with releaseRequested := true, lowerConfirmed := true, lower := f, phase := .releasing }

/-- A fence that confirms the job; one that is no longer active completes it. -/
def confirm (f : LowerFence) (j : Job) : Job :=
  { j with
    lower := f
    error := ""
    lowerConfirmed := j.lowerConfirmed || f.active
    phase :=
      if !f.active then .completed else if j.releaseRequested then .releasing
      else if f.drained then .ready else .draining }

/-- Contradictory evidence revokes the confirmation, unless the release was requested. -/
def doubt (j : Job) : Job := { j with lowerConfirmed := j.lowerConfirmed && j.releaseRequested }

def unknown (cause : String) (j : Job) : Job :=
  { j with phase := .unknown, error := boundedError cause }

end Job

namespace Supervisor

/-- A call returns to its caller. -/
def returned (s : Supervisor) (worker : Bool) (error : Option String) : Supervisor :=
  { s with worker := if worker then s.worker.called error else s.worker }

/-- The call under way returns. -/
def endCall (s : Supervisor) (c : Call) (error : Option String) : Supervisor :=
  { s.returned c.worker error with call := none }

def stage (s : Supervisor) (c : Call) (stage : CallStage) : Supervisor :=
  { s with call := some { c with stage := stage } }

def mapJob (s : Supervisor) (change : Job → Job) : Supervisor :=
  { s with maintenance := s.maintenance.map change }

/-- `saveMaintenanceLocked`. -/
def saveMaintenance (s : Supervisor) (save : Save) : Supervisor :=
  (s.mapJob (Job.touch s.now)).bump.persist save

/-- A received fence is evidence of a drained lower if it confirms the current job as it stands. -/
def confirmsDrained (f : LowerFence) (j : Job) : Bool :=
  !j.releaseRequested && f.validate j.gatewayInstanceId && sameFence f j && f.durable && f.active &&
    f.drained

/-- The history of a received fence. -/
def observe (s : Supervisor) (f : LowerFence) : Supervisor :=
  { s with drainedFor :=
      if s.maintenance.any (confirmsDrained f) then some (f.deploymentId, f.fencingToken)
      else s.drainedFor }

/-! ## Admission -/

def noFence (token : Option Nat) : LowerFence :=
  ⟨0, "", "", token, false, false, false, 0, 0, false, "", ""⟩

def newJob (cfg : Config) (s : Supervisor) (req : MaintenanceRequest) (previous : Option Nat) : Job where
  offlineHold := false
  deploymentId := req.deploymentId
  instanceId := cfg.instanceId
  gatewayInstanceId := cfg.gatewayInstanceId
  endpoint := cfg.endpoint
  launchBinding := cfg.launchBinding
  fencingToken := none
  targetVersion := req.targetVersion
  initiator := req.initiator
  phase := .preparing
  lowerConfirmed := false
  releaseRequested := false
  createdAt := s.now
  updatedAt := s.now
  lower := noFence previous
  error := ""

/-- The token of the last job for this gateway. -/
def previousToken (cfg : Config) (job : Job) : Option Nat :=
  if job.gatewayInstanceId = cfg.gatewayInstanceId then job.fencingToken else some 0

/-- What a call of `MaintenanceAction` finds: a refusal, a job to go on with, or a new job. -/
def enterJob (cfg : Config) (s : Supervisor) (req : MaintenanceRequest) :
    Except Refusal (Option Job) :=
  if !maintenanceId req.targetVersion || !validActor req.initiator then
    .error ⟨.invalidRequest, "维护需要目标软件版本及发起者"⟩
  else
    match s.maintenance with
    | none => .ok (some (newJob cfg s req (some 0)))
    | some job =>
      if job.phase ≠ .completed then
        if job.deploymentId ≠ req.deploymentId ∨ job.targetVersion ≠ req.targetVersion ∨
            job.initiator ≠ req.initiator ∨ job.releaseRequested = true then
          .error ⟨.conflict, "已有不同的维护作业或正在收尾"⟩
        else .ok none
      else if job.deploymentId = req.deploymentId then
        .error ⟨.conflict, "已结束作业不能重新进入"⟩
      else .ok (some (newJob cfg s req (previousToken cfg job)))

/-- The checks of `MaintenanceAction` that do not depend on the action. -/
def maintenanceAllowed (cfg : Config) (s : Supervisor) (req : MaintenanceRequest) :
    Except Refusal Unit :=
  if !maintenanceId req.deploymentId then
    .error ⟨.invalidRequest, "需要有效维护动作、作业编号和精确版本"⟩
  else if s.call.isSome then .error ⟨.busy, "维护握手正在执行"⟩
  else if req.instanceId ≠ cfg.instanceId then .error ⟨.notFound, "守护实例不匹配"⟩
  else if cfg.endpoint = "" then .error ⟨.unsupported, "尚未配置本地下级维护端点及稳定身份"⟩
  else if s.closing || s.storageErr then .error ⟨.operationFailed, "守护关闭中或存储不可写"⟩
  else if s.lifecycleActive && !s.ownsLifecycleMaintenance req.deploymentId then
    .error ⟨.busy, "安全运维作业尚未结束"⟩
  else if req.expectedRevision ≠ s.snapshot.revision then .error ⟨.conflict, "守护状态版本已变化"⟩
  else if s.snapshot.pendingRequestId.isSome && !s.ownsLifecycleMaintenance req.deploymentId then
    .error ⟨.busy, "先等待已接收的进程作业结束"⟩
  else if s.maintenanceActive && s.maintenance.any (·.offlineHold) then
    .error ⟨.busy, "已停止进程的发布保留尚未结束"⟩
  else .ok ()

/-- The first section of `MaintenanceAction` up to the choice of the job. -/
def maintenanceJob (cfg : Config) (s : Supervisor) (req : MaintenanceRequest) :
    Except Refusal (Option Job) :=
  match s.maintenanceAllowed cfg req with
  | .error e => .error e
  | .ok () =>
    if req.action = .enter then s.enterJob cfg req
    else if s.maintenance.any fun job => job.deploymentId = req.deploymentId then .ok none
    else .error ⟨.conflict, "维护作业编号不匹配"⟩

def saveError (save : Save) : Option String :=
  save.error.map fun e =>
    (⟨.persistenceFailed, "维护状态保存失败，操作被阻止: " ++ boundedError e⟩ : Refusal).text

/-- A new job is stored. -/
def openJob (s : Supervisor) (job : Job) (save : Save) : Supervisor :=
  { s with
    schemaVersion := max s.schemaVersion 2
    maintenance := some job
    drainedFor := none }.saveMaintenance save

/-- The call goes on with the current job. A completed job is only reconciled. -/
def handshake (s : Supervisor) (action : MaintenanceAction) (worker : Bool) : Supervisor :=
  match s.maintenance with
  | none => s
  | some current =>
    if current.phase = .completed ∧ action ≠ .reconcile then s.returned worker none
    else { s with
      call := some ⟨worker, current, .read action⟩
      worker := if worker then s.worker.waits else s.worker }

/-- The first section of `MaintenanceAction`. -/
def maintain (cfg : Config) (s : Supervisor) (req : MaintenanceRequest) (worker : Bool)
    (save : Save) : Supervisor :=
  match s.maintenanceJob cfg req with
  | .error e => s.returned worker (some e.text)
  | .ok none => s.handshake req.action worker
  | .ok (some job) =>
    if save.ok then (s.openJob job save).handshake req.action worker
    else (s.openJob job save).returned worker (saveError save)

/-! ## Replies -/

/-- `recordLowerFence`; `after` is the error that the caller returns after a record. -/
def record (s : Supervisor) (c : Call) (f : LowerFence) (allowReleased : Bool)
    (after : Option String) (save : Save) : Supervisor :=
  match s.maintenance with
  | none => s
  | some job =>
    if !f.validate job.gatewayInstanceId then
      s.stage c (.evidence "invalid lower maintenance identity or state")
    else if !sameFence f job || !f.durable ||
        (!f.active && !(allowReleased && job.releaseRequested)) then
      s.stage c (.evidence "维护所有者/代次不匹配或持久化状态未知")
    else
      ({ s with maintenance := some (job.confirm f) }.saveMaintenance save).endCall c
        ((saveError save).or after)

/-- The token of a job that has none is stored before its `enter_maintenance`. -/
def assignToken (s : Supervisor) (c : Call) (f : LowerFence) (save : Save) : Supervisor :=
  let token := f.fencingToken.getD 0 + 1
  let s := (s.mapJob (Job.assign token)).saveMaintenance save
  if save.ok then
    s.stage { c with current := { c.current with fencingToken := some token } } (.enter f.bootId)
  else s.endCall c (saveError save)

/-- The reading of an `enter`. -/
def entering (s : Supervisor) (c : Call) (f : LowerFence) (save : Save) : Supervisor :=
  match c.current.fencingToken with
  | none =>
    if f.active || !f.durable || f.fencingToken.getD 0 < c.current.lower.fencingToken.getD 0 ||
        f.fencingToken.getD 0 == 2 ^ 64 - 1 then
      s.stage c (.unknown "下级仍在维护、状态不明或代次回退，不能分配新代次")
    else s.assignToken c f save
  | some token =>
    if sameFence f c.current ||
        (!f.active && f.durable && decide (0 < token) && f.fencingToken == some (token - 1)) then
      s.stage c (.enter f.bootId)
    else s.stage c (.evidence "下级维护代次/作业不匹配，禁止抢占或重放")

/-- The release of a job is stored before its `leave_maintenance`. -/
def requestRelease (s : Supervisor) (c : Call) (f : LowerFence) (save : Save) : Supervisor :=
  let s := { s.mapJob (Job.release f) with drainedFor := none }.saveMaintenance save
  if save.ok then s.stage c (.leave f.bootId) else s.endCall c (saveError save)

/-- The reading of a `complete`. -/
def completing (s : Supervisor) (c : Call) (f : LowerFence) (save : Save) : Supervisor :=
  if c.current.releaseRequested && sameFence f c.current && !f.active then
    s.record c f true none save
  else if !sameFence f c.current || !f.durable || !f.active then
    s.stage c (.evidence "下级维护所有者或持久状态不匹配，不能收尾")
  else if !f.drained then
    s.record c f false (some (⟨.busy, "下级已接受事务尚未结束"⟩ : Refusal).text) save
  else s.requestRelease c f save

/-- The first reading of a call. -/
def received (s : Supervisor) (c : Call) (action : MaintenanceAction) (f : LowerFence)
    (save : Save) : Supervisor :=
  if !f.validate c.current.gatewayInstanceId then
    s.stage c (.evidence "invalid lower maintenance identity or state")
  else
    match action with
    | .enter => s.entering c f save
    | .complete => s.completing c f save
    | _ => s.record c f c.current.releaseRequested none save

/-- The reading before a process action under a token. -/
def processRead (s : Supervisor) (c : Call) (req : Request) (f : LowerFence) : Supervisor :=
  if !f.validate c.current.gatewayInstanceId || !sameFence f c.current || !f.durable || !f.active then
    s.stage c (.evidence "下级未确认当前维护代次")
  else if !f.drained then
    s.endCall c (some (⟨.busy, "下级已接受事务尚未结束，不能停机"⟩ : Refusal).text)
  else s.stage c (.processSubmit req)

/-- A reply of the lower, or the error of its transport. -/
def reply (s : Supervisor) (c : Call) (answer : Except String LowerFence) (save : Save) :
    Option Supervisor :=
  match answer with
  | .error e =>
    match c.stage with
    | .read _ | .enter _ | .leave _ | .reread | .processRead _ => some (s.stage c (.unknown e))
    | _ => none
  | .ok f =>
    match c.stage with
    | .read action => some ((s.observe f).received c action f save)
    | .enter _ => some ((s.observe f).record c f false none save)
    | .leave _ => some ((s.observe f).stage c .reread)
    | .reread => some ((s.observe f).record c f true none save)
    | .processRead req => some ((s.observe f).processRead c req f)
    | _ => none

/-- The first section of `maintenanceEvidenceUnknown`. -/
def evidenceUnknown (s : Supervisor) (c : Call) (cause : String) : Supervisor :=
  (s.mapJob Job.doubt).stage c (.unknown cause)

/-- `maintenanceUnknown`. -/
def maintenanceUnknown (s : Supervisor) (c : Call) (cause : String) (save : Save) : Supervisor :=
  ((s.mapJob (Job.unknown cause)).saveMaintenance save).endCall c
    ((saveError save).or
      (some (⟨.operationFailed, "维护结果未确认，保留阻止状态: " ++ boundedError cause⟩ : Refusal).text))

/-- The submission of a process action under a token. -/
def submitCall (cfg : Config) (s : Supervisor) (c : Call) (req : Request) (save : Save) :
    Supervisor :=
  match s.submit cfg req true save with
  | .ok s => s.endCall c none
  | .error e => s.endCall c (some e.text)

/-! ## A stopped lower -/

def holdJob (cfg : Config) (s : Supervisor) (req : MaintenanceRequest) : Job :=
  { newJob cfg s req none with offlineHold := true, phase := .stopped }

/-- What `stoppedMaintenance` does to the job: nothing, or a job that is stored. -/
def stoppedJob (cfg : Config) (s : Supervisor) (req : MaintenanceRequest) :
    Except Refusal (Option Job) :=
  if s.call.isSome then .error ⟨.busy, "维护握手正在执行"⟩
  else if s.lifecycleActive then .error ⟨.busy, "安全运维作业尚未结束"⟩
  else if s.closing || s.storageErr || decide (req.instanceId ≠ cfg.instanceId) ||
      decide (req.expectedRevision ≠ s.snapshot.revision) || !maintenanceId req.deploymentId then
    .error ⟨.conflict, "守护身份、状态或维护版本不匹配"⟩
  else if s.child.isSome || s.snapshot.pid != 0 || s.snapshot.state != .stopped ||
      s.desired != .stopped || s.snapshot.pendingRequestId.isSome then
    .error ⟨.busy, "仅允许已确认停止且无进行中作业的下级使用停止保留"⟩
  else if req.action = .releaseStopped then
    match s.maintenance with
    | some job =>
      if job.offlineHold = false ∨ job.deploymentId ≠ req.deploymentId then
        .error ⟨.conflict, "停止保留作业不匹配"⟩
      else if job.phase = .completed then .ok none
      else .ok (some { job with phase := .completed })
    | none => .error ⟨.conflict, "停止保留作业不匹配"⟩
  else if !maintenanceId req.targetVersion || req.initiator = "" || decide (128 < textBytes req.initiator)
  then .error ⟨.invalidRequest, "需要目标版本和发起者"⟩
  else
    match s.maintenance with
    | none => .ok (some (holdJob cfg s req))
    | some job =>
      if job.phase ≠ .completed then
        if job.offlineHold = true ∧ job.deploymentId = req.deploymentId ∧
            job.targetVersion = req.targetVersion ∧ job.initiator = req.initiator then .ok none
        else .error ⟨.busy, "已有未结束维护作业"⟩
      else if job.deploymentId = req.deploymentId then
        .error ⟨.conflict, "已完成作业不得重新执行"⟩
      else .ok (some (holdJob cfg s req))

def setHold (s : Supervisor) (req : MaintenanceRequest) (job : Job) : Supervisor :=
  { s with
    schemaVersion :=
      if req.action = MaintenanceAction.releaseStopped then s.schemaVersion
      else max s.schemaVersion 3
    maintenance := some job
    drainedFor := none }

/-- `stoppedMaintenance`. -/
def stoppedMaintenance (cfg : Config) (s : Supervisor) (req : MaintenanceRequest) (save : Save) :
    Supervisor :=
  match s.stoppedJob cfg req with
  | .error _ | .ok none => s
  | .ok (some job) => (s.setHold req job).saveMaintenance save

end Supervisor

end RcdServer.Agent
