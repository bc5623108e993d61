import RcdServer.Agent.Steps

/-!
# What a step of the agent does

`Move` lists the effects of the events with what the code has checked before each, so that a claim
about every step is a case analysis over it. A refused request and a repeated one change nothing.
-/
namespace RcdServer.Agent

namespace Supervisor

/-! ## Calls of `MaintenanceAction` -/

/-- The effects of the first section of `MaintenanceAction`. -/
inductive Maintained (cfg : Config) (s : Supervisor) (req : MaintenanceRequest) (worker : Bool)
    (save : Save) : Supervisor → Prop
  | refused (e : Refusal) : Maintained cfg s req worker save (s.returned worker (some e.text))
  /-- A completed job is not taken up again. -/
  | completed {job : Job} (hjob : s.maintenance = some job) (hphase : job.phase = .completed) :
    Maintained cfg s req worker save (s.returned worker none)
  | begun {job : Job} (hallowed : s.maintenanceAllowed cfg req = .ok ())
    (hjob : s.maintenance = some job) (hid : job.deploymentId = req.deploymentId)
    (hphase : job.phase ≠ .completed ∨ req.action = .reconcile)
    (henter : req.action = .enter → job.releaseRequested = false) :
    Maintained cfg s req worker save { s with
      call := some ⟨worker, job, .read req.action⟩
      worker := if worker then s.worker.waits else s.worker }
  | opened {job : Job} (hallowed : s.maintenanceAllowed cfg req = .ok ())
    (henter : req.action = .enter) (hjob : s.enterJob cfg req = .ok (some job))
    (hsave : save.ok = true) :
    Maintained cfg s req worker save { s.openJob job save with
      call := some ⟨worker, job.touch s.now, .read req.action⟩
      worker := if worker then s.worker.waits else s.worker }
  | openFailed {job : Job} (hallowed : s.maintenanceAllowed cfg req = .ok ())
    (henter : req.action = .enter) (hjob : s.enterJob cfg req = .ok (some job))
    (hsave : save.ok = false) :
    Maintained cfg s req worker save ((s.openJob job save).returned worker (saveError save))

section Calls

variable {cfg : Config} {s t : Supervisor} {req : MaintenanceRequest} {worker : Bool} {save : Save}

theorem maintenanceJob_eq_ok {job : Option Job} (h : s.maintenanceJob cfg req = .ok job) :
    s.maintenanceAllowed cfg req = .ok () ∧
      ((req.action = .enter ∧ s.enterJob cfg req = .ok job) ∨
        (req.action ≠ .enter ∧ job = none ∧
          ∃ j, s.maintenance = some j ∧ j.deploymentId = req.deploymentId)) := by
  unfold maintenanceJob at h
  split at h
  · cases h
  rename_i hallowed
  refine ⟨hallowed, ?_⟩
  split at h
  · exact .inl ⟨‹_›, h⟩
  rename_i henter
  split at h
  · rename_i hany
    cases h
    obtain ⟨j, hj, hid⟩ := (Option.any_eq_true _ _).mp hany
    exact .inr ⟨henter, rfl, j, hj, of_decide_eq_true hid⟩
  · cases h

/-- An `enter` goes on with the active job that it names, or opens a job under another name. -/
theorem enterJob_eq_ok {job : Option Job} (h : s.enterJob cfg req = .ok job) :
    maintenanceId req.targetVersion = true ∧ validActor req.initiator = true ∧
      ((job = none ∧ ∃ j, s.maintenance = some j ∧ j.phase ≠ .completed ∧
          j.deploymentId = req.deploymentId ∧ j.releaseRequested = false) ∨
        ∃ previous, job = some (newJob cfg s req previous) ∧
          ((s.maintenance = none ∧ previous = some 0) ∨
            ∃ j, s.maintenance = some j ∧ j.phase = .completed ∧
              j.deploymentId ≠ req.deploymentId ∧ previous = previousToken cfg j)) := by
  unfold enterJob at h
  split at h
  · cases h
  rename_i hvalid
  simp only [Bool.or_eq_true, Bool.not_eq_true', not_or, Bool.not_eq_false] at hvalid
  refine ⟨hvalid.1, hvalid.2, ?_⟩
  split at h
  · rename_i hnone
    cases h
    exact .inr ⟨_, rfl, .inl ⟨hnone, rfl⟩⟩
  rename_i j hj
  split at h
  · rename_i hphase
    split at h
    · cases h
    rename_i hsame
    simp only [not_or, not_not, Bool.not_eq_true] at hsame
    cases h
    exact .inl ⟨rfl, j, hj, hphase, hsame.1, hsame.2.2.2⟩
  · rename_i hphase
    split at h
    · cases h
    rename_i hne
    cases h
    exact .inr ⟨_, rfl, .inr ⟨j, hj, not_not.mp hphase, hne, rfl⟩⟩

theorem maintained (h : s.maintain cfg req worker save = t) :
    Maintained cfg s req worker save t := by
  subst h
  unfold maintain
  split
  · exact .refused _
  · rename_i hjob
    obtain ⟨hallowed, hcase⟩ := maintenanceJob_eq_ok hjob
    -- Either way the current job is the one that the request names.
    have hcurrent : ∃ j, s.maintenance = some j ∧ j.deploymentId = req.deploymentId ∧
        (req.action = .enter → j.releaseRequested = false) := by
      obtain ⟨-, henter⟩ | ⟨hne, -, j, hj, hid⟩ := hcase
      · obtain ⟨-, -, ⟨-, j, hj, -, hid, hrelease⟩ | ⟨_, habsurd, -⟩⟩ := enterJob_eq_ok henter
        · exact ⟨j, hj, hid, fun _ => hrelease⟩
        · cases habsurd
      · exact ⟨j, hj, hid, fun h => absurd h hne⟩
    obtain ⟨j, hj, hid, hrelease⟩ := hcurrent
    unfold handshake
    split
    · rename_i hnone
      rw [hj] at hnone
      cases hnone
    rename_i current hcurrent
    obtain rfl : j = current := Option.some.inj (hj.symm.trans hcurrent)
    split
    · rename_i hdone
      exact .completed hj hdone.1
    · rename_i hopen
      refine .begun hallowed hj hid ?_ hrelease
      by_cases hphase : j.phase = .completed
      · exact .inr (not_not.mp fun h => hopen ⟨hphase, h⟩)
      · exact .inl hphase
  · rename_i job hjob
    obtain ⟨hallowed, ⟨henter, hnew⟩ | ⟨-, habsurd, -⟩⟩ := maintenanceJob_eq_ok hjob
    · split
      · rename_i hsave
        obtain ⟨-, -, ⟨habsurd, -⟩ | ⟨previous, hprevious, -⟩⟩ := enterJob_eq_ok hnew
        · cases habsurd
        have hphase : (job.touch s.now).phase ≠ .completed := by
          rw [Option.some.inj hprevious]
          nofun
        have hshake : (s.openJob job save).handshake req.action worker =
            { s.openJob job save with
              call := some ⟨worker, job.touch s.now, .read req.action⟩
              worker := if worker then s.worker.waits else s.worker } := by
          exact if_neg fun h => hphase h.1
        rw [hshake]
        exact .opened hallowed henter hnew hsave
      · rename_i hsave
        exact .openFailed hallowed henter hnew (Bool.not_eq_true _ ▸ hsave)
    · cases habsurd

end Calls

/-! ## Replies of the lower -/

/-- The effects of a reply. A fence is recorded only if it confirms the job as it stands. -/
inductive Replied (s : Supervisor) (c : Call) (save : Save) :
    Except String LowerFence → Supervisor → Prop
  | failed (e : String) : Replied s c save (.error e) (s.stage c (.unknown e))
  | doubted {f : LowerFence} {stage : CallStage}
    (hstage : ∃ cause, stage = .evidence cause ∨ stage = .unknown cause) :
    Replied s c save (.ok f) ((s.observe f).stage c stage)
  | entering {f : LowerFence} {token : Nat} (hstage : c.stage = .read .enter)
    (htoken : c.current.fencingToken = some token) (hvalid : f.validate c.current.gatewayInstanceId)
    (hfence : sameFence f c.current = true ∨
      (f.active = false ∧ f.durable = true ∧ 0 < token ∧ f.fencingToken = some (token - 1))) :
    Replied s c save (.ok f) ((s.observe f).stage c (.enter f.bootId))
  | assigned {f : LowerFence} (hstage : c.stage = .read .enter)
    (htoken : c.current.fencingToken = none) (hvalid : f.validate c.current.gatewayInstanceId)
    (hactive : f.active = false) (hdurable : f.durable = true)
    (hlast : f.fencingToken.getD 0 ≠ 2 ^ 64 - 1) :
    Replied s c save (.ok f) ((s.observe f).assignToken c f save)
  | released {f : LowerFence} (hstage : c.stage = .read .complete)
    (hvalid : f.validate c.current.gatewayInstanceId) (hsame : sameFence f c.current = true)
    (hdurable : f.durable = true) (hactive : f.active = true) (hdrained : f.drained = true) :
    Replied s c save (.ok f) ((s.observe f).requestRelease c f save)
  | left {f : LowerFence} {boot : String} (hstage : c.stage = .leave boot) :
    Replied s c save (.ok f) ((s.observe f).stage c .reread)
  | recorded {f : LowerFence} {job : Job} {error : Option String} (hjob : s.maintenance = some job)
    (hstage : (∃ action, c.stage = .read action ∧ action ≠ .enter) ∨ c.stage = .reread ∨
      ∃ boot, c.stage = .enter boot)
    (hvalid : f.validate job.gatewayInstanceId = true) (hsame : sameFence f job = true)
    (hdurable : f.durable = true) (hactive : f.active = true ∨ job.releaseRequested = true)
    (herror : error = none → save.ok = true) :
    Replied s c save (.ok f)
      (({ s.observe f with maintenance := some (job.confirm f) }.saveMaintenance save).endCall c error)
  | undrained {f : LowerFence} {req : Request} (error : String)
    (hstage : c.stage = .processRead req) :
    Replied s c save (.ok f) ((s.observe f).endCall c (some error))
  | drained {f : LowerFence} {req : Request} (hstage : c.stage = .processRead req)
    (hvalid : f.validate c.current.gatewayInstanceId) (hsame : sameFence f c.current = true)
    (hdurable : f.durable = true) (hactive : f.active = true) (hdrained : f.drained = true) :
    Replied s c save (.ok f) ((s.observe f).stage c (.processSubmit req))

section Replies

variable {s : Supervisor} {c : Call} {f : LowerFence} {save : Save}

theorem saveError_eq_none (h : saveError save = none) : save.ok = true := by
  unfold saveError at h
  rw [Option.map_eq_none_iff] at h
  rw [Save.ok, h]
  rfl

theorem replied_record {allow : Bool} {after : Option String} (hjob : s.maintenance.isSome = true)
    (hstage : (∃ action, c.stage = .read action ∧ action ≠ .enter) ∨ c.stage = .reread ∨
      ∃ boot, c.stage = .enter boot) :
    Replied s c save (.ok f) ((s.observe f).record c f allow after save) := by
  unfold record
  split
  · rename_i hnone
    rw [show s.maintenance = none from hnone] at hjob
    cases hjob
  rename_i job hjob
  split
  · exact .doubted ⟨_, .inl rfl⟩
  rename_i hvalid
  split
  · exact .doubted ⟨_, .inl rfl⟩
  rename_i hfence
  simp only [Bool.or_eq_true, Bool.not_eq_true', Bool.and_eq_true, not_or, not_and,
    Bool.not_eq_false] at hfence hvalid
  refine .recorded hjob hstage hvalid hfence.1.1 hfence.1.2 ?_ ?_
  · cases hactive : f.active with
    | true => exact .inl rfl
    | false => exact .inr (hfence.2 hactive).2
  · intro h
    exact saveError_eq_none (Option.or_eq_none_iff.mp h).1

theorem replied_entering (hstage : c.stage = .read .enter)
    (hvalid : f.validate c.current.gatewayInstanceId = true) :
    Replied s c save (.ok f) ((s.observe f).entering c f save) := by
  unfold entering
  split
  · rename_i htoken
    split
    · exact .doubted ⟨_, .inr rfl⟩
    rename_i hfree
    simp only [Bool.or_eq_true, Bool.not_eq_true', not_or, Bool.not_eq_true, Bool.not_eq_false,
      beq_iff_eq] at hfree
    exact .assigned hstage htoken hvalid hfree.1.1.1 hfree.1.1.2 hfree.2
  · rename_i token htoken
    split
    · rename_i hfence
      refine .entering hstage htoken hvalid ?_
      simpa [and_assoc] using hfence
    · exact .doubted ⟨_, .inl rfl⟩

theorem replied_completing (hjob : s.maintenance.isSome = true) (hstage : c.stage = .read .complete)
    (hvalid : f.validate c.current.gatewayInstanceId = true) :
    Replied s c save (.ok f) ((s.observe f).completing c f save) := by
  unfold completing
  split
  · exact replied_record hjob (.inl ⟨_, hstage, nofun⟩)
  split
  · exact .doubted ⟨_, .inl rfl⟩
  rename_i hfence
  simp only [Bool.or_eq_true, Bool.not_eq_true', not_or, Bool.not_eq_false] at hfence
  split
  · exact replied_record hjob (.inl ⟨_, hstage, nofun⟩)
  · rename_i hdrained
    exact .released hstage hvalid hfence.1.1 hfence.1.2 hfence.2 (by simpa using hdrained)

theorem replied {answer : Except String LowerFence} {t : Supervisor}
    (hjob : s.maintenance.isSome = true) (h : s.reply c answer save = some t) :
    Replied s c save answer t := by
  unfold reply at h
  split at h
  · split at h <;> cases h <;> exact .failed _
  rename_i f
  split at h
  · rename_i action hstage
    cases h
    unfold received
    split
    · exact .doubted ⟨_, .inl rfl⟩
    rename_i hvalid
    simp only [Bool.not_eq_true', Bool.not_eq_false] at hvalid
    split
    · exact replied_entering hstage hvalid
    · exact replied_completing hjob hstage hvalid
    · rename_i henter _
      exact replied_record hjob (.inl ⟨_, hstage, henter⟩)
  · rename_i hstage
    cases h
    exact replied_record hjob (.inr (.inr ⟨_, hstage⟩))
  · rename_i hstage
    cases h
    exact .left hstage
  · rename_i hstage
    cases h
    exact replied_record hjob (.inr (.inl hstage))
  · rename_i req hstage
    cases h
    unfold processRead
    split
    · exact .doubted ⟨_, .inl rfl⟩
    rename_i hfence
    simp only [Bool.or_eq_true, Bool.not_eq_true', not_or, Bool.not_eq_false] at hfence
    split
    · exact .undrained _ hstage
    · rename_i hdrained
      exact .drained hstage hfence.1.1.1 hfence.1.1.2 hfence.1.2 hfence.2 (by simpa using hdrained)
  · cases h

end Replies

/-! ## Requests -/

/-- What was checked before a process action is registered. -/
structure Admitted (cfg : Config) (s : Supervisor) (req : Request) (owner : Bool) : Prop where
  instanceId : req.instanceId = cfg.instanceId
  new : s.find req.requestId = none
  closing : s.closing = false
  storageErr : s.storageErr = false
  allowed : s.processAllowed cfg req owner = .ok ()
  revision : req.expectedRevision = s.snapshot.revision
  pending : s.snapshot.pendingRequestId = none

/-- What was checked before a lifecycle operation is registered. -/
structure LifecycleAdmitted (cfg : Config) (s : Supervisor) (req : Request) : Prop where
  lifecycle : req.lifecycle = true
  hostRelease : cfg.hostRelease = true
  instanceId : req.instanceId = cfg.instanceId
  new : s.find req.requestId = none
  closing : s.closing = false
  storageErr : s.storageErr = false
  revision : req.expectedRevision = s.snapshot.revision
  inactive : s.lifecycleActive = false
  released : s.maintenanceActive = false
  pending : s.snapshot.pendingRequestId = none
  unlocked : s.lifecycleLock = false
  unresolved : s.resolving = none

/-- What was checked before a request gets its tombstone. -/
structure Buried (cfg : Config) (s : Supervisor) (req : Request) : Prop where
  instanceId : req.instanceId = cfg.instanceId
  new : s.find req.requestId = none
  closing : s.closing = false
  storageErr : s.storageErr = false

/-- What was checked of a process action that names a maintenance token. -/
structure TokenHeld (cfg : Config) (s : Supervisor) (req : Request) (job : Job) : Prop where
  free : s.call = none
  pending : s.snapshot.pendingRequestId = none
  current : s.maintenance = some job
  active : job.phase ≠ .completed
  deployment : job.deploymentId = req.deploymentId
  token : job.fencingToken = req.fencingToken
  unreleased : job.releaseRequested = false

section Requests

variable {cfg : Config} {s t : Supervisor} {req : Request} {save : Save}

theorem submit_eq_ok {owner : Bool} (h : s.submit cfg req owner save = .ok t) :
    t = s ∨ (Admitted cfg s req owner ∧
      t = registered cfg s (s.register cfg req owner) req save) := by
  unfold submit at h
  split at h
  · cases h
  rename_i hinstance
  split at h
  · split at h
    · cases h
    · cases h
      exact .inl rfl
  rename_i hnew
  split at h
  · cases h
  rename_i hadmissible
  cases h
  refine .inr ⟨?_, rfl⟩
  unfold admissible at hadmissible
  split at hadmissible
  · cases hadmissible
  rename_i hopen
  split at hadmissible
  · cases hadmissible
  rename_i hallowed
  split at hadmissible
  · cases hadmissible
  rename_i hrevision
  split at hadmissible
  · cases hadmissible
  rename_i hpending
  simp only [Bool.or_eq_true, not_or, Bool.not_eq_true] at hopen
  exact ⟨not_not.mp hinstance, hnew, hopen.1, hopen.2, hallowed, not_not.mp hrevision,
    by simpa using hpending⟩

theorem tokenHeld_eq_ok {job : Job} (h : s.tokenHeld cfg req = .ok job) (hfree : s.call = none) :
    TokenHeld cfg s req job := by
  unfold tokenHeld at h
  split at h
  · cases h
  split at h
  · cases h
  split at h
  · cases h
  rename_i hpending
  split at h
  · cases h
  rename_i job' hjob
  split at h
  · cases h
  rename_i hheld
  cases h
  simp only [not_or, not_not, Bool.not_eq_true] at hheld
  exact ⟨hfree, by simpa using hpending, hjob, hheld.1, hheld.2.1, hheld.2.2.1,
    hheld.2.2.2.2.1⟩

theorem submitOwned_eq_ok (h : s.submitOwned cfg req = .ok t) :
    t = s ∨ ∃ job, TokenHeld cfg s req job ∧ t = { s with call := some ⟨false, job,
      if req.action.stops then .processRead req else .processSubmit req⟩ } := by
  unfold submitOwned at h
  split at h
  · cases h
  rename_i hfree
  split at h
  · cases h
  split at h
  · split at h
    · cases h
    · cases h
      exact .inl rfl
  split at h
  · cases h
  rename_i job hheld
  cases h
  exact .inr ⟨job, tokenHeld_eq_ok hheld (by simpa using hfree), rfl⟩

theorem resolveRecorded_eq_ok (h : s.resolveRecorded cfg req save = .ok t) :
    t = s ∨ (Buried cfg s req ∧ t = { (s.buried cfg req).persist save with
      log := if save.ok then .tombstoned req :: s.log else s.log }) := by
  unfold resolveRecorded at h
  split at h
  · cases h
  rename_i hinstance
  split at h
  · split at h
    · cases h
    · cases h
      exact .inl rfl
  rename_i hnew
  split at h
  · cases h
  rename_i hopen
  cases h
  simp only [Bool.or_eq_true, not_or, Bool.not_eq_true, not_not] at hopen hinstance
  exact .inr ⟨⟨hinstance.1, hnew, hopen.1, hopen.2⟩, rfl⟩

theorem submitLifecycle_eq_ok {host : Bool} {marker : Option OsError}
    (h : s.submitLifecycle cfg req host save marker = .ok t) :
    t = s ∨ (LifecycleAdmitted cfg s req ∧ t = s.registerLifecycle cfg req save marker) := by
  unfold submitLifecycle at h
  split at h
  · cases h
  rename_i hsupported
  split at h
  · cases h
  rename_i hinstance
  split at h
  · split at h
    · cases h
    · cases h
      exact .inl rfl
  rename_i hnew
  split at h
  · cases h
  rename_i hallowed
  cases h
  refine .inr ⟨?_, rfl⟩
  unfold lifecycleAllowed at hallowed
  split at hallowed
  · cases hallowed
  rename_i hopen
  split at hallowed
  · cases hallowed
  rename_i hrevision
  split at hallowed
  · cases hallowed
  rename_i hfree
  split at hallowed
  · cases hallowed
  rename_i hhost
  simp only [Bool.or_eq_true, Bool.not_eq_true', not_or, Bool.not_eq_true, Bool.not_eq_false,
    not_not, Option.isSome_eq_false_iff, Option.isNone_iff_eq_none] at *
  exact ⟨hsupported.1, hsupported.2, hinstance.1, hnew, hopen.1, hopen.2, hrevision, hfree.1.1,
    hfree.1.2, hfree.2, hhost.1.2, hhost.2⟩

end Requests

/-! ## Steps -/

/-- The effects of the requests from outside. -/
inductive AskedMove (cfg : Config) (s : Supervisor) : Asked → Supervisor → Prop
  | same {e : Asked} : AskedMove cfg s e s
  | registered {req : Request} {save : Save} (hvalid : req.validate cfg.parsesGuard = true)
    (hkind : req.lifecycle = false) (howned : req.owned = false)
    (hadmitted : Admitted cfg s req false) :
    AskedMove cfg s (.submit req save) (registered cfg s (s.register cfg req false) req save)
  | tokenHeld {req : Request} {save : Save} {job : Job}
    (hvalid : req.validate cfg.parsesGuard = true) (hkind : req.lifecycle = false)
    (howned : req.owned = true) (hheld : TokenHeld cfg s req job) :
    AskedMove cfg s (.submit req save) { s with call := some ⟨false, job,
      if req.action.stops then .processRead req else .processSubmit req⟩ }
  | lifecycle {req : Request} {host : Bool} {save : Save} {marker : Option OsError}
    (hvalid : req.validate cfg.parsesGuard = true) (hadmitted : LifecycleAdmitted cfg s req) :
    AskedMove cfg s (.submitLifecycle req host save marker)
      (s.registerLifecycle cfg req save marker)
  | tombstoned {req : Request} {save : Save} (hvalid : req.validate cfg.parsesGuard = true)
    (hburied : Buried cfg s req) :
    AskedMove cfg s (.resolve req save) { (s.buried cfg req).persist save with
      log := if save.ok then .tombstoned req :: s.log else s.log }
  | resolveBegin {req : Request} {host : Bool} (hreconcilable : s.reconcilable cfg req host = true) :
    AskedMove cfg s (.resolveBegin req host) (s.resolveBegin req)
  | resolveOpen {answer : Except String LowerFence} {save : Save} {marker : Option OsError} :
    AskedMove cfg s (.resolveEnd answer save marker) { s with resolving := none }
  | stopFound {answer : Except String LowerFence} {save : Save} {marker : Option OsError}
    {r : Resolving} (hr : s.resolving = some r) (hopen : s.closing = false)
    (hfound : (s.find r.req.requestId).isSome = true)
    (hpending : s.snapshot.pendingRequestId = none) (hproven : stopProven r = true) :
    AskedMove cfg s (.resolveEnd answer save marker)
      (({ s with resolving := none }.stopFound r).concluded cfg r.req .manualStopped save marker)
  | startFound {f : LowerFence} {save : Save} {marker : Option OsError} {r : Resolving}
    (hr : s.resolving = some r) (hopen : s.closing = false)
    (hfound : (s.find r.req.requestId).isSome = true)
    (hpending : s.snapshot.pendingRequestId = none) (hconfirmed : startConfirmed cfg r f = true)
    (hchild : s.child.isSome = true) (hpid : s.snapshot.pid ≠ 0) :
    AskedMove cfg s (.resolveEnd (.ok f) save marker)
      (({ s with resolving := none }.startFound r f).concluded cfg r.req .completed save marker)
  | held {req : MaintenanceRequest} {save : Save} {job : Job}
    (hjob : s.stoppedJob cfg req = .ok (some job)) :
    AskedMove cfg s (.maintain req save) ((s.setHold req job).saveMaintenance save)
  | maintained {req : MaintenanceRequest} {save : Save} {t : Supervisor}
    (hmaintained : Maintained cfg s req false save t) : AskedMove cfg s (.maintain req save) t

/-- The effects of the sections of the call under way. -/
inductive CallMove (cfg : Config) (s : Supervisor) (c : Call) : Calling → Supervisor → Prop
  | replied {answer : Except String LowerFence} {save : Save} {t : Supervisor}
    (hreplied : Replied s c save answer t) : CallMove cfg s c (.reply answer save) t
  | evidence {cause : String} (hstage : c.stage = .evidence cause) :
    CallMove cfg s c .evidence (s.evidenceUnknown c cause)
  | unknown {cause : String} {save : Save} (hstage : c.stage = .unknown cause) :
    CallMove cfg s c (.unknown save) (s.maintenanceUnknown c cause save)
  | submitted {req : Request} {save : Save} (hstage : c.stage = .processSubmit req)
    (hadmitted : Admitted cfg s req true) :
    CallMove cfg s c (.submit save)
      ((registered cfg s (s.register cfg req true) req save).endCall c none)
  | refused {req : Request} {save : Save} (error : Option String)
    (hstage : c.stage = .processSubmit req) : CallMove cfg s c (.submit save) (s.endCall c error)

section Moves

variable {cfg : Config} {s t : Supervisor}

theorem askedMove {e : Asked} (h : s.asked cfg e = some t) : AskedMove cfg s e t := by
  cases e with
  | submit req save =>
    simp only [asked] at h
    split at h
    swap
    · cases h
      exact .same
    rename_i hvalid
    cases h
    unfold submitAny
    split
    · exact .same
    rename_i hkind
    split
    · rename_i howned
      cases hsub : s.submitOwned cfg req with
      | error e => exact .same
      | ok u =>
        obtain rfl | ⟨job, hheld, rfl⟩ := submitOwned_eq_ok hsub
        · exact .same
        · exact .tokenHeld hvalid (by simpa using hkind) howned hheld
    · rename_i howned
      cases hsub : s.submit cfg req false save with
      | error e => exact .same
      | ok u =>
        obtain rfl | ⟨hadmitted, rfl⟩ := submit_eq_ok hsub
        · exact .same
        · exact .registered hvalid (by simpa using hkind) (by simpa using howned) hadmitted
  | submitLifecycle req host save marker =>
    simp only [asked] at h
    split at h
    swap
    · cases h
      exact .same
    rename_i hvalid
    cases h
    cases hsub : s.submitLifecycle cfg req host save marker with
    | error e => exact .same
    | ok u =>
      obtain rfl | ⟨hadmitted, rfl⟩ := submitLifecycle_eq_ok hsub
      · exact .same
      · exact .lifecycle hvalid hadmitted
  | resolve req save =>
    simp only [asked] at h
    split at h
    swap
    · cases h
      exact .same
    rename_i hvalid
    cases h
    cases hsub : s.resolveRecorded cfg req save with
    | error e => exact .same
    | ok u =>
      obtain rfl | ⟨hburied, rfl⟩ := resolveRecorded_eq_ok hsub
      · exact .same
      · exact .tombstoned hvalid hburied
  | resolveBegin req host =>
    simp only [asked] at h
    split at h
    · rename_i hcan
      cases h
      exact .resolveBegin (Bool.and_eq_true_iff.mp hcan).2
    · cases h
  | resolveEnd answer save marker =>
    obtain ⟨r, hr, rfl⟩ := Option.map_eq_some_iff.mp h
    unfold resolveEnd
    dsimp only
    split
    · exact .resolveOpen
    rename_i hopen
    simp only [Bool.or_eq_true, not_or, Bool.not_eq_true, Option.isSome_eq_false_iff,
      Option.isNone_iff_eq_none] at hopen
    have hfound : (s.find r.req.requestId).isSome = true :=
      Option.isSome_iff_ne_none.mpr hopen.1.2
    split
    · rename_i hproven
      exact .stopFound hr hopen.1.1 hfound hopen.2 hproven
    · split
      · exact .resolveOpen
      · split
        · rename_i hstart
          simp only [Bool.and_eq_true, bne_iff_ne] at hstart
          exact .startFound hr hopen.1.1 hfound hopen.2 hstart.1.1 hstart.1.2 hstart.2
        · exact .resolveOpen
  | maintain req save =>
    simp only [asked] at h
    split at h
    · cases h
      cases hjob : s.stoppedJob cfg req with
      | error e =>
        have hsame : s.stoppedMaintenance cfg req save = s := by rw [stoppedMaintenance, hjob]
        rw [hsame]
        exact .same
      | ok job =>
        cases job with
        | none =>
          have hsame : s.stoppedMaintenance cfg req save = s := by rw [stoppedMaintenance, hjob]
          rw [hsame]
          exact .same
        | some job =>
          have hheld : s.stoppedMaintenance cfg req save =
              (s.setHold req job).saveMaintenance save := by rw [stoppedMaintenance, hjob]
          rw [hheld]
          exact .held hjob
    · cases h
      exact .maintained (maintained rfl)

theorem callMove {e : Calling} (h : s.calling cfg e = some t) :
    ∃ c, s.call = some c ∧ s.maintenance.isSome = true ∧ CallMove cfg s c e t := by
  unfold calling at h
  split at h
  · cases h
  rename_i c hc
  split at h
  · cases h
  rename_i hjob
  have hsome : s.maintenance.isSome = true :=
    Option.isSome_iff_ne_none.mpr fun h => hjob (Option.isNone_iff_eq_none.mpr h)
  refine ⟨c, hc, hsome, ?_⟩
  split at h
  · exact .replied (replied hsome h)
  · cases h
    exact .evidence ‹_›
  · cases h
    exact .unknown ‹_›
  · rename_i req hstage
    cases h
    unfold submitCall
    split
    · rename_i u hsub
      obtain rfl | ⟨hadmitted, rfl⟩ := submit_eq_ok hsub
      · exact .refused none hstage
      · exact .submitted hstage hadmitted
    · exact .refused _ hstage
  · cases h

end Moves

/-- The effects of the worker in the routines of the process. -/
inductive WorkMove (cfg : Config) (s : Supervisor) : Working → Supervisor → Prop
  | takeJob {req : Request} (hworker : s.worker = .idle) (hjob : s.jobs = some req) :
    WorkMove cfg s .takeJob (s.takeJob req)
  | performBegin {req : Request} {save : Save} (hworker : s.worker = .perform req) :
    WorkMove cfg s (.performBegin save) (s.performBegin req save)
  | stopBegin {caller : StopFor} {save : Save} (hworker : s.worker = .stop .begin caller) :
    WorkMove cfg s (.stopBegin save) (s.stopBegin caller save)
  | stopSignal {caller : StopFor} {error : Option String}
    (hworker : s.worker = .stop .signal caller) :
    WorkMove cfg s (.stopSignal error) (s.goTo (match error with
      | none => .stop .waiting caller
      | some e => caller.returned false (some e)))
  | stopEnd {caller : StopFor} {forced : Bool} (hworker : s.worker = .stop .waiting caller)
    (hexited : s.alive = false) : WorkMove cfg s (.stopEnd forced) (s.stopEnd caller forced)
  | stopFail {caller : StopFor} {forced : Bool} {cause : String}
    (hworker : s.worker = .stop .waiting caller) :
    WorkMove cfg s (.stopFail forced cause) (s.goTo (caller.returned forced (some cause)))
  | gracefulSignal {caller : GracefulFor} {error : Option String}
    (hworker : s.worker = .graceful .begin caller) :
    WorkMove cfg s (.gracefulSignal error) (s.goTo (if s.child.isNone then caller.returned none
      else match error with
        | none => .graceful .waiting caller
        | some e => if s.exited then .graceful .waiting caller else caller.returned (some e)))
  | gracefulEnd {caller : GracefulFor} (hworker : s.worker = .graceful .waiting caller)
    (hexited : s.alive = false) :
    WorkMove cfg s .gracefulEnd ((s.recordExit.setState .stopped).goTo (caller.returned none))
  | gracefulFail {caller : GracefulFor} {cause : String}
    (hworker : s.worker = .graceful .waiting caller) :
    WorkMove cfg s (.gracefulFail cause) (s.goTo (caller.returned (some cause)))
  | count {req : Request} {forced : Bool} (hworker : s.worker = .count req forced) :
    WorkMove cfg s .count
      ({ s with restartCount := s.restartCount + 1 }.goTo (.start .begin (.perform req forced)))
  | startBegin {caller : StartFor} {save : Save} (hworker : s.worker = .start .begin caller) :
    WorkMove cfg s (.startBegin save) (s.startBegin caller save)
  | spawn {caller : StartFor} {pid : Nat} {save : Save} (hworker : s.worker = .start .spawn caller)
    (hpid : 1 < pid) : WorkMove cfg s (.spawn pid save) (s.spawn caller pid save)
  | spawnFail {caller : StartFor} {cause : String} (hworker : s.worker = .start .spawn caller) :
    WorkMove cfg s (.spawnFail cause) (s.goTo (caller.returned (some cause)))
  | startReady {caller : StartFor} (hworker : s.worker = .start .waiting caller)
    (halive : s.alive = true) : WorkMove cfg s .startReady (s.goTo (caller.returned none))
  | startExited {caller : StartFor} {cause : String} (hworker : s.worker = .start .waiting caller)
    (hexited : s.alive = false) :
    WorkMove cfg s (.startExited cause) (s.recordExit.goTo (caller.returned (some cause)))
  | startCanceled {caller : StartFor} (hworker : s.worker = .start .waiting caller)
    (hclosing : s.closing = true) :
    WorkMove cfg s .startCanceled (s.goTo (caller.returned (some "context canceled")))
  | startTimeout {caller : StartFor} {cause : String} (hworker : s.worker = .start .waiting caller) :
    WorkMove cfg s (.startTimeout cause) (s.goTo (.cleanup cause caller))
  | cleanup {caller : StartFor} {cause : String} (hworker : s.worker = .cleanup cause caller) :
    WorkMove cfg s .cleanup (s.goTo (if s.lifecycleActive then .graceful .begin (.cleanup cause caller)
      else .stop .begin (.cleanup cause caller)))
  | finish {req : Request} {forced : Bool} {error : Option String} {save : Save}
    (hworker : s.worker = .finish req forced error) :
    WorkMove cfg s (.finish save) (s.finish cfg req forced error save)
  | observe {elapsed : Bool} {id : String} {exitSave retrySave : Save} (hworker : s.worker = .idle)
    (hid : isNewId id = true) (hnew : s.seen id = false) :
    WorkMove cfg s (.observe elapsed id exitSave retrySave)
      (s.observeExitAndRetry cfg elapsed id exitSave retrySave)
  | shutdown (hworker : s.worker = .idle) (hclosing : s.closing = true) :
    WorkMove cfg s .shutdown (s.goTo (.stop .begin .shutdown))
  | shutdownEnd {error : Option String} {save : Save} (hworker : s.worker = .closing error) :
    WorkMove cfg s (.shutdownEnd save) (s.shutdownEnd error save)

/-- The effects of the worker in a lifecycle operation. -/
inductive LifecycleMove (cfg : Config) (s : Supervisor) (req : Request) :
    LifecycleStage → Lifecycling → Supervisor → Prop
  | begin : LifecycleMove cfg s req .begin .begin (s.lifecycleBegin req)
  | phase {point : PhasePoint} {save : Save} {marker : Option OsError} :
    LifecycleMove cfg s req (.phase point) (.phase save marker)
      (s.lifecyclePhase req point save marker)
  | request {call : LifecycleCall} {j : Lifecycle} (hj : s.lifecycle = some j) :
    LifecycleMove cfg s req (.request call) .request (s.lifecycleRequest cfg req call j)
  | call {call : LifecycleCall} {maintenance : MaintenanceRequest} {save : Save} {t : Supervisor}
    (hmaintained : Maintained cfg s maintenance true save t) :
    LifecycleMove cfg s req (.call call maintenance) (.call save) t
  | drainCheck {drain : Drain} {expired : Bool} :
    LifecycleMove cfg s req (.drainCheck drain) (.drainCheck expired) (s.drainCheck req drain expired)
  | validate {error : Option String} :
    LifecycleMove cfg s req .validate (.validate error) (s.validateConfiguration req error)
  | stopped {save : Save} {marker : Option OsError} :
    LifecycleMove cfg s req .stopped (.stopped save marker) (s.lifecycleStopped req save marker)
  | desire {save : Save} :
    LifecycleMove cfg s req .desire (.desire save) (s.lifecycleDesire req save)
  | read {answer : Except String LowerFence} :
    LifecycleMove cfg s req .read (.read answer) (s.lifecycleRead cfg req answer)
  | compare {active : Bool} :
    LifecycleMove cfg s req (.compare active) .compare (s.lifecycleCompare req active)
  | released : LifecycleMove cfg s req .released .released (s.lifecycleReleased req)
  | finish {result : LifecycleResult} {save : Save} {marker : Option OsError} :
    LifecycleMove cfg s req (.ended result) (.finish save marker)
      (s.lifecycleEnd cfg req result save marker)

/-- How `New` ends once `load` has saved its state: an error stops the agent again. -/
inductive Booted (cfg : Config) (t : Supervisor) (bootId : String) (startSave : Save) :
    Supervisor → Prop
  | failed : Booted cfg t bootId startSave (t.halt t.disk)
  | up (hsaved : t.storageErr = false) : Booted cfg t bootId startSave t
  | restored (hsaved : t.storageErr = false) (hrestores : t.restores = true)
    (hadmitted : Admitted cfg t (t.ownStart cfg ("boot." ++ bootId)) false)
    (hsave : startSave = .saved) :
    Booted cfg t bootId startSave (registered cfg t
      (t.register cfg (t.ownStart cfg ("boot." ++ bootId)) false)
      (t.ownStart cfg ("boot." ++ bootId)) startSave)
  | unrestored {u : Supervisor}
    (hadmitted : Admitted cfg t (t.ownStart cfg ("boot." ++ bootId)) false)
    (hu : u = registered cfg t (t.register cfg (t.ownStart cfg ("boot." ++ bootId)) false)
      (t.ownStart cfg ("boot." ++ bootId)) startSave) :
    Booted cfg t bootId startSave (u.halt u.disk)

theorem booted_cases (cfg : Config) (s : Supervisor) (d : Durable) (bootId : String)
    (loadSave startSave : Save) :
    Booted cfg ((s.loaded d bootId).persist loadSave) bootId startSave
      (s.booted cfg d bootId loadSave startSave) := by
  unfold booted
  dsimp only
  split
  · exact .failed
  rename_i hload
  have hsaved : ((s.loaded d bootId).persist loadSave).storageErr = false := by
    have hok : loadSave.ok = true := by simpa using hload
    rw [Save.eq_saved hok]
    rfl
  split
  swap
  · exact .up hsaved
  rename_i hrestores
  split
  · exact .failed
  rename_i u hsub
  obtain rfl | ⟨hadmitted, rfl⟩ := submit_eq_ok hsub
  · split
    · exact .up hsaved
    · exact .failed
  · split
    · rename_i hsave
      exact .restored hsaved hrestores hadmitted (Save.eq_saved hsave)
    · exact .unrestored hadmitted rfl

/-- The effects of all events. -/
inductive Move (cfg : Config) (s : Supervisor) : Event → Supervisor → Prop
  | elapse {time : Nat} : Move cfg s (.elapse time) { s with now := s.now + time }
  | unloadable {bootId : String} {loadSave startSave : Save} (hdown : s.up = false) :
    Move cfg s (.boot bootId loadSave startSave) s
  | boot {bootId : String} {loadSave startSave : Save} {d : Durable} {t : Supervisor}
    (hdown : s.up = false)
    (hid : isNewId bootId = true) (hnew : s.seen bootId = false)
    (hd : (s.disk.head? = some (some d) ∧ d.loadable cfg = true) ∨
      (s.disk.head?.join = none ∧ d = firstDurable cfg))
    (hbooted : Booted cfg ((s.loaded d bootId).persist loadSave) bootId startSave t) :
    Move cfg s (.boot bootId loadSave startSave) t
  | asked {e : Asked} {t : Supervisor} (hup : s.up = true) (hmove : AskedMove cfg s e t) :
    Move cfg s (.asked e) t
  | calling {e : Calling} {c : Call} {t : Supervisor} (hup : s.up = true) (hc : s.call = some c)
    (hjob : s.maintenance.isSome = true) (hmove : CallMove cfg s c e t) : Move cfg s (.calling e) t
  | working {e : Working} {t : Supervisor} (hup : s.up = true) (hmove : WorkMove cfg s e t) :
    Move cfg s (.working e) t
  | lifecycling {e : Lifecycling} {req : Request} {stage : LifecycleStage} {t : Supervisor}
    (hup : s.up = true) (hworker : s.worker = .lifecycle req stage)
    (hmove : LifecycleMove cfg s req stage e t) : Move cfg s (.lifecycling e) t
  | childExit {code : Int} (hup : s.up = true) : Move cfg s (.childExit code) (s.childExit code)
  | close (hup : s.up = true) : Move cfg s .close { s with closing := true }
  | crash {content : Nat} {d : Option Durable} (hup : s.up = true)
    (hd : s.disk[content]? = some d) : Move cfg s (.crash content) (s.halt [d])

section Steps

variable {cfg : Config} {s t : Supervisor}

theorem workMove {e : Working} (h : s.working cfg e = some t) : WorkMove cfg s e t := by
  unfold working at h
  split at h
  · rename_i hworker
    obtain ⟨req, hreq, rfl⟩ := Option.map_eq_some_iff.mp h
    exact .takeJob hworker hreq
  · cases h
    exact .performBegin ‹_›
  · cases h
    exact .stopBegin ‹_›
  · cases h
    exact .stopSignal ‹_›
  · split at h
    · cases h
    · rename_i hexited
      cases h
      exact .stopEnd ‹_› (Bool.eq_false_of_not_eq_true hexited)
  · cases h
    exact .stopFail ‹_›
  · cases h
    exact .gracefulSignal ‹_›
  · split at h
    · cases h
    · rename_i hexited
      cases h
      exact .gracefulEnd ‹_› (Bool.eq_false_of_not_eq_true hexited)
  · cases h
    exact .gracefulFail ‹_›
  · cases h
    exact .count ‹_›
  · cases h
    exact .startBegin ‹_›
  · split at h
    · cases h
    · cases h
      exact .spawn ‹_› (by omega)
  · cases h
    exact .spawnFail ‹_›
  · split at h
    · cases h
      exact .startReady ‹_› ‹_›
    · cases h
  · split at h
    · cases h
    · rename_i hexited
      cases h
      exact .startExited ‹_› (Bool.eq_false_of_not_eq_true hexited)
  · split at h
    · cases h
      exact .startCanceled ‹_› ‹_›
    · cases h
  · cases h
    exact .startTimeout ‹_›
  · cases h
    exact .cleanup ‹_›
  · cases h
    exact .finish ‹_›
  · split at h
    · rename_i hid
      cases h
      simp only [Bool.and_eq_true, Bool.not_eq_true'] at hid
      exact .observe ‹_› hid.1 hid.2
    · cases h
  · split at h
    · cases h
      exact .shutdown ‹_› ‹_›
    · cases h
  · cases h
    exact .shutdownEnd ‹_›
  · cases h

theorem lifecycleMove {e : Lifecycling} (h : s.lifecycling cfg e = some t) :
    ∃ req stage, s.worker = .lifecycle req stage ∧ LifecycleMove cfg s req stage e t := by
  unfold lifecycling at h
  split at h
  · rename_i req stage hworker
    refine ⟨req, stage, hworker, ?_⟩
    split at h
    · cases h
      exact .begin
    · cases h
      exact .phase
    · obtain ⟨j, hj, rfl⟩ := Option.map_eq_some_iff.mp h
      exact .request hj
    · cases h
      exact .call (maintained rfl)
    · cases h
      exact .drainCheck
    · cases h
      exact .validate
    · cases h
      exact .stopped
    · cases h
      exact .desire
    · cases h
      exact .read
    · cases h
      exact .compare
    · cases h
      exact .released
    · cases h
      exact .finish
    · cases h
  · cases h

theorem move {e : Event} (h : s.step cfg e = some t) : Move cfg s e t := by
  unfold step at h
  split at h
  · cases h
    exact .elapse
  · rename_i hdown
    split at h
    swap
    · cases h
    rename_i hid
    simp only [Bool.and_eq_true, Bool.not_eq_true'] at hid
    cases h
    unfold boot
    split
    · rename_i hnone
      exact .boot hdown hid.1 hid.2 (.inr ⟨hnone, rfl⟩) (booted_cases ..)
    · rename_i d hd
      have hfile : s.disk.head? = some (some d) := Option.join_eq_some_iff.mp hd
      split
      · rename_i hload
        exact .boot hdown hid.1 hid.2 (.inl ⟨hfile, hload⟩) (booted_cases ..)
      · exact .unloadable hdown
  · exact .asked ‹_› (askedMove h)
  · obtain ⟨c, hc, hjob, hmove⟩ := callMove h
    exact .calling ‹_› hc hjob hmove
  · exact .working ‹_› (workMove h)
  · obtain ⟨req, stage, hworker, hmove⟩ := lifecycleMove h
    exact .lifecycling ‹_› hworker hmove
  · cases h
    exact .childExit ‹_›
  · cases h
    exact .close ‹_›
  · obtain ⟨d, hd, rfl⟩ := Option.map_eq_some_iff.mp h
    exact .crash ‹_› hd
  · cases h

end Steps

end Supervisor

end RcdServer.Agent
