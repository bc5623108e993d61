import RcdServer.Agent.Moves

/-!
# Completed jobs have no active fence

A job is completed by a fence that is no longer active, and the job of a stopped lower has none. So
no completed job is ever deferred. This holds of every copy of a job, in memory and on disk.
-/
namespace RcdServer.Agent

open Lib Lib.Run

/-- A completed job and the job of a stopped lower have no active fence. -/
structure Job.Sealed (j : Job) : Prop where
  completed : j.phase = .completed → j.lower.active = false
  held : j.offlineHold = true → j.fencingToken = none ∧ j.lower.active = false

namespace Job.Sealed

variable {j : Job} {f : LowerFence}

theorem touch (h : j.Sealed) (now : Nat) : (j.touch now).Sealed := ⟨h.completed, h.held⟩

theorem doubt (h : j.Sealed) : j.doubt.Sealed := ⟨h.completed, h.held⟩

theorem unknown (h : j.Sealed) (cause : String) : (j.unknown cause).Sealed :=
  ⟨fun hphase => (nomatch hphase), h.held⟩

theorem assign (hheld : j.offlineHold = false) (token : Nat) : (j.assign token).Sealed :=
  ⟨fun hphase => (nomatch hphase), fun habsurd => (nomatch hheld.symm.trans habsurd)⟩

theorem release (hheld : j.offlineHold = false) : (j.release f).Sealed :=
  ⟨fun hphase => (nomatch hphase), fun habsurd => (nomatch hheld.symm.trans habsurd)⟩

/-- A fence that names the job has its token, so the job is not held. -/
theorem confirm (h : j.Sealed) (hvalid : f.validate j.gatewayInstanceId = true)
    (hsame : sameFence f j = true) : (j.confirm f).Sealed := by
  constructor
  · intro hphase
    cases hactive : f.active with
    | false => exact hactive
    | true =>
      unfold Job.confirm at hphase
      rw [hactive] at hphase
      dsimp only at hphase
      rw [if_neg (by decide)] at hphase
      split at hphase
      · cases hphase
      split at hphase <;> cases hphase
  · intro hheld
    have htoken : f.fencingToken = none := by
      simp only [sameFence, Bool.and_eq_true, decide_eq_true_eq] at hsame
      exact hsame.2.trans (h.held hheld).1
    unfold LowerFence.validate at hvalid
    rw [htoken] at hvalid
    cases hvalid

end Job.Sealed

/-- A call that may give the current job a token or release it. -/
def Call.Opening (c : Call) : Prop := c.stage = .read .enter ∨ c.stage = .read .complete

/-- A process action that a call is about names a token. -/
def Call.Named (c : Call) : Prop :=
  ∀ req, c.stage = .processRead req ∨ c.stage = .processSubmit req → req.owned = true

namespace Supervisor

/-- All copies of jobs, in memory and on disk, are sealed. -/
structure Sealed (s : Supervisor) : Prop where
  maintenance : ∀ j ∈ s.maintenance, j.Sealed
  deferred : ∀ j ∈ s.deferredFence, j.Sealed ∧ j.offlineHold = false
  resolving : ∀ r ∈ s.resolving, ∀ j ∈ r.job, j.Sealed
  call : ∀ c ∈ s.call, c.Opening → ∀ j ∈ s.maintenance, j.offlineHold = false
  named : ∀ c ∈ s.call, c.Named
  disk : ∀ d, some d ∈ s.disk → (∀ j ∈ d.maintenance, j.Sealed) ∧
    ∀ j ∈ d.deferredFence, j.Sealed ∧ j.offlineHold = false

theorem mem_written {s : Supervisor} {save : Save} {d : Durable}
    (h : some d ∈ s.written save) : d = s.durable ∨ some d ∈ s.disk := by
  cases save with
  | saved => exact .inl (Option.some.inj (List.mem_singleton.mp h))
  | lost e => exact .inr h
  | unsure e =>
    obtain hd | hd := List.mem_cons.mp h
    · exact .inl (Option.some.inj hd)
    · exact .inr hd

namespace Sealed

variable {cfg : Config} {s t : Supervisor}

theorem frame (h : Sealed s) (hm : t.maintenance = s.maintenance)
    (hd : t.deferredFence = s.deferredFence) (hr : t.resolving = s.resolving)
    (hcall : t.call = s.call) (hdisk : t.disk = s.disk) : Sealed t :=
  ⟨hm ▸ h.maintenance, hd ▸ h.deferred, hr ▸ h.resolving, hm ▸ hcall ▸ h.call,
    hcall ▸ h.named, hdisk ▸ h.disk⟩

/-- The call moves on to another stage, or ends. -/
theorem recalled (h : Sealed s) {call : Option Call} (hcall : ∀ c ∈ call, ¬ c.Opening ∧ c.Named) :
    Sealed { s with call := call } :=
  ⟨h.maintenance, h.deferred, h.resolving, fun c hc hopening => absurd hopening (hcall c hc).1,
    fun c hc => (hcall c hc).2, h.disk⟩

theorem stage (h : Sealed s) (c : Call) {stage : CallStage} (hread : ∀ action, stage ≠ .read action)
    (hnamed : ∀ req, stage = .processRead req ∨ stage = .processSubmit req → req.owned = true) :
    Sealed (s.stage c stage) := by
  refine h.recalled fun c' hc' => ?_
  obtain rfl := Option.some.inj hc'
  exact ⟨fun hopening => hopening.elim (hread _) (hread _), hnamed⟩

theorem endCall (h : Sealed s) (c : Call) (error : Option String) : Sealed (s.endCall c error) :=
  (h.frame (t := s.returned c.worker error) rfl rfl rfl rfl rfl).recalled fun _ hc =>
    (Option.not_mem_none _ hc).elim

theorem persist (h : Sealed s) (save : Save) : Sealed (s.persist save) := by
  refine ⟨h.maintenance, h.deferred, h.resolving, h.call, h.named, fun d hd => ?_⟩
  obtain rfl | hd := mem_written hd
  · exact ⟨h.maintenance, h.deferred⟩
  · exact h.disk d hd

theorem bump (h : Sealed s) : Sealed s.bump := h.frame rfl rfl rfl rfl rfl

theorem saveLifecycle (h : Sealed s) (save : Save) (marker : Option OsError) :
    Sealed (s.saveLifecycle save marker) := (h.bump.persist save).frame rfl rfl rfl rfl rfl

theorem mapJob {f : Job → Job} (h : Sealed s) (hf : ∀ j ∈ s.maintenance, j.Sealed → (f j).Sealed)
    (hheld : ∀ j, (f j).offlineHold = j.offlineHold) : Sealed (s.mapJob f) := by
  refine ⟨?_, h.deferred, h.resolving, ?_, h.named, h.disk⟩
  · intro j hj
    obtain ⟨j', hj', rfl⟩ := Option.mem_map.mp hj
    exact hf j' hj' (h.maintenance j' hj')
  · intro c hc hopening j hj
    obtain ⟨j', hj', rfl⟩ := Option.mem_map.mp hj
    exact (hheld j').trans (h.call c hc hopening j' hj')

theorem saveMaintenance (h : Sealed s) (save : Save) : Sealed (s.saveMaintenance save) :=
  (h.mapJob (f := Job.touch s.now) (fun _ _ hj => hj.touch s.now) fun _ => rfl).bump.persist save

/-! ## Calls -/

theorem enterJob {req : MaintenanceRequest} {job : Job} (h : s.enterJob cfg req = .ok (some job)) :
    job.Sealed ∧ job.offlineHold = false := by
  obtain ⟨-, -, ⟨habsurd, -⟩ | ⟨previous, hjob, -⟩⟩ := enterJob_eq_ok h
  · cases habsurd
  · cases hjob
    exact ⟨⟨fun hphase => (nomatch hphase), fun hheld => (nomatch hheld)⟩, rfl⟩

theorem openJob (h : Sealed s) {job : Job} (hj : job.Sealed ∧ job.offlineHold = false)
    (save : Save) : Sealed (s.openJob job save) := by
  refine Sealed.saveMaintenance (s := { s with
    schemaVersion := max s.schemaVersion 2, maintenance := some job, drainedFor := none }) ?_ save
  exact ⟨fun j hj' => Option.some.inj hj' ▸ hj.1, h.deferred, h.resolving,
    fun _ _ _ j hj' => Option.some.inj hj' ▸ hj.2, h.named, h.disk⟩

/-- A call of `enter` or `complete` begins with an active job that is not held. -/
theorem not_held {req : MaintenanceRequest} {job : Job}
    (hallowed : s.maintenanceAllowed cfg req = .ok ()) (hjob : s.maintenance = some job)
    (hphase : job.phase ≠ .completed) : job.offlineHold = false := by
  unfold maintenanceAllowed at hallowed
  iterate 8
    split at hallowed
    · cases hallowed
  split at hallowed
  · cases hallowed
  rename_i hheld
  have hactive : s.maintenanceActive = true := by
    simp only [maintenanceActive, hjob, Option.any_some, bne_iff_ne]
    exact hphase
  simpa [hactive, hjob] using hheld

theorem maintained {req : MaintenanceRequest} {worker : Bool} {save : Save} (h : Sealed s)
    (ht : Maintained cfg s req worker save t) : Sealed t := by
  cases ht with
  | refused e => exact h.frame rfl rfl rfl rfl rfl
  | completed => exact h.frame rfl rfl rfl rfl rfl
  | @begun job hallowed hjob _ hphase =>
    refine ⟨h.maintenance, h.deferred, h.resolving, ?_, fun c hc => ?_, h.disk⟩
    swap
    · obtain rfl := Option.some.inj hc
      exact fun _ hreq => (hreq.elim nofun nofun)
    intro c hc hopening j hj
    obtain rfl := Option.some.inj hc
    obtain rfl : job = j := Option.some.inj (hjob.symm.trans hj)
    have hactive : job.phase ≠ .completed := by
      refine hphase.resolve_right fun hreconcile => ?_
      rw [Call.Opening, hreconcile] at hopening
      obtain habsurd | habsurd := hopening
      · cases habsurd
      · cases habsurd
    exact not_held hallowed hjob hactive
  | @opened job _ _ hjob =>
    have hopened := h.openJob (enterJob hjob) save
    refine ⟨hopened.maintenance, hopened.deferred, hopened.resolving, ?_, fun c hc => ?_,
      hopened.disk⟩
    swap
    · obtain rfl := Option.some.inj hc
      exact fun _ hreq => (hreq.elim nofun nofun)
    intro c _ _ j hj
    obtain rfl := Option.some.inj hj
    exact (enterJob hjob).2
  | openFailed _ _ hjob => exact (h.openJob (enterJob hjob) save).frame rfl rfl rfl rfl rfl

theorem assignToken {c : Call} {f : LowerFence} {save : Save} (h : Sealed s)
    (hheld : ∀ j ∈ s.maintenance, j.offlineHold = false) : Sealed (s.assignToken c f save) := by
  have hassigned := (h.mapJob (f := Job.assign (f.fencingToken.getD 0 + 1))
    (fun j hj _ => .assign (hheld j hj) _) fun _ => rfl).saveMaintenance save
  unfold Supervisor.assignToken
  dsimp only
  split
  · exact hassigned.stage _ nofun fun _ hreq => (hreq.elim nofun nofun)
  · exact hassigned.endCall c _

theorem requestRelease {c : Call} {f : LowerFence} {save : Save} (h : Sealed s)
    (hheld : ∀ j ∈ s.maintenance, j.offlineHold = false) : Sealed (s.requestRelease c f save) := by
  have hreleased := h.mapJob (f := Job.release f) (fun j hj _ => .release (hheld j hj)) fun _ => rfl
  have hcleared : Sealed { s.mapJob (Job.release f) with drainedFor := none } :=
    hreleased.frame rfl rfl rfl rfl rfl
  unfold Supervisor.requestRelease
  dsimp only
  split
  · exact (hcleared.saveMaintenance save).stage _ nofun fun _ hreq => (hreq.elim nofun nofun)
  · exact (hcleared.saveMaintenance save).endCall c _

theorem replied {c : Call} {save : Save} {answer : Except String LowerFence} (h : Sealed s)
    (hc : s.call = some c) (ht : Replied s c save answer t) : Sealed t := by
  have hseen : ∀ f, Sealed (s.observe f) := fun f => h.frame rfl rfl rfl rfl rfl
  have hplain : ∀ {req : Request} {stage : CallStage}, stage ≠ .processRead req →
      stage ≠ .processSubmit req → stage = .processRead req ∨ stage = .processSubmit req →
        req.owned = true := fun h1 h2 h => (h.elim h1 h2).elim
  cases ht with
  | failed => exact h.stage c nofun fun _ => hplain nofun nofun
  | @doubted f _ hstage =>
    obtain ⟨cause, rfl | rfl⟩ := hstage
    · exact (hseen f).stage c nofun fun _ => hplain nofun nofun
    · exact (hseen f).stage c nofun fun _ => hplain nofun nofun
  | @entering f => exact (hseen f).stage c nofun fun _ => hplain nofun nofun
  | @assigned f hstage => exact (hseen f).assignToken (h.call c hc (.inl hstage))
  | @released f hstage => exact (hseen f).requestRelease (h.call c hc (.inr hstage))
  | @left f => exact (hseen f).stage c nofun fun _ => hplain nofun nofun
  | @recorded f job error hjob _ hvalid hsame =>
    have hconfirmed : Sealed { s.observe f with maintenance := some (job.confirm f) } := by
      refine ⟨?_, h.deferred, h.resolving, ?_, h.named, h.disk⟩
      · intro j hj
        exact Option.some.inj hj ▸ (h.maintenance job hjob).confirm hvalid hsame
      · intro c' hc' hopening j hj
        exact Option.some.inj hj ▸ h.call c' hc' hopening job hjob
    exact (hconfirmed.saveMaintenance save).endCall c error
  | @undrained f => exact (hseen f).endCall c _
  | @drained f req hstage =>
    refine (hseen f).stage c nofun fun req' hreq => ?_
    obtain habsurd | hsame := hreq
    · cases habsurd
    · cases hsame
      exact h.named c hc _ (.inl hstage)

/-! ## Requests -/

theorem stoppedJob {req : MaintenanceRequest} {job : Job} (h : Sealed s)
    (hjob : s.stoppedJob cfg req = .ok (some job)) : job.Sealed ∧ s.call = none := by
  have hhold : (holdJob cfg s req).Sealed :=
    ⟨fun hphase => (nomatch hphase), fun _ => ⟨rfl, rfl⟩⟩
  unfold Supervisor.stoppedJob at hjob
  split at hjob
  · cases hjob
  rename_i hfree
  refine ⟨?_, by simpa using hfree⟩
  iterate 3
    split at hjob
    · cases hjob
  split at hjob
  · split at hjob
    · rename_i current hcurrent
      split at hjob
      · cases hjob
      rename_i hheld
      split at hjob
      · cases hjob
      cases hjob
      simp only [not_or, Bool.not_eq_false, not_not] at hheld
      have hcurrent := h.maintenance current hcurrent
      exact ⟨fun _ => (hcurrent.held hheld.1).2, hcurrent.held⟩
    · cases hjob
  split at hjob
  · cases hjob
  split at hjob
  · cases hjob
    exact hhold
  split at hjob
  · split at hjob <;> cases hjob
  split at hjob
  · cases hjob
  · cases hjob
    exact hhold

theorem register {req : Request} {owner : Bool} (h : Sealed s) :
    Sealed (s.register cfg req owner) := by
  refine ⟨?_, h.deferred, h.resolving, ?_, h.named, h.disk⟩
  · intro j hj
    obtain ⟨j', hj', rfl⟩ := Option.mem_map.mp hj
    split
    · refine ⟨fun habsurd => ?_, (h.maintenance j' hj').held⟩
      dsimp only at habsurd
      split at habsurd <;> cases habsurd
    · exact h.maintenance j' hj'
  · intro c hc hopening j hj
    obtain ⟨j', hj', rfl⟩ := Option.mem_map.mp hj
    have hheld := h.call c hc hopening j' hj'
    split
    · exact hheld
    · exact hheld

theorem registered {req : Request} {owner : Bool} {save : Save} (h : Sealed s) :
    Sealed (registered cfg s (s.register cfg req owner) req save) := by
  have hsaved : Sealed ((s.register cfg req owner).persist save) := h.register.persist save
  cases save with
  | saved => exact hsaved.frame rfl rfl rfl rfl rfl
  | lost e => exact hsaved.frame rfl rfl rfl rfl rfl
  | unsure e => exact hsaved.frame rfl rfl rfl rfl rfl

theorem registerLifecycle {req : Request} {save : Save} {marker : Option OsError} (h : Sealed s) :
    Sealed (s.registerLifecycle cfg req save marker) := by
  have hsaved := (h.frame (t := { s with
    schemaVersion := 4
    lifecycle := some (s.newLifecycle cfg req)
    snapshot := { s.snapshot with pendingRequestId := some req.requestId }
    retryAt := false }.add req .accepted) rfl rfl rfl rfl rfl).saveLifecycle save marker
  unfold Supervisor.registerLifecycle
  dsimp only
  split <;> exact hsaved.frame rfl rfl rfl rfl rfl

theorem concluded {req : Request} {phase : LifecyclePhase} {save : Save} {marker : Option OsError}
    (h : Sealed s) : Sealed (s.concluded cfg req phase save marker) := by
  refine Sealed.saveLifecycle ?_ save marker
  exact h.frame rfl rfl rfl rfl rfl

/-- A proven stop defers the fence that was confirmed active. -/
theorem stopFound {r : Resolving} (h : Sealed s) (hr : s.resolving = some r)
    (hproven : stopProven r = true) : Sealed ({ s with resolving := none }.stopFound r) := by
  have hm : ({ s with resolving := none }.stopFound r).maintenance =
      if r.job.isSome then none else s.maintenance := rfl
  refine ⟨?_, ?_, fun _ hr => (Option.not_mem_none _ hr).elim, ?_, h.named, h.disk⟩
  · intro j hj
    rw [hm] at hj
    split at hj
    · cases hj
    · exact h.maintenance j hj
  · intro j hj
    obtain hj | ⟨-, hj⟩ := Option.or_eq_some_iff.mp hj
    · have hsealed := h.resolving r hr j hj
      simp only [stopProven, hj, Option.all_some, Bool.and_eq_true] at hproven
      refine ⟨hsealed, Bool.eq_false_of_not_eq_true fun hheld => ?_⟩
      rw [(hsealed.held hheld).2] at hproven
      cases hproven.2.2
    · exact h.deferred j hj
  · intro c hc hopening j hj
    rw [hm] at hj
    split at hj
    · cases hj
    · exact h.call c hc hopening j hj

/-- A confirmed start completes the job with a fence that is not active. -/
theorem startFound {r : Resolving} {f : LowerFence} (h : Sealed s)
    (hconfirmed : startConfirmed cfg r f = true) :
    Sealed ({ s with resolving := none }.startFound r f) := by
  simp only [startConfirmed, Bool.and_eq_true, Bool.not_eq_true'] at hconfirmed
  have hactive : f.active = false := hconfirmed.1.1.2
  have hm : ({ s with resolving := none }.startFound r f).maintenance =
      if r.job.isSome then s.maintenance.map fun j => { j with
        lower := f, lowerConfirmed := true, phase := JobPhase.completed, error := "" }
      else s.maintenance := rfl
  refine ⟨?_, fun _ hj => (Option.not_mem_none _ hj).elim,
    fun _ hr => (Option.not_mem_none _ hr).elim, ?_, h.named, h.disk⟩
  · intro j hj
    rw [hm] at hj
    split at hj
    · obtain ⟨j', hj', rfl⟩ := Option.mem_map.mp hj
      exact ⟨fun _ => hactive, fun hheld => ⟨((h.maintenance j' hj').held hheld).1, hactive⟩⟩
    · exact h.maintenance j hj
  · intro c hc hopening j hj
    rw [hm] at hj
    split at hj
    · obtain ⟨j', hj', rfl⟩ := Option.mem_map.mp hj
      exact h.call c hc hopening j' hj'
    · exact h.call c hc hopening j hj

theorem asked {e : Asked} (h : Sealed s) (ht : AskedMove cfg s e t) : Sealed t := by
  cases ht with
  | same => exact h
  | registered => exact h.registered
  | @tokenHeld req _ job _ _ howned =>
    refine h.recalled fun c hc => ?_
    obtain rfl := Option.some.inj hc
    unfold Call.Opening Call.Named
    split
    · exact ⟨nofun, fun _ hreq => by obtain hreq | hreq := hreq <;> cases hreq; exact howned⟩
    · exact ⟨nofun, fun _ hreq => by obtain hreq | hreq := hreq <;> cases hreq; exact howned⟩
  | lifecycle => exact h.registerLifecycle
  | @tombstoned req save =>
    have hburied : Sealed (s.buried cfg req) := h.frame rfl rfl rfl rfl rfl
    exact (hburied.persist save).frame rfl rfl rfl rfl rfl
  | @resolveBegin req =>
    refine ⟨h.maintenance, h.deferred, fun r hr => ?_, h.call, h.named, h.disk⟩
    rw [← Option.some.inj hr]
    exact h.maintenance
  | resolveOpen =>
    exact ⟨h.maintenance, h.deferred, fun _ hr => (Option.not_mem_none _ hr).elim, h.call, h.named, h.disk⟩
  | stopFound hr _ _ _ hproven => exact (h.stopFound hr hproven).concluded
  | startFound _ _ _ _ hconfirmed => exact (h.startFound hconfirmed).concluded
  | @held req save job hjob =>
    obtain ⟨hsealed, hfree⟩ := h.stoppedJob hjob
    refine Sealed.saveMaintenance (s := s.setHold req job)
      ⟨fun j hj => Option.some.inj hj ▸ hsealed, h.deferred, h.resolving, ?_, h.named, h.disk⟩ save
    intro c hc
    exact (nomatch hfree.symm.trans hc)
  | maintained hmaintained => exact h.maintained hmaintained

theorem calling {e : Calling} {c : Call} (h : Sealed s) (hc : s.call = some c)
    (ht : CallMove cfg s c e t) : Sealed t := by
  cases ht with
  | replied hreplied => exact h.replied hc hreplied
  | evidence =>
    exact (h.mapJob (f := Job.doubt) (fun _ _ hj => hj.doubt) fun _ => rfl).stage c nofun
      fun _ hreq => (hreq.elim nofun nofun)
  | @unknown cause save =>
    have hchanged := h.mapJob (f := Job.unknown cause) (fun _ _ hj => hj.unknown cause) fun _ => rfl
    exact (hchanged.saveMaintenance save).endCall c _
  | submitted => exact h.registered.endCall c _
  | refused => exact h.endCall c _

/-! ## The worker -/

theorem finished {req : Request} {forced : Bool} {error : Option String} (h : Sealed s) :
    Sealed (s.finished cfg req forced error) := by
  refine ⟨?_, h.deferred, h.resolving, ?_, h.named, h.disk⟩
  · intro j hj
    obtain ⟨j', hj', rfl⟩ := Option.mem_map.mp hj
    split
    · exact h.maintenance j' hj'
    · refine ⟨fun habsurd => ?_, (h.maintenance j' hj').held⟩
      dsimp only at habsurd
      split at habsurd
      · cases habsurd
      split at habsurd <;> cases habsurd
  · intro c hc hopening j hj
    obtain ⟨j', hj', rfl⟩ := Option.mem_map.mp hj
    have hheld := h.call c hc hopening j' hj'
    split
    · exact hheld
    · exact hheld

theorem retry {id : String} {save : Save} (h : Sealed s) : Sealed (s.retry cfg id save) := by
  have hadded := (h.frame (t := { s.add (s.ownStart cfg ("retry." ++ id)) .accepted with
      snapshot := { s.snapshot with pendingRequestId := some ("retry." ++ id) }
      restartCount := s.restartCount + 1
      retryAt := false }.bump.freeze cfg ("retry." ++ id)) rfl rfl rfl rfl rfl).persist save
  exact hadded.frame rfl rfl rfl rfl rfl

theorem observeExitAndRetry {elapsed : Bool} {id : String} {exitSave retrySave : Save}
    (h : Sealed s) : Sealed (s.observeExitAndRetry cfg elapsed id exitSave retrySave) := by
  have hretry : ∀ u, Sealed u → Sealed (if elapsed && u.retryDue then u.retry cfg id retrySave
      else u) := by
    intro u hu
    split
    · exact hu.retry
    · exact hu
  unfold Supervisor.observeExitAndRetry
  split
  · exact h
  · refine hretry _ ?_
    split
    · refine Sealed.persist ?_ exitSave
      exact h.frame rfl rfl rfl rfl rfl
    · exact h

theorem working {e : Working} (h : Sealed s) (ht : WorkMove cfg s e t) : Sealed t := by
  cases ht with
  | takeJob | stopSignal | stopEnd | stopFail | gracefulSignal | gracefulEnd | gracefulFail | count
  | spawnFail | startReady | startExited | startCanceled | startTimeout | cleanup | shutdown =>
    exact h.frame rfl rfl rfl rfl rfl
  | performBegin =>
    refine Sealed.persist ?_ _
    exact h.frame rfl rfl rfl rfl rfl
  | stopBegin =>
    unfold Supervisor.stopBegin
    split
    · refine Sealed.persist ?_ _
      exact h.frame rfl rfl rfl rfl rfl
    · exact h.frame rfl rfl rfl rfl rfl
  | startBegin =>
    unfold Supervisor.startBegin
    split
    · exact h.frame rfl rfl rfl rfl rfl
    split
    · exact h.frame rfl rfl rfl rfl rfl
    · refine Sealed.persist ?_ _
      exact h.frame rfl rfl rfl rfl rfl
  | spawn =>
    refine Sealed.persist ?_ _
    exact h.frame rfl rfl rfl rfl rfl
  | @finish _ _ _ save => exact (h.finished.persist save).frame rfl rfl rfl rfl rfl
  | observe => exact h.observeExitAndRetry
  | shutdownEnd =>
    refine Sealed.persist ?_ _
    exact h.frame rfl rfl rfl rfl rfl

theorem deferFence (h : Sealed s) : Sealed s.deferFence := by
  have hm : s.deferFence.maintenance = if s.keepsFence then none else s.maintenance := rfl
  have hd : s.deferFence.deferredFence = if s.keepsFence then s.maintenance else s.deferredFence :=
    rfl
  refine ⟨?_, ?_, h.resolving, ?_, h.named, h.disk⟩
  · intro j hj
    rw [hm] at hj
    split at hj
    · cases hj
    · exact h.maintenance j hj
  · intro j hj
    rw [hd] at hj
    split at hj
    · rename_i hkeeps
      have hsealed := h.maintenance j hj
      simp only [keepsFence, show s.maintenance = some j from hj, Option.any_some,
        Bool.and_eq_true] at hkeeps
      refine ⟨hsealed, Bool.eq_false_of_not_eq_true fun hheld => ?_⟩
      rw [(hsealed.held hheld).2] at hkeeps
      cases hkeeps.2
    · exact h.deferred j hj
  · intro c hc hopening j hj
    rw [hm] at hj
    split at hj
    · cases hj
    · exact h.call c hc hopening j hj

theorem lifecycleBegin {req : Request} (h : Sealed s) : Sealed (s.lifecycleBegin req) := by
  unfold Supervisor.lifecycleBegin
  split
  · exact h.frame rfl rfl rfl rfl rfl
  · refine ⟨?_, h.deferred, h.resolving, ?_, h.named, h.disk⟩
    · intro j hj
      obtain hj | ⟨-, hj⟩ := Option.or_eq_some_iff.mp hj
      · exact (h.deferred j hj).1
      · exact h.maintenance j hj
    · intro c hc hopening j hj
      obtain hj | ⟨-, hj⟩ := Option.or_eq_some_iff.mp hj
      · exact (h.deferred j hj).2
      · exact h.call c hc hopening j hj

theorem lifecyclePhase {req : Request} {point : PhasePoint} {save : Save} {marker : Option OsError}
    (h : Sealed s) : Sealed (s.lifecyclePhase req point save marker) := by
  have hsaved := (h.frame (t := (s.setLifecycle fun j =>
    { j with phase := point.phase, state := .running }).update req.requestId fun o =>
      { o with state := .running, updatedAt := s.now }) rfl rfl rfl rfl rfl).saveLifecycle save marker
  exact hsaved.frame rfl rfl rfl rfl rfl

theorem lifecycleEnd {req : Request} {result : LifecycleResult} {save : Save}
    {marker : Option OsError} (h : Sealed s) : Sealed (s.lifecycleEnd cfg req result save marker) := by
  have hsaved := (h.frame (t := s.lifecycleEnded cfg req result)
    rfl rfl rfl rfl rfl).saveLifecycle save marker
  unfold Supervisor.lifecycleEnd
  dsimp only
  split
  · exact hsaved.frame rfl rfl rfl rfl rfl
  · exact hsaved

theorem lifecycling {e : Lifecycling} {req : Request} {stage : LifecycleStage} (h : Sealed s)
    (ht : LifecycleMove cfg s req stage e t) : Sealed t := by
  cases ht with
  | begin => exact h.lifecycleBegin
  | phase => exact h.lifecyclePhase
  | request | drainCheck | validate | read | compare => exact h.frame rfl rfl rfl rfl rfl
  | call hmaintained => exact h.maintained hmaintained
  | @stopped save marker =>
    unfold lifecycleStopped
    split
    · exact h.frame rfl rfl rfl rfl rfl
    · exact (h.deferFence.saveLifecycle save marker).frame rfl rfl rfl rfl rfl
  | @desire save =>
    have hsaved := (h.frame (t := { s with desired := Desired.running })
      rfl rfl rfl rfl rfl).bump.persist save
    exact hsaved.frame rfl rfl rfl rfl rfl
  | released =>
    exact ⟨h.maintenance, fun _ hj => (Option.not_mem_none _ hj).elim, h.resolving, h.call, h.named, h.disk⟩
  | finish => exact h.lifecycleEnd

/-! ## Runs -/

theorem halt {disk : List (Option Durable)} (hdisk : ∀ d ∈ disk, d ∈ s.disk) (h : Sealed s) :
    Sealed (s.halt disk) :=
  ⟨fun _ hj => (Option.not_mem_none _ hj).elim, fun _ hj => (Option.not_mem_none _ hj).elim,
    fun _ hr => (Option.not_mem_none _ hr).elim, fun _ hc => (Option.not_mem_none _ hc).elim,
    fun _ hc => (Option.not_mem_none _ hc).elim,
    fun d hd => h.disk d (hdisk _ hd)⟩

theorem restored {j : Job} (h : j.Sealed) (now : Nat) : (j.restored now).Sealed := by
  unfold Job.restored
  split
  · exact h
  · exact ⟨fun hphase => (nomatch hphase), h.held⟩

theorem loaded {d : Durable} (bootId : String) (h : Sealed s) (hm : ∀ j ∈ d.maintenance, j.Sealed)
    (hd : ∀ j ∈ d.deferredFence, j.Sealed ∧ j.offlineHold = false) : Sealed (s.loaded d bootId) := by
  refine ⟨?_, hd, fun _ hr => (Option.not_mem_none _ hr).elim,
    fun _ hc => (Option.not_mem_none _ hc).elim, fun _ hc => (Option.not_mem_none _ hc).elim,
    h.disk⟩
  intro j hj
  obtain ⟨j', hj', rfl⟩ := Option.mem_map.mp hj
  exact restored (hm j' hj') s.now

theorem booted {bootId : String} {startSave : Save} (h : Sealed s)
    (ht : Booted cfg s bootId startSave t) : Sealed t := by
  cases ht with
  | failed => exact h.halt fun _ hd => hd
  | up => exact h
  | restored => exact h.registered
  | unrestored _ hu =>
    subst hu
    exact h.registered.halt fun _ hd => hd

theorem step {e : Event} (h : Sealed s) (ht : Supervisor.step cfg s e = some t) : Sealed t := by
  cases move ht with
  | elapse => exact h.frame rfl rfl rfl rfl rfl
  | unloadable => exact h
  | @boot bootId loadSave _ d _ _ _ _ hd hbooted =>
    have hjobs : (∀ j ∈ d.maintenance, j.Sealed) ∧
        ∀ j ∈ d.deferredFence, j.Sealed ∧ j.offlineHold = false := by
      obtain ⟨hfile, -⟩ | ⟨-, rfl⟩ := hd
      · exact h.disk d (List.mem_of_head? hfile)
      · exact ⟨fun _ hj => (Option.not_mem_none _ hj).elim,
          fun _ hj => (Option.not_mem_none _ hj).elim⟩
    exact ((h.loaded bootId hjobs.1 hjobs.2).persist loadSave).booted hbooted
  | asked _ hmove => exact h.asked hmove
  | calling _ hc _ hmove => exact h.calling hc hmove
  | working _ hmove => exact h.working hmove
  | lifecycling _ _ hmove => exact h.lifecycling hmove
  | childExit => exact h.frame rfl rfl rfl rfl rfl
  | close => exact h.frame rfl rfl rfl rfl rfl
  | crash _ hd =>
    refine h.halt fun d' hd' => ?_
    rw [List.mem_singleton.mp hd']
    exact List.mem_of_getElem? hd

theorem initial : Sealed Supervisor.initial :=
  ⟨fun _ hj => (Option.not_mem_none _ hj).elim, fun _ hj => (Option.not_mem_none _ hj).elim,
    fun _ hr => (Option.not_mem_none _ hr).elim, fun _ hc => (Option.not_mem_none _ hc).elim,
    fun _ hc => (Option.not_mem_none _ hc).elim,
    fun _ hd => nomatch List.mem_singleton.mp hd⟩

end Sealed

end Supervisor

end RcdServer.Agent
