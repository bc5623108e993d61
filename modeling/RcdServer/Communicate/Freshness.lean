import Mathlib.Algebra.Ring.Int.Defs
import RcdServer.Communicate.Stream

/-!
# Fresh snapshots

What the samples of the receiving task are is read off the newest entry of the log: after a
publication they are the values of that payload, after anything else none of them is Good. The
timeout counts from the newest publication on the connection, whatever else has arrived since.
-/
namespace RcdServer.Communicate.Stream

open Lib Lib.Run Lib.Scanner Points

variable {F32 F64 : Type} {w : Receiver}

def quality (store : Store F32 F64) (name : String) : Option Quality :=
  (store.samples name).map (·.quality)

def lastPublished : List Event → Option Instant
  | [] => none
  | .published _ processed :: _ => some processed
  | .failed .. :: log => lastPublished log
  | .timedOut :: log => lastPublished log

/-- The timeout is recorded and nothing has been published since. -/
def expired : List Event → Bool
  | [] => false
  | .published .. :: _ => false
  | .failed .. :: log => expired log
  | .timedOut :: _ => true

/-- Every point of the task has its value from the one payload. -/
structure Carries (w : Receiver) (store : Store F32 F64) (payload : List UInt8) : Prop where
  accepted : ∃ frame, Accepted w.codec w.port.limits frame payload
  valid : w.layout.validatePayload payload = .ok ()
  values : ∀ name ∈ w.config.pointsOf w.task, ∃ f ∈ w.layout.fields, f.input = name ∧
    ∃ sample, store.samples name = some sample ∧ sample.quality = .good ∧
      sample.value = decodeField f payload

/-- No point of the task is Good. -/
def Quiet (w : Receiver) (store : Store F32 F64) : Prop :=
  ∀ name ∈ w.config.pointsOf w.task, ∃ q, quality store name = some q ∧ q ≠ .good

/-- No point of the task has any quality but this one. -/
def AllAre (w : Receiver) (q : Quality) (store : Store F32 F64) : Prop :=
  ∀ name ∈ w.config.pointsOf w.task, quality store name = some q

def Known (w : Receiver) (store : Store F32 F64) : Prop :=
  ∀ name ∈ w.config.pointsOf w.task, ∃ sample, store.samples name = some sample

def Holds (w : Receiver) (store : Store F32 F64) : List Event → Prop
  | .published payload _ :: _ => Carries w store payload
  | _ => Quiet w store

structure Inv (w : Receiver) (c : Conn F32 F64) : Prop where
  limits : c.decoder.limits = w.port.limits
  since : c.lastValid = (lastPublished c.log).getD c.opened
  timed : c.timedOut = expired c.log
  holds : Holds w c.store c.log
  silent : c.timedOut = true → AllAre w .noCommunication c.store

/-! ## Calls on the store -/

section Stores

variable {store store' : Store F32 F64}

theorem Quiet.known (h : Quiet w store) : Known w store := by
  intro name hname
  obtain ⟨q, hq, -⟩ := h name hname
  obtain ⟨sample, hsample, -⟩ := Option.map_eq_some_iff.mp hq
  exact ⟨sample, hsample⟩

theorem Holds.known {log : List Event} (h : Holds w store log) : Known w store := by
  unfold Holds at h
  split at h
  · intro name hname
    obtain ⟨f, -, -, sample, hsample, -⟩ := h.values name hname
    exact ⟨sample, hsample⟩
  · exact h.known

theorem AllAre.quiet {q : Quality} (h : AllAre w q store) (hq : q ≠ .good) : Quiet w store :=
  fun name hname => ⟨q, h name hname, hq⟩

/-- Two stores have the same samples for the points of the task. -/
def SamePoints (w : Receiver) (store store' : Store F32 F64) : Prop :=
  ∀ name ∈ w.config.pointsOf w.task, store'.samples name = store.samples name

theorem samePoints_of_eq (h : store'.samples = store.samples) : SamePoints w store store' :=
  fun name _ => congrFun h name

theorem SamePoints.quality_eq (h : SamePoints w store store') {name : String}
    (hname : name ∈ w.config.pointsOf w.task) : quality store' name = quality store name := by
  rw [quality, quality, h name hname]

theorem SamePoints.quiet (h : SamePoints w store store') (hquiet : Quiet w store) :
    Quiet w store' := by
  intro name hname
  rw [h.quality_eq hname]
  exact hquiet name hname

theorem SamePoints.known (h : SamePoints w store store') (hknown : Known w store) :
    Known w store' := by
  intro name hname
  rw [h name hname]
  exact hknown name hname

theorem SamePoints.allAre {q : Quality} (h : SamePoints w store store') (hall : AllAre w q store) :
    AllAre w q store' := by
  intro name hname
  rw [h.quality_eq hname]
  exact hall name hname

theorem SamePoints.holds {log : List Event} (h : SamePoints w store store')
    (hholds : Holds w store log) : Holds w store' log := by
  unfold Holds at hholds ⊢
  split at hholds
  · refine ⟨hholds.accepted, hholds.valid, ?_⟩
    intro name hname
    rw [h name hname]
    exact hholds.values name hname
  · exact h.quiet hholds

theorem response_matched {layout : Layout} {payload : List UInt8}
    {points : List (PointUpdate F32 F64)} (h : response layout payload = .ok (.matched points)) :
    layout.validatePayload payload = .ok () ∧
      points = layout.fields.map fun f => ⟨f.input, decodeField f payload, .good, ""⟩ := by
  unfold response at h
  split at h
  · cases h
  split at h
  · cases h
  cases hdecode : (decodeReport layout payload : Except String (List (PointUpdate F32 F64))) with
  | error e => simp [hdecode] at h
  | ok decoded =>
    obtain rfl : decoded = points := by simpa [hdecode] using h
    unfold decodeReport at hdecode
    cases hvalid : layout.validatePayload payload with
    | error e => simp [hvalid] at hdecode
    | ok u =>
      simp only [hvalid, Except.ok.injEq] at hdecode
      exact ⟨rfl, hdecode.symm⟩

variable [Zero F32] [Zero F64]

theorem quiet_new : Quiet w (.new w.config : Store F32 F64) := by
  intro name hname
  obtain ⟨d, hd, -⟩ := mem_pointsOf.mp hname
  refine ⟨w.config.initial d.taskId, by simp [quality, Store.new, hd], ?_⟩
  unfold Config.initial
  split
  · simp
  · split
    · simp
    · split <;> simp

theorem allAre_of_fail {q : Quality} {error : String} (hknown : Known w store)
    (h : store.fail w.config w.task q error = .ok store') : q ≠ .good ∧ AllAre w q store' := by
  obtain ⟨hq, hpoints, -⟩ := Store.fail_ok h
  refine ⟨hq, fun name hname => ?_⟩
  obtain ⟨sample, hsample⟩ := hknown name hname
  rw [quality, hpoints name hname, hsample]
  rfl

theorem carries_of_publish [Floating F32] [Floating F64] {payload : List UInt8}
    {points : List (PointUpdate F32 F64)} {sourceTime now : Utc}
    (haccepted : ∃ frame, Accepted w.codec w.port.limits frame payload)
    (hmatched : response w.layout payload = .ok (.matched points))
    (h : store.publish w.config w.task points sourceTime now = .ok store') :
    Carries w store' payload := by
  obtain ⟨hvalid, rfl⟩ := response_matched hmatched
  refine ⟨haccepted, hvalid, ?_⟩
  intro name hname
  obtain ⟨u, hu, rfl, hsample⟩ := (Store.publish_ok h).1 name hname
  obtain ⟨f, hf, rfl⟩ := List.mem_map.mp hu
  exact ⟨f, hf, rfl, _, hsample, rfl, by simp [Store.publishedSample]⟩

/-- Another task's calls leave the points of this one alone. -/
theorem samePoints_apply [Floating F32] [Floating F64] {call : StoreCall F32 F64}
    (h : call.task? ≠ some w.task) : SamePoints w store (call.apply w.config store) := by
  unfold StoreCall.apply
  cases hcall : call.run w.config store with
  | error e => exact fun _ _ => rfl
  | ok store' =>
    cases call with
    | portState id status error reconnected => exact samePoints_of_eq (Store.onPort_samples hcall)
    | attempt task now => exact samePoints_of_eq (Store.attempt_samples hcall)
    | recordFrameErrors id rejected discarded late =>
      exact samePoints_of_eq (Store.onPort_samples hcall)
    | publish task updates sourceTime now =>
      intro name hname
      have hne : task ≠ w.task := fun heq => h (congrArg some heq)
      exact (Store.publish_ok hcall).2 name (pointsOf_disjoint hne hname)
    | fail task q error =>
      intro name hname
      have hne : task ≠ w.task := fun heq => h (congrArg some heq)
      exact (Store.fail_ok hcall).2.2 name (pointsOf_disjoint hne hname)

end Stores

/-! ## Rounds -/

section Rounds

variable {c c' : Conn F32 F64}

theorem andThen_keeps {P : Conn F32 F64 → Prop} {x : Conn F32 F64 × Flow}
    {f : Conn F32 F64 → Conn F32 F64 × Flow} (hx : P x.1) (hf : ∀ c, P c → P (f c).1) :
    P (andThen x f).1 := by
  unfold andThen
  split
  · exact hf _ hx
  · exact hx

theorem andThen_go {x : Conn F32 F64 × Flow} {f : Conn F32 F64 → Conn F32 F64 × Flow}
    (h : andThen x f = (c', .go)) : ∃ mid, x = (mid, .go) ∧ f mid = (c', .go) := by
  obtain ⟨c, flow⟩ := x
  cases flow with
  | go => exact ⟨c, rfl, h⟩
  | left => cases h
  | failed e => cases h

/-- Nothing that the points or the timeout depend on has changed. -/
structure Unmoved (w : Receiver) (c c' : Conn F32 F64) : Prop where
  limits : c'.decoder.limits = c.decoder.limits
  lastValid : c'.lastValid = c.lastValid
  timedOut : c'.timedOut = c.timedOut
  opened : c'.opened = c.opened
  log : c'.log = c.log
  points : SamePoints w c.store c'.store

theorem Unmoved.refl (c : Conn F32 F64) : Unmoved w c c := ⟨rfl, rfl, rfl, rfl, rfl, fun _ _ => rfl⟩

theorem Unmoved.inv (hc : Unmoved w c c') (h : Inv w c) : Inv w c' where
  limits := hc.limits.trans h.limits
  since := by rw [hc.lastValid, hc.log, hc.opened, h.since]
  timed := by rw [hc.timedOut, hc.log, h.timed]
  holds := by
    rw [hc.log]
    exact hc.points.holds h.holds
  silent := by
    rw [hc.timedOut]
    exact fun ht => hc.points.allAre (h.silent ht)

theorem unmoved_reportFrameErrors (frames : FeedResult) (late : Bool) :
    Unmoved w c (c.reportFrameErrors w frames late).1 := by
  unfold Conn.reportFrameErrors
  split
  · exact .refl c
  · cases hcall : c.store.recordFrameErrors w.port.id frames.rejectedFrames frames.discardedBytes
      late with
    | error e => exact .refl c
    | ok store => exact ⟨rfl, rfl, rfl, rfl, rfl, samePoints_of_eq (Store.onPort_samples hcall)⟩

theorem unmoved_disconnected (error : String) : Unmoved w c (c.disconnected w error).1 := by
  unfold Conn.disconnected
  cases hcall : c.store.portState w.port.id "Disconnected" error false with
  | error e => exact .refl c
  | ok store => exact ⟨rfl, rfl, rfl, rfl, rfl, samePoints_of_eq (Store.onPort_samples hcall)⟩

theorem unmoved_send (r : Round) : Unmoved w c (c.send w r).1 := by
  unfold Conn.send
  split
  · split
    · exact .refl c
    · exact unmoved_disconnected _
    · exact ⟨rfl, rfl, rfl, rfl, rfl, fun _ _ => rfl⟩
  · exact .refl c

variable [Zero F32] [Zero F64]

theorem inv_fail (h : Inv w c) (error : String) : Inv w (c.fail w error).1 := by
  unfold Conn.fail
  dsimp only
  generalize hq : (if c.timedOut = true then Quality.noCommunication else .configuration) = q
  cases hcall : c.store.fail w.config w.task q error with
  | error e => exact h
  | ok store =>
    obtain ⟨hgood, hall⟩ := allAre_of_fail h.holds.known hcall
    refine ⟨h.limits, h.since, h.timed, hall.quiet hgood, ?_⟩
    intro ht
    rw [if_pos ht] at hq
    rw [hq]
    exact hall

variable [Floating F32] [Floating F64]

theorem inv_handle (h : Inv w c) {now : Instant} {clocks : Clocks} {payload : List UInt8}
    (haccepted : ∃ frame, Accepted w.codec w.port.limits frame payload) :
    Inv w (c.handle w now clocks payload).1 := by
  unfold Conn.handle
  cases hresponse : (response w.layout payload : Except String (Response F32 F64)) with
  | error e => exact inv_fail h e
  | ok answer =>
    cases answer with
    | ignore => exact h
    | matched points =>
      dsimp only
      cases hattempt : c.store.attempt w.config w.task clocks.attempted with
      | error e => exact h
      | ok store =>
        dsimp only
        cases hpublish : store.publish w.config w.task points clocks.source clocks.succeeded with
        | error e =>
          have hstore : Unmoved w c { c with store := store } :=
            ⟨rfl, rfl, rfl, rfl, rfl, samePoints_of_eq (Store.attempt_samples hattempt)⟩
          exact inv_fail (hstore.inv h) e.text
        | ok store' =>
          exact ⟨h.limits, rfl, rfl, carries_of_publish haccepted hresponse hpublish, by simp⟩

theorem inv_handleAll (h : Inv w c) {now : Instant} {clocks : Nat → Clocks}
    {payloads : List (List UInt8)}
    (haccepted : ∀ payload ∈ payloads, ∃ frame, Accepted w.codec w.port.limits frame payload) :
    Inv w (Conn.handleAll w now c clocks payloads).1 := by
  induction payloads generalizing c clocks with
  | nil => exact h
  | cons payload payloads ih =>
    refine andThen_keeps (inv_handle h (haccepted payload List.mem_cons_self)) ?_
    intro c hc
    exact ih hc fun p hp => haccepted p (List.mem_cons_of_mem _ hp)

theorem exists_frame {frames payloads : List (List UInt8)} {codec : Codec} {limits : Limits}
    (h : List.Forall₂ (Accepted codec limits) frames payloads) :
    ∀ payload ∈ payloads, ∃ frame, Accepted codec limits frame payload := by
  induction h with
  | nil => simp
  | cons hfirst _ ih =>
    intro payload hp
    rcases List.mem_cons.mp hp with rfl | hp
    · exact ⟨_, hfirst⟩
    · exact ih payload hp

theorem inv_receive (h : Inv w c) (r : Round) : Inv w (c.receive w r).1 := by
  unfold Conn.receive
  split
  · rename_i chunk _
    split
    · unfold Conn.feed
      cases hfeed : c.decoder.feed w.codec chunk with
      | mk result decoder =>
        have hlimits : decoder.limits = c.decoder.limits := by
          have := congrArg (fun x => x.2.limits) hfeed
          dsimp only at this
          rw [← this, FrameDecoder.feed]
          split <;> rfl
        cases result with
        | error e =>
          have hnext : Unmoved w c { c with
              decoder := decoder, schedule := c.schedule.received r.received false } :=
            ⟨hlimits, rfl, rfl, rfl, rfl, fun _ _ => rfl⟩
          exact inv_fail (hnext.inv h) _
        | ok frames =>
          have haccepted : ∀ payload ∈ frames.payloads,
              ∃ frame, Accepted w.codec w.port.limits frame payload := by
            obtain ⟨d, hframes⟩ := feed_accepted hfeed
            rw [h.limits] at hframes
            exact exists_frame hframes
          have hdecoder : Unmoved w c { c with decoder := decoder } :=
            ⟨hlimits, rfl, rfl, rfl, rfl, fun _ _ => rfl⟩
          refine andThen_keeps ((unmoved_reportFrameErrors frames false).inv (hdecoder.inv h)) ?_
          intro c' hc'
          refine inv_handleAll (Unmoved.inv ?_ hc') haccepted
          exact ⟨rfl, rfl, rfl, rfl, rfl, fun _ _ => rfl⟩
    · exact (unmoved_disconnected _).inv h
  · exact h
  · exact (unmoved_disconnected _).inv h

theorem inv_expire (h : Inv w c) (r : Round) : Inv w (c.expire w r).1 := by
  unfold Conn.expire
  split
  · obtain ⟨stream, -, hframes, -⟩ := recoverExpired_divides w.codec c.decoder
    rw [h.limits] at hframes
    have hdecoder : Unmoved w c { c with decoder := (c.decoder.recoverExpired w.codec).2 } :=
      ⟨rfl, rfl, rfl, rfl, rfl, fun _ _ => rfl⟩
    refine andThen_keeps ((unmoved_reportFrameErrors _ true).inv (hdecoder.inv h)) ?_
    intro c' hc'
    refine andThen_keeps (inv_handleAll hc' (exists_frame hframes)) ?_
    intro c'' hc''
    refine Unmoved.inv ?_ hc''
    exact ⟨rfl, rfl, rfl, rfl, rfl, fun _ _ => rfl⟩
  · exact h

omit [Floating F32] [Floating F64] in
theorem inv_checkTimeout (h : Inv w c) (r : Round) : Inv w (c.checkTimeout w r).1 := by
  unfold Conn.checkTimeout
  split
  · cases hcall : c.store.fail w.config w.task .noCommunication "peer snapshot timeout" with
    | error e => exact h
    | ok store =>
      obtain ⟨hgood, hall⟩ := allAre_of_fail h.holds.known hcall
      exact ⟨h.limits, h.since, rfl, hall.quiet hgood, fun _ => hall⟩
  · exact h

omit [Floating F32] [Floating F64] in
theorem checkTimeout_go {r : Round} (h : c.checkTimeout w r = (c', .go)) :
    c'.timedOut = true ∨ r.checked - c'.lastValid < millis w.port.receiveTimeoutMs := by
  unfold Conn.checkTimeout at h
  split at h
  · cases hcall : c.store.fail w.config w.task .noCommunication "peer snapshot timeout" with
    | error e => simp [hcall] at h
    | ok store =>
      simp only [hcall] at h
      cases h
      exact .inl rfl
  · rename_i hcheck
    cases h
    simp only [Bool.and_eq_true, Bool.not_eq_true', decide_eq_true_eq, not_and, not_le] at hcheck
    cases ht : c.timedOut with
    | true => exact .inl rfl
    | false => exact .inr (hcheck ht)

theorem inv_round (h : Inv w c) (r : Round) : Inv w (c.round w r).1 :=
  andThen_keeps
    (andThen_keeps (andThen_keeps (inv_receive h r) fun _ hc => inv_expire hc r)
      fun _ hc => inv_checkTimeout hc r)
    fun _ hc => (unmoved_send r).inv hc

/-- A round that goes on has looked at the timeout. -/
theorem round_go {r : Round} (h : c.round w r = (c', .go)) :
    c'.timedOut = true ∨ r.checked - c'.lastValid < millis w.port.receiveTimeoutMs := by
  obtain ⟨mid, hmid, hsend⟩ := andThen_go h
  obtain ⟨_, -, hcheck⟩ := andThen_go hmid
  have hunmoved : Unmoved w mid (mid.send w r).1 := unmoved_send r
  rw [hsend] at hunmoved
  rw [hunmoved.timedOut, hunmoved.lastValid]
  exact checkTimeout_go hcheck

end Rounds

/-! ## The end of a round -/

section Ends

/-- What holds at the end of a round. -/
structure Fresh (w : Receiver) (checked : Instant) (c : Conn F32 F64) : Prop where
  whole : ∀ name ∈ w.config.pointsOf w.task, quality c.store name = some .good →
    ∃ payload processed earlier, Carries w c.store payload ∧
      c.log = .published payload processed :: earlier ∧
      checked - processed < millis w.port.receiveTimeoutMs
  stays : ∀ later earlier, c.log = later ++ .timedOut :: earlier →
    (∀ e ∈ later, ∀ payload processed, e ≠ .published payload processed) →
    AllAre w .noCommunication c.store
  deadline : checked - (lastPublished c.log).getD c.opened < millis w.port.receiveTimeoutMs ∨
    AllAre w .noCommunication c.store

theorem expired_of_unpublished {later earlier : List Event}
    (h : ∀ e ∈ later, ∀ payload processed, e ≠ .published payload processed) :
    expired (later ++ .timedOut :: earlier) = true := by
  induction later with
  | nil => rfl
  | cons e later ih =>
    have hrest := ih fun e' he' => h e' (List.mem_cons_of_mem _ he')
    cases e with
    | published payload processed => exact absurd rfl (h _ List.mem_cons_self payload processed)
    | failed q error => exact hrest
    | timedOut => rfl

theorem not_good_of_quiet {store : Store F32 F64} (h : Quiet w store) {name : String}
    (hname : name ∈ w.config.pointsOf w.task) : quality store name ≠ some .good := by
  obtain ⟨q, hq, hgood⟩ := h name hname
  rw [hq]
  exact fun heq => hgood (Option.some.inj heq)

theorem fresh_of_inv {c : Conn F32 F64} {checked : Instant} (h : Inv w c)
    (hchecked : c.timedOut = true ∨ checked - c.lastValid < millis w.port.receiveTimeoutMs) :
    Fresh w checked c where
  whole := by
    intro name hname hgood
    have hlive : checked - c.lastValid < millis w.port.receiveTimeoutMs := by
      refine hchecked.resolve_left fun ht => ?_
      rw [h.silent ht name hname] at hgood
      cases hgood
    have hholds := h.holds
    rw [h.since] at hlive
    generalize c.log = log at hholds hlive
    match log, hholds, hlive with
    | .published payload processed :: earlier, hcarries, hlive =>
      exact ⟨payload, processed, earlier, hcarries, rfl, hlive⟩
    | [], hquiet, _ => exact absurd hgood (not_good_of_quiet hquiet hname)
    | .failed .. :: _, hquiet, _ => exact absurd hgood (not_good_of_quiet hquiet hname)
    | .timedOut :: _, hquiet, _ => exact absurd hgood (not_good_of_quiet hquiet hname)
  stays := by
    intro later earlier hlog hlater
    refine h.silent ?_
    rw [h.timed, hlog]
    exact expired_of_unpublished hlater
  deadline := by
    rw [← h.since]
    exact hchecked.symm.imp_right h.silent

end Ends

/-! ## Runs of the worker -/

section Runs

def PhaseInv (w : Receiver) : Phase F32 F64 → Prop
  | .idle store => Quiet w store
  | .streaming c => Inv w c
  | .lost store => Known w store
  | .ended _ => True

theorem phaseInv_opened {store : Store F32 F64} (h : Quiet w store) (everOpened : Bool)
    (scheduled lastValid : Instant) : PhaseInv w (opened w store everOpened scheduled lastValid) := by
  unfold opened
  cases hport : store.portState w.port.id "Open" "" everOpened with
  | error e => trivial
  | ok mid =>
    have hmid : SamePoints w store mid := samePoints_of_eq (Store.onPort_samples hport)
    dsimp only
    cases hnew : FrameDecoder.new w.port.limits with
    | error e => trivial
    | ok decoder =>
      obtain ⟨-, rfl⟩ := new_eq_ok hnew
      exact ⟨rfl, rfl, rfl, hmid.quiet h, by simp [Conn.new]⟩

theorem phaseInv_withStore {phase : Phase F32 F64} {store : Store F32 F64} (h : PhaseInv w phase)
    (hsame : SamePoints w phase.store store) : PhaseInv w (phase.withStore store) := by
  cases phase with
  | idle _ => exact hsame.quiet h
  | streaming c =>
    have hmoved : Unmoved w c { c with store := store } := ⟨rfl, rfl, rfl, rfl, rfl, hsame⟩
    exact hmoved.inv h
  | lost _ => exact hsame.known h
  | ended _ => trivial

variable [Zero F32] [Zero F64]

theorem phaseInv_openFailed {store : Store F32 F64} (h : Quiet w store) (message : String) :
    PhaseInv w (openFailed w store message) := by
  unfold openFailed
  cases hport : store.portState w.port.id "OpenFailed" message false with
  | error e => trivial
  | ok mid =>
    have hmid : SamePoints w store mid := samePoints_of_eq (Store.onPort_samples hport)
    dsimp only
    cases hfail : failTasks w mid .noCommunication message with
    | error e => trivial
    | ok store' =>
      obtain ⟨hq, hall⟩ := allAre_of_fail (hmid.known h.known) hfail
      exact hall.quiet hq

theorem phaseInv_closed {store : Store F32 F64} (h : Known w store) :
    PhaseInv w (closed w store) := by
  unfold closed
  dsimp only
  generalize (if (((store.ports w.port.id).map (·.lastError)).getD "").isEmpty = true then
    "serial connection lost" else ((store.ports w.port.id).map (·.lastError)).getD "") = error
  cases hfail : failTasks w store .noCommunication error with
  | error e => trivial
  | ok mid =>
    obtain ⟨hq, hall⟩ := allAre_of_fail h hfail
    dsimp only
    cases hport : mid.portState w.port.id "Reconnecting" error false with
    | error e => trivial
    | ok store' =>
      have hsame : SamePoints w mid store' := samePoints_of_eq (Store.onPort_samples hport)
      exact hsame.quiet (hall.quiet hq)

theorem phaseInv_finish (store : Store F32 F64) : PhaseInv w (finish w store) := by
  unfold finish
  cases failTasks w store .outOfService "acquisition stopped" with
  | error e => trivial
  | ok mid =>
    dsimp only
    cases mid.portState w.port.id "Stopped" "" false <;> trivial

variable [Floating F32] [Floating F64]

theorem phaseInv_roundPhase {c : Conn F32 F64} (h : Inv w c) (r : Round) :
    PhaseInv w (roundPhase w c r) := by
  have hround := inv_round h r
  unfold roundPhase
  generalize c.round w r = x at hround
  obtain ⟨c', flow⟩ := x
  cases flow with
  | go => exact hround
  | left => exact hround.holds.known
  | failed e => trivial

theorem phaseInv_step {s s' : Sys F32 F64} {a : Action F32 F64} (h : PhaseInv w s.phase)
    (hstep : step w s a = some s') : PhaseInv w s'.phase := by
  obtain ⟨phase, everOpened⟩ := s
  cases a with
  | other call =>
    simp only [step] at hstep
    split at hstep
    · cases hstep
    · rename_i hother
      cases hstep
      exact phaseInv_withStore h (samePoints_apply hother)
  | openFailed message =>
    cases phase with
    | idle store =>
      cases hstep
      exact phaseInv_openFailed h message
    | _ => cases hstep
  | opened scheduled lastValid =>
    cases phase with
    | idle store =>
      cases hstep
      exact phaseInv_opened h _ _ _
    | _ => cases hstep
  | round r =>
    cases phase with
    | streaming c =>
      cases hstep
      exact phaseInv_roundPhase h r
    | _ => cases hstep
  | closed =>
    cases phase with
    | lost store =>
      cases hstep
      exact phaseInv_closed h
    | _ => cases hstep
  | stop =>
    cases phase with
    | ended _ => cases hstep
    | _ =>
      cases hstep
      exact phaseInv_finish _

theorem phaseInv_exec {s : Sys F32 F64} {as : List (Action F32 F64)}
    (h : exec (step w) (init w) as = some s) : PhaseInv w s.phase := by
  have hinit : PhaseInv w (init w : Sys F32 F64).phase := quiet_new
  exact exec_invariant (fun s : Sys F32 F64 => PhaseInv w s.phase)
    (fun _ _ _ hinv hs => phaseInv_step hinv hs) hinit h

theorem received_points_fresh {s s' : Sys F32 F64} {as : List (Action F32 F64)} {r : Round}
    {c : Conn F32 F64} (h : exec (step w) (init w) as = some s)
    (hround : step w s (.round r) = some s') (hc : s'.phase = .streaming c) :
    Fresh w r.checked c := by
  have hinv := phaseInv_exec h
  obtain ⟨phase, everOpened⟩ := s
  cases phase with
  | streaming before =>
    cases hround
    have hafter := inv_round hinv r
    have hgo := @round_go _ _ w before c _ _ _ _ r
    simp only [roundPhase] at hc
    generalize before.round w r = x at hc hafter hgo
    obtain ⟨c', flow⟩ := x
    cases flow with
    | go =>
      cases hc
      exact fresh_of_inv hafter (hgo rfl)
    | left => cases hc
    | failed e => cases hc
  | _ => cases hround

end Runs

namespace Sample

instance : Floating Int := ⟨fun _ => true⟩

def definitions : List PointDefinition :=
  Layout.unit9To1.fields.map fun f => ⟨f.input, "unit9", f.dataType⟩

/-- A report of unit 9 with nothing set, in its envelope. -/
def body : List UInt8 := [115, 0, 105, 0, 105, 0, 9, 0] ++ List.replicate 103 0

def frame : List UInt8 := body ++ [98, 245, 249, 115]

/-- CRC-32 of the body of the report; other frames do not occur here. -/
def crc32 (bytes : List UInt8) : UInt32 := if bytes = body then 0x73f9f562 else 0

def receiver : Receiver where
  config := ⟨[⟨"sync", true, [⟨"unit9", "unit9-to1-v1", true⟩]⟩], definitions, by decide +kernel⟩
  port := ⟨"sync", 256, 256, 50, 1000, 500, 10, 3000⟩
  task := "unit9"
  layout := .unit9To1
  codec := ⟨crc32, fun _ _ => .error "corrupt deflate stream"⟩

def round (chunk : List UInt8) : Round :=
  ⟨.bytes chunk, 20, fun _ => ⟨7, 7, 7⟩, 21, fun _ => ⟨7, 7, 7⟩, .nothing, 22⟩

def opened : List (Action Int Int) :=
  [.openFailed "No such device", .opened 10 11, .round (round (frame.take 60))]

def goodAfter (s : Sys Int Int) : Bool :=
  match s.phase with
  | .streaming c => quality c.store "DATA.Header.nBlock.z" == some .good
  | _ => false

end Sample

/-- The second half of the report makes the points Good. -/
theorem received_points_fresh_report : ∃ (s s' : Sys Int Int) (c : Conn Int Int),
    exec (step Sample.receiver) (init Sample.receiver) Sample.opened = some s ∧
    step Sample.receiver s (.round (Sample.round (Sample.frame.drop 60))) = some s' ∧
    s'.phase = .streaming c ∧ quality c.store "DATA.Header.nBlock.z" = some .good ∧
    Fresh Sample.receiver 21 c := by
  have hgood : ((exec (step Sample.receiver) (init Sample.receiver) Sample.opened).bind fun s =>
      step Sample.receiver s (.round (Sample.round (Sample.frame.drop 60)))).any
        Sample.goodAfter = true := by decide +kernel
  cases hs : exec (step Sample.receiver) (init Sample.receiver) Sample.opened with
  | none => simp [hs] at hgood
  | some s =>
    rw [hs, Option.bind_some] at hgood
    cases hs' : step Sample.receiver s (.round (Sample.round (Sample.frame.drop 60))) with
    | none => simp [hs'] at hgood
    | some s' =>
      rw [hs', Option.any_some, Sample.goodAfter] at hgood
      cases hc : s'.phase with
      | streaming c =>
        simp only [hc, beq_iff_eq] at hgood
        exact ⟨s, s', c, rfl, hs', hc, hgood, received_points_fresh hs hs' hc⟩
      | _ => simp [hc] at hgood

end RcdServer.Communicate.Stream
